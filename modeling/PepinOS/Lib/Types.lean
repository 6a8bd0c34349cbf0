import Mathlib.Data.BitVec

/-!
# Machine words

`lib/types.h` names the fixed-width integers of the kernel. They are bit
vectors here, so `+`, `-`, `<<`, `|` and `&` wrap and mask exactly as the
compiled code does; an address is used through `toNat`.

The lemmas are the few word facts the page tables and the bitmap rest on: what
a one-bit mask reads back, and what the frame number and the low flag bits of
a page-table entry are once they have been put together with `|`.
-/

namespace PepinOS

abbrev U8 := BitVec 8
abbrev U16 := BitVec 16
abbrev U32 := BitVec 32

/-- A decimal digit. -/
def IsDigit (c : U8) : Prop := 48 ≤ c.toNat ∧ c.toNat ≤ 57

instance (c : U8) : Decidable (IsDigit c) := inferInstanceAs (Decidable (_ ∧ _))

/-- `(w >> k) & 1`, the way the sources test bit `k`. -/
def bitAt (w : U32) (k : Nat) : Bool := (w >>> k) &&& 1#32 == 1#32

theorem shiftRight_and_one (w : U32) (k : Nat) :
    (w >>> k) &&& 1#32 = if w.getLsbD k then 1#32 else 0#32 := by
  apply BitVec.eq_of_getLsbD_eq
  intro i hi
  simp only [BitVec.getLsbD_and, BitVec.getLsbD_ushiftRight, BitVec.getLsbD_one]
  by_cases h0 : i = 0
  · subst h0
    cases w.getLsbD k <;> simp
  · split <;> simp [h0]

theorem bitAt_eq_getLsbD (w : U32) (k : Nat) : bitAt w k = w.getLsbD k := by
  unfold bitAt
  rw [shiftRight_and_one]
  cases w.getLsbD k <;> rfl

/-- The mask `1u << k` has exactly bit `k` set. -/
theorem getLsbD_mask {k : Nat} (hk : k < 32) (j : Nat) :
    (1#32 <<< k).getLsbD j = decide (j = k) := by
  rw [← BitVec.twoPow_eq, BitVec.getLsbD_twoPow]
  by_cases h : j = k
  · subst h; simp [hk]
  · have h' : ¬k = j := fun e => h e.symm
    simp [h, h']

theorem getLsbD_ones {k : Nat} (hk : k < 32) : (0xFFFFFFFF#32).getLsbD k = true := by
  rw [show (0xFFFFFFFF#32 : U32) = BitVec.allOnes 32 from rfl, BitVec.getLsbD_allOnes]
  simp [hk]

/-- Setting bit `k` with `|= 1u << k`. -/
theorem getLsbD_or_mask (w : U32) {k : Nat} (hk : k < 32) (j : Nat) :
    (w ||| (1#32 <<< k)).getLsbD j = (w.getLsbD j || decide (j = k)) := by
  rw [BitVec.getLsbD_or, getLsbD_mask hk]

/-- Clearing bit `k` with `&= ~(1u << k)`. -/
theorem getLsbD_and_not_mask (w : U32) {k : Nat} (hk : k < 32) (j : Nat) :
    (w &&& ~~~(1#32 <<< k)).getLsbD j = (w.getLsbD j && !decide (j = k)) := by
  rw [BitVec.getLsbD_and, BitVec.getLsbD_not, getLsbD_mask hk]
  by_cases hj : j < 32
  · simp [hj]
  · simp [BitVec.getLsbD_of_ge w j (by omega)]

/-! ## Addresses and page-table entries -/

theorem toNat_ushiftRight (x : U32) (n : Nat) : (x >>> n).toNat = x.toNat / 2 ^ n := by
  rw [BitVec.toNat_ushiftRight, Nat.shiftRight_eq_div_pow]

theorem toNat_and_lowMask (x : U32) {k : Nat} (hk : k ≤ 32) :
    (x &&& BitVec.ofNat 32 (2 ^ k - 1)).toNat = x.toNat % 2 ^ k := by
  have hpow : 2 ^ k ≤ 2 ^ 32 := Nat.pow_le_pow_right (by omega) hk
  have hpos : 0 < 2 ^ k := Nat.two_pow_pos k
  rw [BitVec.toNat_and, BitVec.toNat_ofNat, Nat.mod_eq_of_lt (by omega),
    Nat.and_two_pow_sub_one_eq_mod]

/-- `x & 0xFFF`: the offset inside a page. -/
theorem toNat_and_fff (x : U32) : (x &&& 0xFFF#32).toNat = x.toNat % 4096 :=
  toNat_and_lowMask x (k := 12) (by omega)

/-- `x & 0x3FF`: an index inside a page table. -/
theorem toNat_and_3ff (x : U32) : (x &&& 0x3FF#32).toNat = x.toNat % 1024 :=
  toNat_and_lowMask x (k := 10) (by omega)

/-- `x & ~0xFFF`: the page address. -/
theorem toNat_and_not_fff (x : U32) :
    (x &&& ~~~0xFFF#32).toNat = x.toNat / 4096 * 4096 := by
  have hsplit : x &&& ~~~0xFFF#32 = x - (x &&& 0xFFF#32) := by
    have hor : x = (x &&& ~~~0xFFF#32) + (x &&& 0xFFF#32) := by
      rw [BitVec.add_eq_or_of_and_eq_zero]
      · apply BitVec.eq_of_getLsbD_eq
        intro i hi
        simp only [BitVec.getLsbD_or, BitVec.getLsbD_and, BitVec.getLsbD_not]
        cases x.getLsbD i <;> simp [hi]
      · apply BitVec.eq_of_getLsbD_eq
        intro i hi
        simp only [BitVec.getLsbD_and, BitVec.getLsbD_not, BitVec.getLsbD_zero]
        cases x.getLsbD i <;> simp
    exact BitVec.eq_sub_iff_add_eq.mpr hor.symm
  have hle : (x &&& 0xFFF#32).toNat ≤ x.toNat := by rw [toNat_and_fff]; exact Nat.mod_le _ _
  rw [hsplit, BitVec.toNat_sub_of_le hle, toNat_and_fff]
  omega

/-- A page address with flags in its low bits. -/
theorem toNat_or_flags {p fl : U32} {f : Nat} (hp : p.toNat = f * 4096) (hfl : fl.toNat < 4096) :
    (p ||| fl).toNat = f * 4096 + fl.toNat := by
  rw [BitVec.toNat_or, hp, Nat.mul_comm]
  exact (Nat.two_pow_add_eq_or_of_lt (i := 12) hfl f).symm

end PepinOS
