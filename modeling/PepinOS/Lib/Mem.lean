import Mathlib.Logic.Function.Basic
import PepinOS.Lib.Types
import PepinOS.Lib.Loop

/-!
# Byte memory

Memory is a function from addresses to bytes. A 32-bit word is four of them,
low byte first. The file gives the read-over-write facts, and the closed form of
the two loops the kernel writes memory with: a run of bytes and a run of words,
where the value stored may itself be read from memory outside the run.
-/

namespace PepinOS

abbrev Mem := Nat → U8

/-- Byte `k` of a word. -/
def byteOf (w : U32) (k : Nat) : U8 := w.extractLsb' (8 * k) 8

def load16 (m : Mem) (a : Nat) : U16 := m (a + 1) ++ m a

def load32 (m : Mem) (a : Nat) : U32 := (m (a + 3) ++ m (a + 2)) ++ (m (a + 1) ++ m a)

def store8 (m : Mem) (a : Nat) (b : U8) : Mem := Function.update m a b

def store32 (m : Mem) (a : Nat) (w : U32) : Mem :=
  fun x => if a ≤ x ∧ x < a + 4 then byteOf w (x - a) else m x

theorem load32_congr {m m' : Mem} {a : Nat} (h : ∀ k, k < 4 → m (a + k) = m' (a + k)) :
    load32 m a = load32 m' a := by
  unfold load32
  rw [h 3 (by decide), h 2 (by decide), h 1 (by decide), show m a = m' a from h 0 (by decide)]

theorem bytes_eq_word (w : U32) :
    ((byteOf w 3 ++ byteOf w 2) ++ (byteOf w 1 ++ byteOf w 0) : U32) = w := by
  apply BitVec.eq_of_getLsbD_eq
  intro i hi
  simp only [byteOf, BitVec.getLsbD_append, BitVec.getLsbD_extractLsb']
  by_cases h8 : i < 8
  · simp [h8, show i < 16 by omega]
  · by_cases h16 : i < 16
    · simp [h8, h16, show i - 8 < 8 by omega, show 8 + (i - 8) = i by omega]
    · by_cases h24 : i < 24
      · simp [h16, show i - 16 < 8 by omega, show 16 + (i - 16) = i by omega]
      · simp [h16, show ¬i - 16 < 8 by omega, show i - 16 - 8 < 8 by omega,
          show 24 + (i - 16 - 8) = i by omega]

/-- A word of which all four bytes are known. -/
theorem load32_eq_of_bytes {m : Mem} {a : Nat} {w : U32}
    (h : ∀ k, k < 4 → m (a + k) = byteOf w k) : load32 m a = w := by
  unfold load32
  rw [h 3 (by decide), h 2 (by decide), h 1 (by decide), show m a = byteOf w 0 from h 0 (by decide)]
  exact bytes_eq_word w

@[simp] theorem load32_store32 (m : Mem) (a : Nat) (w : U32) :
    load32 (store32 m a w) a = w := by
  apply load32_eq_of_bytes
  intro k hk
  unfold store32
  rw [if_pos ⟨by omega, by omega⟩, show a + k - a = k by omega]

theorem store32_other {m : Mem} {a x : Nat} (w : U32) (h : x < a ∨ a + 4 ≤ x) :
    store32 m a w x = m x := by
  unfold store32
  rw [if_neg (by omega)]

theorem load32_store32_ne {m : Mem} {a b : Nat} (w : U32) (h : b + 4 ≤ a ∨ a + 4 ≤ b) :
    load32 (store32 m a w) b = load32 m b := by
  apply load32_congr
  intro k hk
  exact store32_other w (by omega)

@[simp] theorem byteOf_zero (k : Nat) : byteOf 0#32 k = 0#8 := by
  unfold byteOf
  apply BitVec.eq_of_getLsbD_eq
  intro i hi
  simp

theorem load32_zero {m : Mem} {a : Nat} (h : ∀ k, k < 4 → m (a + k) = 0#8) :
    load32 m a = 0#32 :=
  load32_eq_of_bytes (fun k hk => by rw [byteOf_zero]; exact h k hk)

/-! ## Runs of stores -/

/-- `x` lies in the `n` bytes from `p` on. -/
def InRun (p n x : Nat) : Prop := p ≤ x ∧ x < p + n

instance (p n x : Nat) : Decidable (InRun p n x) := inferInstanceAs (Decidable (_ ∧ _))

/-- Memory with the run from `p` on replaced. -/
def patch (m : Mem) (p n : Nat) (v : Nat → U8) : Mem :=
  fun x => if InRun p n x then v (x - p) else m x

theorem patch_in {m : Mem} {p n x : Nat} {v : Nat → U8} (h : InRun p n x) :
    patch m p n v x = v (x - p) := if_pos h

theorem patch_out {m : Mem} {p n x : Nat} {v : Nat → U8} (h : ¬InRun p n x) :
    patch m p n v x = m x := if_neg h

theorem patch_at {m : Mem} {p n : Nat} {v : Nat → U8} {k : Nat} (hk : k < n) :
    patch m p n v (p + k) = v k := by
  rw [patch_in ⟨by omega, by omega⟩, Nat.add_sub_cancel_left]

/-- Storing a run byte by byte, where the value stored at offset `j` does not
depend on the bytes of the run. -/
theorem forRange_store8 {p n : Nat} {v : Nat → Mem → U8} (m : Mem)
    (hv : ∀ j m', (∀ x, ¬InRun p n x → m' x = m x) → v j m' = v j m) :
    forRange 0 n (fun j m => store8 m (p + j) (v j m)) m = patch m p n (fun j => v j m) := by
  have key : ∀ x, forRange 0 n (fun j m => store8 m (p + j) (v j m)) m x =
      if InRun p n x then v (x - p) m else m x := by
    refine forRange_inv (fun i (q : Mem) => ∀ x, q x = if InRun p i x then v (x - p) m else m x)
      (Nat.zero_le n) (fun x => (if_neg (by unfold InRun; omega)).symm) ?_
    intro i q _ hin hq x
    have hval : v i q = v i m := by
      apply hv
      intro y hy
      rw [hq y, if_neg (by unfold InRun at hy ⊢; omega)]
    unfold store8
    by_cases hx : x = p + i
    · subst hx
      rw [Function.update_self, if_pos ⟨by omega, by omega⟩, Nat.add_sub_cancel_left, hval]
    · rw [Function.update_of_ne hx, hq x]
      by_cases hr : InRun p i x
      · rw [if_pos hr, if_pos ⟨hr.1, by have := hr.2; omega⟩]
      · rw [if_neg hr, if_neg (by unfold InRun at hr ⊢; omega)]
  funext x
  exact key x

/-! ## Tables of words -/

/-- Entry `i` of the table at `p`. -/
def word (m : Mem) (p i : Nat) : U32 := load32 m (p + 4 * i)

def setWord (m : Mem) (p i : Nat) (w : U32) : Mem := store32 m (p + 4 * i) w

@[simp] theorem word_setWord_self (m : Mem) (p i : Nat) (w : U32) :
    word (setWord m p i w) p i = w := load32_store32 m _ w

theorem word_setWord_ne {m : Mem} {p i j : Nat} (w : U32) (h : j ≠ i) :
    word (setWord m p i w) p j = word m p j :=
  load32_store32_ne w (by omega)

theorem setWord_other {m : Mem} {p i n x : Nat} (w : U32) (hi : i < n)
    (hx : ¬InRun p (4 * n) x) : setWord m p i w x = m x :=
  store32_other w (by unfold InRun at hx; omega)

/-- A table reads the same in two memories that agree on it. -/
theorem word_congr {m m' : Mem} {p i n : Nat} (hi : i < n)
    (h : ∀ x, InRun p (4 * n) x → m' x = m x) : word m' p i = word m p i :=
  load32_congr (fun k hk => h _ ⟨by omega, by omega⟩)

/-- Storing entries `lo .. hi-1` of a table of `n` entries, where the values do
not depend on the table. -/
theorem forRange_setWord {p lo hi n : Nat} {v : Nat → Mem → U32} (m : Mem) (hn : hi ≤ n)
    (hv : ∀ j m', j < hi → (∀ x, ¬InRun p (4 * n) x → m' x = m x) → v j m' = v j m) :
    (∀ x, ¬InRun p (4 * n) x →
      forRange lo hi (fun j m => setWord m p j (v j m)) m x = m x) ∧
    ∀ i, word (forRange lo hi (fun j m => setWord m p j (v j m)) m) p i =
      if lo ≤ i ∧ i < hi then v i m else word m p i := by
  rcases Nat.le_total lo hi with hle | hle
  · refine forRange_inv (fun k (q : Mem) => (∀ x, ¬InRun p (4 * n) x → q x = m x) ∧
      ∀ i, word q p i = if lo ≤ i ∧ i < k then v i m else word m p i) hle
      ⟨fun _ _ => rfl, fun i => (if_neg (by omega)).symm⟩ ?_
    rintro k q hlk hkh ⟨hq1, hq2⟩
    refine ⟨fun x hx => ?_, fun i => ?_⟩
    · rw [setWord_other _ (show k < n by omega) hx]
      exact hq1 x hx
    · by_cases hik : i = k
      · subst hik
        rw [word_setWord_self, if_pos ⟨hlk, by omega⟩]
        exact hv i q hkh hq1
      · rw [word_setWord_ne _ hik, hq2 i]
        by_cases hr : lo ≤ i ∧ i < k
        · rw [if_pos hr, if_pos ⟨hr.1, by omega⟩]
        · rw [if_neg hr, if_neg (by omega)]
  · unfold forRange
    rw [Nat.sub_eq_zero_of_le hle]
    exact ⟨fun _ _ => rfl, fun i => (if_neg (by omega)).symm⟩

/-- Storing `n` entries of a table from entry `o` on. -/
theorem forRange_setWord_from (p o n : Nat) (v : Nat → U32) (m : Mem) :
    (∀ x, ¬InRun (p + 4 * o) (4 * n) x →
      forRange 0 n (fun j m => setWord m p (o + j) (v j)) m x = m x) ∧
    ∀ i, word (forRange 0 n (fun j m => setWord m p (o + j) (v j)) m) p i =
      if o ≤ i ∧ i < o + n then v (i - o) else word m p i := by
  have hshift : (fun j m => setWord m p (o + j) (v j)) =
      fun j m => setWord m (p + 4 * o) j (v j) := by
    funext j m
    unfold setWord
    rw [Nat.mul_add, Nat.add_assoc]
  obtain ⟨hout, hin⟩ := @forRange_setWord (p + 4 * o) 0 n n (fun j _ => v j) m (Nat.le_refl n)
    (fun _ _ _ _ => rfl)
  rw [hshift]
  refine ⟨hout, fun i => ?_⟩
  by_cases hi : o ≤ i ∧ i < o + n
  · have hword := hin (i - o)
    rw [if_pos ⟨Nat.zero_le _, by omega⟩] at hword
    rw [if_pos hi, ← hword]
    unfold word
    rw [show p + 4 * o + 4 * (i - o) = p + 4 * i by omega]
  · rw [if_neg hi]
    exact load32_congr fun k hk => hout _ (by unfold InRun; omega)

theorem word_patch_zero {m : Mem} {p i n : Nat} (hi : 4 * i + 4 ≤ n) :
    word (patch m p n (fun _ => 0#8)) p i = 0#32 :=
  load32_zero (fun k hk => patch_in ⟨by omega, by omega⟩)

end PepinOS
