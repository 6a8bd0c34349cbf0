import Mathlib.Order.Interval.Finset.Nat
import Mathlib.Logic.Function.Basic
import PepinOS.Lib.Types
import PepinOS.Lib.Loop

/-!
# The physical page allocator

`mm/pmm.c` keeps one bit per 4 KB page in a packed bitmap (1 = in use) and a
separate count of the free pages. This file is the allocator as written, the
invariant that ties the two together, and the view every other module uses: an
allocator state is the finite set of its free pages.

`pmmAllocPage_spec` and `pmmFreePage_spec` are that view. An allocation takes
the smallest free page, or fails when there is none; a free puts the page back
unless it lies past the end of memory. Everything else in the development
reasons about `freeSet` and never opens the bitmap again.
-/

namespace PepinOS

def pmmPageSize : Nat := 4096
def pmmMaxPages : Nat := 8192
def pmmReserved : Nat := 0x400000

/-- The static variables of `pmm.c`. Only the words below
`PMM_MAX_PAGES / 32` of the bitmap exist. -/
structure Pmm where
  bitmap : Nat → U32
  totalPages : U32
  freePages : U32

def pmmSetUsed (p : Pmm) (idx : Nat) : Pmm :=
  { p with
    bitmap := Function.update p.bitmap (idx / 32)
      (p.bitmap (idx / 32) ||| (1#32 <<< (idx % 32))) }

def pmmSetFree (p : Pmm) (idx : Nat) : Pmm :=
  { p with
    bitmap := Function.update p.bitmap (idx / 32)
      (p.bitmap (idx / 32) &&& ~~~(1#32 <<< (idx % 32))) }

def pmmIsUsed (p : Pmm) (idx : Nat) : Bool := bitAt (p.bitmap (idx / 32)) (idx % 32)

/-- `pmm_total_pages` as `pmm_init` computes it, capped at the bitmap. -/
def pmmTotal (memSize : U32) : U32 :=
  if memSize / 4096#32 > 8192#32 then 8192#32 else memSize / 4096#32

/-- The first loop of `pmm_init`: every page marked in use. -/
def pmmFill (p : Pmm) : Pmm :=
  forRange 0 (pmmMaxPages / 32)
    (fun i p => { p with bitmap := Function.update p.bitmap i 0xFFFFFFFF#32 }) p

/-- One turn of the second loop of `pmm_init`. -/
def pmmRelease (i : Nat) (p : Pmm) : Pmm :=
  { pmmSetFree p i with freePages := p.freePages + 1#32 }

/-- `pmm_init`: everything in use, then the pages from `PMM_RESERVED` up to the
end of memory released one by one. -/
def pmmInit (p : Pmm) (memSize : U32) : Pmm :=
  forRange (pmmReserved / pmmPageSize) (pmmTotal memSize).toNat pmmRelease
    (pmmFill { p with totalPages := pmmTotal memSize, freePages := 0#32 })

/-- The scan of `pmm_alloc_page`, `n` pages from page `i` on. -/
def pmmAllocFrom (p : Pmm) : Nat → Nat → U32 × Pmm
  | 0, _ => (0#32, p)
  | n + 1, i =>
    if !pmmIsUsed p i then
      (BitVec.ofNat 32 (i * pmmPageSize),
        { pmmSetUsed p i with freePages := p.freePages - 1#32 })
    else pmmAllocFrom p n (i + 1)

def pmmAllocPage (p : Pmm) : U32 × Pmm := pmmAllocFrom p p.totalPages.toNat 0

def pmmFreePage (p : Pmm) (addr : U32) : Pmm :=
  let idx := addr / 4096#32
  if idx < p.totalPages && pmmIsUsed p idx.toNat then
    pmmRelease idx.toNat p
  else p

def pmmFreeCount (p : Pmm) : U32 := p.freePages

/-! ## Bits -/

private theorem same_bit {i j : Nat} : (i / 32 = j / 32 ∧ i % 32 = j % 32) ↔ i = j := by
  constructor
  · rintro ⟨hd, hm⟩; omega
  · rintro rfl; exact ⟨rfl, rfl⟩

theorem pmmIsUsed_setUsed (p : Pmm) (i j : Nat) :
    pmmIsUsed (pmmSetUsed p i) j = (pmmIsUsed p j || decide (j = i)) := by
  unfold pmmIsUsed pmmSetUsed
  simp only [bitAt_eq_getLsbD]
  by_cases hw : j / 32 = i / 32
  · rw [hw, Function.update_self, getLsbD_or_mask _ (Nat.mod_lt i (by decide))]
    have hji : (j % 32 = i % 32) ↔ j = i := ⟨fun hm => same_bit.mp ⟨hw, hm⟩, fun e => by rw [e]⟩
    simp [hji]
  · rw [Function.update_of_ne hw]
    have hne : ¬j = i := fun e => hw (by rw [e])
    simp [hne]

theorem pmmIsUsed_setFree (p : Pmm) (i j : Nat) :
    pmmIsUsed (pmmSetFree p i) j = (pmmIsUsed p j && !decide (j = i)) := by
  unfold pmmIsUsed pmmSetFree
  simp only [bitAt_eq_getLsbD]
  by_cases hw : j / 32 = i / 32
  · rw [hw, Function.update_self, getLsbD_and_not_mask _ (Nat.mod_lt i (by decide))]
    have hji : (j % 32 = i % 32) ↔ j = i := ⟨fun hm => same_bit.mp ⟨hw, hm⟩, fun e => by rw [e]⟩
    simp [hji]
  · rw [Function.update_of_ne hw]
    have hne : ¬j = i := fun e => hw (by rw [e])
    simp [hne]

@[simp] theorem pmmIsUsed_withFree (p : Pmm) (n : U32) (j : Nat) :
    pmmIsUsed { p with freePages := n } j = pmmIsUsed p j := rfl

/-! ## The allocator as a set of free pages -/

/-- The pages the bitmap marks free, out of those that exist. -/
def freeSet (p : Pmm) : Finset Nat :=
  (Finset.range p.totalPages.toNat).filter (fun i => pmmIsUsed p i = false)

theorem mem_freeSet {p : Pmm} {i : Nat} :
    i ∈ freeSet p ↔ i < p.totalPages.toNat ∧ pmmIsUsed p i = false := by
  unfold freeSet
  rw [Finset.mem_filter, Finset.mem_range]

/-- What the static variables satisfy from `pmm_init` on: no page beyond the
bitmap, every page past the end of memory marked in use, and the counter equal
to the number of clear bits. -/
structure PmmInv (p : Pmm) : Prop where
  total_le : p.totalPages.toNat ≤ pmmMaxPages
  past_used : ∀ i, p.totalPages.toNat ≤ i → i < pmmMaxPages → pmmIsUsed p i = true
  count : p.freePages.toNat = (freeSet p).card

theorem freeSet_card_le (p : Pmm) : (freeSet p).card ≤ p.totalPages.toNat := by
  have h := Finset.card_filter_le (Finset.range p.totalPages.toNat)
    (fun i => pmmIsUsed p i = false)
  rw [Finset.card_range] at h
  exact h

theorem PmmInv.lt_maxPages {p : Pmm} (h : PmmInv p) {i : Nat} (hi : i ∈ freeSet p) :
    i < pmmMaxPages := by
  have h1 := (mem_freeSet.mp hi).1
  have h2 := h.total_le
  omega

/-- Marking a free page used takes it out of the set. -/
theorem freeSet_setUsed (p : Pmm) (i : Nat) :
    freeSet (pmmSetUsed p i) = (freeSet p).erase i := by
  ext j
  rw [Finset.mem_erase, mem_freeSet, mem_freeSet, pmmIsUsed_setUsed]
  show (j < p.totalPages.toNat ∧ _) ↔ _
  by_cases hji : j = i
  · simp [hji]
  · simp [hji]

/-- Clearing the bit of an existing page puts it in. -/
theorem freeSet_setFree (p : Pmm) {i : Nat} (hi : i < p.totalPages.toNat) :
    freeSet (pmmSetFree p i) = insert i (freeSet p) := by
  ext j
  rw [Finset.mem_insert, mem_freeSet, mem_freeSet, pmmIsUsed_setFree]
  show (j < p.totalPages.toNat ∧ _) ↔ _
  by_cases hji : j = i
  · simp [hji, hi]
  · simp [hji]

@[simp] theorem freeSet_withFree (p : Pmm) (n : U32) :
    freeSet { p with freePages := n } = freeSet p := rfl

/-! ## Allocation -/

/-- The scan stops at the first clear bit of its range, or finds none. -/
theorem pmmAllocFrom_cases (p : Pmm) : ∀ (n i : Nat),
    (pmmAllocFrom p n i = (0#32, p) ∧ ∀ j, i ≤ j → j < i + n → pmmIsUsed p j = true) ∨
    ∃ k, i ≤ k ∧ k < i + n ∧ pmmIsUsed p k = false ∧
      (∀ j, i ≤ j → j < k → pmmIsUsed p j = true) ∧
      pmmAllocFrom p n i = (BitVec.ofNat 32 (k * pmmPageSize),
        { pmmSetUsed p k with freePages := p.freePages - 1#32 }) := by
  intro n
  induction n with
  | zero => intro i; exact Or.inl ⟨rfl, fun j hj hj' => absurd hj (by omega)⟩
  | succ n ih =>
    intro i
    unfold pmmAllocFrom
    cases hu : pmmIsUsed p i with
    | false =>
      exact Or.inr ⟨i, Nat.le_refl i, by omega, hu, fun j hj hj' => absurd hj (by omega), rfl⟩
    | true =>
      simp only [Bool.not_true, Bool.false_eq_true, if_false]
      have hi : ∀ j, i ≤ j → ¬i + 1 ≤ j → pmmIsUsed p j = true := by
        intro j hj hj'
        rw [show j = i by omega]
        exact hu
      rcases ih (i + 1) with ⟨heq, hall⟩ | ⟨k, hk1, hk2, hk3, hk4, heq⟩
      · refine Or.inl ⟨heq, fun j hj hj' => ?_⟩
        by_cases h : i + 1 ≤ j
        · exact hall j h (by omega)
        · exact hi j hj h
      · refine Or.inr ⟨k, by omega, by omega, hk3, fun j hj hj' => ?_, heq⟩
        by_cases h : i + 1 ≤ j
        · exact hk4 j h hj'
        · exact hi j hj h

/-- The address of an existing page is a real 32-bit number. -/
theorem pageAddr_toNat {k : Nat} (hk : k < pmmMaxPages) :
    (BitVec.ofNat 32 (k * pmmPageSize)).toNat = k * pmmPageSize := by
  unfold pmmMaxPages at hk
  unfold pmmPageSize
  rw [BitVec.toNat_ofNat]
  omega

/-- What one allocation does, said about the set of free pages: it fails on the
empty set and changes nothing, or it takes the smallest page. -/
theorem pmmAllocPage_cases {p : Pmm} (hp : PmmInv p) :
    (freeSet p = ∅ ∧ pmmAllocPage p = (0#32, p)) ∨
    ∃ k ∈ freeSet p, (∀ j ∈ freeSet p, k ≤ j) ∧
      (pmmAllocPage p).1.toNat = k * pmmPageSize ∧
      freeSet (pmmAllocPage p).2 = (freeSet p).erase k ∧
      (pmmAllocPage p).2.totalPages = p.totalPages ∧
      PmmInv (pmmAllocPage p).2 := by
  unfold pmmAllocPage
  rcases pmmAllocFrom_cases p p.totalPages.toNat 0 with ⟨heq, hall⟩ | ⟨k, _, hk2, hk3, hk4, heq⟩
  · refine Or.inl ⟨Finset.eq_empty_of_forall_notMem fun j hj => ?_, heq⟩
    obtain ⟨hjt, hju⟩ := mem_freeSet.mp hj
    rw [hall j (Nat.zero_le j) (by omega)] at hju
    exact absurd hju (by simp)
  · have hkt : k < p.totalPages.toNat := by omega
    have hkf : k ∈ freeSet p := mem_freeSet.mpr ⟨hkt, hk3⟩
    have hfree : freeSet (pmmAllocFrom p p.totalPages.toNat 0).2 = (freeSet p).erase k := by
      rw [heq, freeSet_withFree, freeSet_setUsed]
    refine Or.inr ⟨k, hkf, ?_, ?_, hfree, by rw [heq]; rfl, ?_⟩
    · intro j hj
      obtain ⟨hjt, hju⟩ := mem_freeSet.mp hj
      by_contra hlt
      rw [hk4 j (Nat.zero_le j) (by omega)] at hju
      exact absurd hju (by simp)
    · rw [heq]
      exact pageAddr_toNat (hp.lt_maxPages hkf)
    · constructor
      · rw [heq]; exact hp.total_le
      · intro j hj hj'
        rw [heq] at hj ⊢
        rw [pmmIsUsed_withFree, pmmIsUsed_setUsed, hp.past_used j hj hj', Bool.true_or]
      · -- the counter loses one exactly when the set loses `k`
        have hpos : 0 < (freeSet p).card := Finset.card_pos.mpr ⟨k, hkf⟩
        rw [hfree, Finset.card_erase_of_mem hkf, ← hp.count, heq]
        have h := hp.count
        show (p.freePages - 1#32).toNat = _
        bv_omega

/-! ## Release -/

/-- Releasing a page in use that exists keeps the invariant: the counter gains
one exactly when the set gains the page. -/
theorem pmmRelease_spec {p : Pmm} (hp : PmmInv p) {i : Nat} (ht : i < p.totalPages.toNat)
    (hu : pmmIsUsed p i = true) :
    freeSet (pmmRelease i p) = insert i (freeSet p) ∧
    (pmmRelease i p).totalPages = p.totalPages ∧ PmmInv (pmmRelease i p) := by
  have hnot : i ∉ freeSet p := by
    intro hm
    rw [(mem_freeSet.mp hm).2] at hu
    exact absurd hu (by simp)
  have hfree : freeSet (pmmRelease i p) = insert i (freeSet p) := freeSet_setFree p ht
  have hcard : (freeSet (pmmRelease i p)).card = (freeSet p).card + 1 := by
    rw [hfree, Finset.card_insert_of_notMem hnot]
  refine ⟨hfree, rfl, hp.total_le, fun j hj hj' => ?_, ?_⟩
  · have hj2 : p.totalPages.toNat ≤ j := hj
    show pmmIsUsed (pmmSetFree p i) j = true
    rw [pmmIsUsed_setFree, hp.past_used j hj hj']
    simp only [Bool.true_and, Bool.not_eq_true', decide_eq_false_iff_not]
    omega
  · have hle : (freeSet (pmmRelease i p)).card ≤ p.totalPages.toNat :=
      freeSet_card_le (pmmRelease i p)
    have hmax : p.totalPages.toNat ≤ 8192 := hp.total_le
    have hcount := hp.count
    show (p.freePages + 1#32).toNat = _
    bv_omega

/-- What one free does: a page in use that exists becomes free, anything else
(a double free, an address past the end of memory) is ignored. -/
theorem pmmFreePage_spec {p : Pmm} (hp : PmmInv p) (addr : U32) :
    freeSet (pmmFreePage p addr) =
      (if addr.toNat / pmmPageSize < p.totalPages.toNat
        then insert (addr.toNat / pmmPageSize) (freeSet p) else freeSet p) ∧
    (pmmFreePage p addr).totalPages = p.totalPages ∧ PmmInv (pmmFreePage p addr) := by
  have hidx : (addr / 4096#32).toNat = addr.toNat / pmmPageSize := by
    rw [BitVec.toNat_udiv]; rfl
  unfold pmmFreePage
  simp only [BitVec.lt_def, hidx]
  by_cases ht : addr.toNat / pmmPageSize < p.totalPages.toNat
  · cases hu : pmmIsUsed p (addr.toNat / pmmPageSize) with
    | true =>
      simp only [ht, decide_true, Bool.and_self, if_true]
      exact pmmRelease_spec hp ht hu
    | false =>
      have hmem : addr.toNat / pmmPageSize ∈ freeSet p := mem_freeSet.mpr ⟨ht, hu⟩
      simp only [ht, decide_true, Bool.and_false, Bool.false_eq_true, if_false, if_true]
      exact ⟨(Finset.insert_eq_of_mem hmem).symm, trivial, hp⟩
  · simp only [ht, decide_false, Bool.false_and, Bool.false_eq_true, if_false]
    exact ⟨trivial, trivial, hp⟩

/-! ## Initialisation -/

theorem pmmTotal_toNat (memSize : U32) :
    (pmmTotal memSize).toNat = min (memSize.toNat / pmmPageSize) pmmMaxPages := by
  have hd : (memSize / 4096#32).toNat = memSize.toNat / 4096 := by rw [BitVec.toNat_udiv]; rfl
  have h8 : (8192#32 : U32).toNat = 8192 := rfl
  unfold pmmTotal pmmPageSize pmmMaxPages
  split
  next h =>
    have h' : (8192#32 : U32).toNat < (memSize / 4096#32).toNat := h
    omega
  next h =>
    have h' : ¬(8192#32 : U32).toNat < (memSize / 4096#32).toNat := h
    omega

/-- The 32 MB of `kmain`. -/
theorem pmmTotal_32MB : (pmmTotal 0x2000000#32).toNat = 8192 := by
  rw [pmmTotal_toNat, BitVec.toNat_ofNat]
  rfl

theorem pmmFill_spec (p : Pmm) :
    (pmmFill p).totalPages = p.totalPages ∧ (pmmFill p).freePages = p.freePages ∧
    ∀ i, i < pmmMaxPages → pmmIsUsed (pmmFill p) i = true := by
  have hfill : (pmmFill p).totalPages = p.totalPages ∧ (pmmFill p).freePages = p.freePages ∧
      ∀ w, w < pmmMaxPages / 32 → (pmmFill p).bitmap w = 0xFFFFFFFF#32 := by
    unfold pmmFill
    refine forRange_inv (fun i (q : Pmm) => q.totalPages = p.totalPages ∧ q.freePages = p.freePages ∧
      ∀ w, w < i → q.bitmap w = 0xFFFFFFFF#32) (Nat.zero_le _) ⟨rfl, rfl, ?_⟩ ?_
    · intro w hw; exact absurd hw (by omega)
    · rintro i q - - ⟨h1, h2, h3⟩
      refine ⟨h1, h2, fun w hw => ?_⟩
      by_cases hwi : w = i
      · subst hwi; exact Function.update_self ..
      · show Function.update q.bitmap i 0xFFFFFFFF#32 w = _
        rw [Function.update_of_ne hwi]
        exact h3 w (by omega)
  obtain ⟨h1, h2, h3⟩ := hfill
  refine ⟨h1, h2, fun i hi => ?_⟩
  unfold pmmMaxPages at hi
  unfold pmmIsUsed
  rw [h3 (i / 32) (by unfold pmmMaxPages; omega), bitAt_eq_getLsbD]
  exact getLsbD_ones (Nat.mod_lt i (by decide))

theorem pmmFill_freeSet {p : Pmm} (hp : p.totalPages.toNat ≤ pmmMaxPages) :
    freeSet (pmmFill p) = ∅ := by
  obtain ⟨ht, _, hu⟩ := pmmFill_spec p
  refine Finset.eq_empty_of_forall_notMem fun i hi => ?_
  obtain ⟨hi1, hi2⟩ := mem_freeSet.mp hi
  rw [ht] at hi1
  rw [hu i (by omega)] at hi2
  exact absurd hi2 (by simp)

/-- After `pmm_init` the free pages are those from `PMM_RESERVED` to the end of
memory, and the invariant holds. -/
theorem pmmInit_spec (p : Pmm) (memSize : U32) :
    PmmInv (pmmInit p memSize) ∧ (pmmInit p memSize).totalPages = pmmTotal memSize ∧
    freeSet (pmmInit p memSize) =
      Finset.Ico (pmmReserved / pmmPageSize) (pmmTotal memSize).toNat := by
  have htot : (pmmTotal memSize).toNat ≤ pmmMaxPages := by rw [pmmTotal_toNat]; omega
  unfold pmmInit
  have hempty := pmmFill_freeSet
    (p := { p with totalPages := pmmTotal memSize, freePages := 0#32 }) htot
  obtain ⟨ht1, hf1, hu1⟩ :=
    pmmFill_spec { p with totalPages := pmmTotal memSize, freePages := 0#32 }
  generalize pmmFill { p with totalPages := pmmTotal memSize, freePages := 0#32 } = p1
    at hempty ht1 hf1 hu1 ⊢
  have hinv1 : PmmInv p1 := by
    refine ⟨by rw [ht1]; exact htot, fun i _ hi => hu1 i hi, ?_⟩
    rw [hempty, hf1]
    rfl
  rcases Nat.le_total (pmmReserved / pmmPageSize) (pmmTotal memSize).toNat with hle | hle
  · refine forRange_inv (fun i (q : Pmm) => PmmInv q ∧ q.totalPages = pmmTotal memSize ∧
      freeSet q = Finset.Ico (pmmReserved / pmmPageSize) i) hle
      ⟨hinv1, ht1, by rw [hempty, Finset.Ico_self]⟩ ?_
    rintro i q hi hit ⟨hqi, hqt, hqf⟩
    have hu : pmmIsUsed q i = true := by
      by_contra hne
      have hm : i ∈ freeSet q := mem_freeSet.mpr ⟨by rw [hqt]; exact hit, by simpa using hne⟩
      rw [hqf, Finset.mem_Ico] at hm
      omega
    obtain ⟨h1, h2, h3⟩ := pmmRelease_spec hqi (by rw [hqt]; exact hit) hu
    refine ⟨h3, h2.trans hqt, ?_⟩
    rw [h1, hqf]
    ext j
    simp only [Finset.mem_insert, Finset.mem_Ico]
    omega
  · -- less memory than `PMM_RESERVED`: the loop does not turn
    unfold forRange
    rw [Nat.sub_eq_zero_of_le hle]
    exact ⟨hinv1, ht1, hempty.trans (Finset.Ico_eq_empty (by omega)).symm⟩

/-- The pages below `PMM_RESERVED` are never handed out. -/
def Reserved (p : Pmm) : Prop := ∀ k ∈ freeSet p, 1024 ≤ k

theorem pmmInit_reserved (p : Pmm) (memSize : U32) : Reserved (pmmInit p memSize) := by
  intro k hk
  rw [(pmmInit_spec p memSize).2.2, Finset.mem_Ico] at hk
  exact hk.1

/-! ## Runs of calls -/

/-- A call of the allocator's interface after `pmm_init`. -/
inductive PmmCall where
  | alloc
  | free (addr : U32)

def pmmCall (p : Pmm) : PmmCall → Pmm
  | .alloc => (pmmAllocPage p).2
  | .free addr => pmmFreePage p addr

/-- The state after a sequence of calls. -/
def pmmRun (p : Pmm) (calls : List PmmCall) : Pmm := calls.foldl pmmCall p

theorem pmmCall_inv {p : Pmm} (hp : PmmInv p) (c : PmmCall) :
    PmmInv (pmmCall p c) ∧ (pmmCall p c).totalPages = p.totalPages := by
  cases c with
  | alloc =>
    rcases pmmAllocPage_cases hp with ⟨_, heq⟩ | ⟨k, _, _, _, _, ht, hinv⟩
    · show PmmInv (pmmAllocPage p).2 ∧ (pmmAllocPage p).2.totalPages = p.totalPages
      rw [heq]
      exact ⟨hp, rfl⟩
    · exact ⟨hinv, ht⟩
  | free addr =>
    obtain ⟨_, ht, hinv⟩ := pmmFreePage_spec hp addr
    exact ⟨hinv, ht⟩

theorem pmmRun_inv {p : Pmm} (hp : PmmInv p) :
    ∀ calls, PmmInv (pmmRun p calls) ∧ (pmmRun p calls).totalPages = p.totalPages := by
  intro calls
  induction calls generalizing p with
  | nil => exact ⟨hp, rfl⟩
  | cons c cs ih =>
    obtain ⟨h1, h2⟩ := pmmCall_inv hp c
    obtain ⟨h3, h4⟩ := ih h1
    exact ⟨h3, h4.trans h2⟩

/-- A page that is not free stays so until some address inside it is freed. -/
theorem pmmRun_notFree {p : Pmm} (hp : PmmInv p) {k : Nat} :
    ∀ calls, k ∉ freeSet p → (∀ addr, .free addr ∈ calls → addr.toNat / pmmPageSize ≠ k) →
      k ∉ freeSet (pmmRun p calls) := by
  intro calls
  induction calls generalizing p with
  | nil => exact fun h _ => h
  | cons c cs ih =>
    intro hk hfree
    refine ih (pmmCall_inv hp c).1 ?_ (fun addr ha => hfree addr (List.mem_cons_of_mem _ ha))
    cases c with
    | alloc =>
      show k ∉ freeSet (pmmAllocPage p).2
      rcases pmmAllocPage_cases hp with ⟨_, heq⟩ | ⟨j, _, _, _, hset, _⟩
      · rw [heq]; exact hk
      · rw [hset]
        exact fun hm => hk (Finset.mem_of_mem_erase hm)
    | free addr =>
      show k ∉ freeSet (pmmFreePage p addr)
      have hne := hfree addr (List.mem_cons_self ..)
      rw [(pmmFreePage_spec hp addr).1]
      split
      · intro hm
        rcases Finset.mem_insert.mp hm with e | hm'
        · exact hne e.symm
        · exact hk hm'
      · exact hk

/-- `pmm_alloc_page` takes page `k` in state `p`. -/
def Takes (p : Pmm) (k : Nat) : Prop :=
  k ∈ freeSet p ∧ k ∉ freeSet (pmmAllocPage p).2

/-- A non-zero address is the address of the page the call took. -/
theorem takes_of_ne_zero {p : Pmm} (hp : PmmInv p) (h : (pmmAllocPage p).1 ≠ 0#32) :
    ∃ k, Takes p k ∧ (pmmAllocPage p).1.toNat = k * pmmPageSize := by
  rcases pmmAllocPage_cases hp with ⟨_, heq⟩ | ⟨k, hk, _, haddr, hset, _⟩
  · rw [heq] at h; exact absurd rfl h
  · refine ⟨k, ⟨hk, ?_⟩, haddr⟩
    rw [hset]
    exact Finset.notMem_erase k _

/-- **Accounting.** After `pmm_init` and any calls, in any order and with any
addresses: the counter is the number of clear bits below `pmm_total_pages`; no
bit past the end of memory is ever cleared; a returned address is page-aligned
and inside memory; and a page that was handed out is not handed out again until
an address inside it has been freed. The last part is stated both for the
addresses `pmm_alloc_page` returns and for the pages it marks. -/
theorem pmm_accounting (p0 : Pmm) (memSize : U32) (calls : List PmmCall) :
    let p := pmmRun (pmmInit p0 memSize) calls
    p.freePages.toNat =
        ((Finset.range p.totalPages.toNat).filter (fun i => pmmIsUsed p i = false)).card ∧
      (∀ i, p.totalPages.toNat ≤ i → i < pmmMaxPages → pmmIsUsed p i = true) ∧
      ((pmmAllocPage p).1 ≠ 0#32 →
        (pmmAllocPage p).1.toNat % pmmPageSize = 0 ∧
        (pmmAllocPage p).1.toNat < p.totalPages.toNat * pmmPageSize) ∧
      (∀ later : List PmmCall, (pmmAllocPage p).1 ≠ 0#32 →
        (∀ addr, .free addr ∈ later →
          addr.toNat / pmmPageSize ≠ (pmmAllocPage p).1.toNat / pmmPageSize) →
        (pmmAllocPage (pmmRun (pmmAllocPage p).2 later)).1 ≠ (pmmAllocPage p).1) ∧
      (∀ (later : List PmmCall) (k : Nat), Takes p k →
        (∀ addr, .free addr ∈ later → addr.toNat / pmmPageSize ≠ k) →
        ¬Takes (pmmRun (pmmAllocPage p).2 later) k) := by
  intro p
  have hp : PmmInv p := (pmmRun_inv (pmmInit_spec p0 memSize).1 calls).1
  have hp' : PmmInv (pmmAllocPage p).2 := (pmmCall_inv hp .alloc).1
  have hpages : ∀ (later : List PmmCall) (k : Nat), Takes p k →
      (∀ addr, .free addr ∈ later → addr.toNat / pmmPageSize ≠ k) →
      ¬Takes (pmmRun (pmmAllocPage p).2 later) k :=
    fun later k hk hfree hk' => pmmRun_notFree hp' later hk.2 hfree hk'.1
  refine ⟨hp.count, hp.past_used, ?_, ?_, hpages⟩
  · intro h
    obtain ⟨k, hk, haddr⟩ := takes_of_ne_zero hp h
    have hkt := (mem_freeSet.mp hk.1).1
    rw [haddr]
    exact ⟨Nat.mul_mod_left k pmmPageSize, Nat.mul_lt_mul_of_pos_right hkt (by decide)⟩
  · intro later h hfree heq
    obtain ⟨k, hk, haddr⟩ := takes_of_ne_zero hp h
    have hq := (pmmRun_inv hp' later).1
    obtain ⟨k', hk', haddr'⟩ := takes_of_ne_zero hq (by rw [heq]; exact h)
    have hkk : k' = k := by
      rw [heq, haddr] at haddr'
      exact (Nat.eq_of_mul_eq_mul_right (by decide) haddr').symm
    have hfree' : ∀ addr, .free addr ∈ later → addr.toNat / pmmPageSize ≠ k := by
      intro addr ha
      have hd : k * pmmPageSize / pmmPageSize = k := Nat.mul_div_cancel k (by decide)
      rw [← hd, ← haddr]
      exact hfree addr ha
    exact hpages later k hk hfree' (hkk ▸ hk')

/-- With memory above `PMM_RESERVED` the first allocation succeeds: it is the page there. -/
theorem pmmInit_alloc {memSize : U32} (p0 : Pmm)
    (hm : pmmReserved / pmmPageSize < (pmmTotal memSize).toNat) :
    (pmmAllocPage (pmmInit p0 memSize)).1 = 0x400000#32 := by
  obtain ⟨hinv, _, hfree⟩ := pmmInit_spec p0 memSize
  rcases pmmAllocPage_cases hinv with ⟨hemp, _⟩ | ⟨k, hk, hmin, haddr, _⟩
  · rw [hfree] at hemp
    exact absurd hemp (Finset.nonempty_Ico.mpr hm).ne_empty
  · rw [hfree] at hk hmin
    have hfirst := hmin _ (Finset.mem_Ico.mpr ⟨Nat.le_refl _, hm⟩)
    have hge := (Finset.mem_Ico.mp hk).1
    rw [← BitVec.toNat_inj, haddr, Nat.le_antisymm hfirst hge]
    rfl

/-- With 32 MB, two allocations in a row give two different pages. -/
theorem pmm_accounting_twice :
    (pmmAllocPage (pmmAllocPage (pmmInit ⟨fun _ => 0#32, 0#32, 0#32⟩ 0x2000000#32)).2).1 ≠
      (pmmAllocPage (pmmInit ⟨fun _ => 0#32, 0#32, 0#32⟩ 0x2000000#32)).1 := by
  have htwice : ∀ p0 memSize, (pmmAllocPage (pmmInit p0 memSize)).1 ≠ 0#32 →
      (pmmAllocPage (pmmAllocPage (pmmInit p0 memSize)).2).1 ≠
        (pmmAllocPage (pmmInit p0 memSize)).1 := by
    intro p0 memSize hne
    have hacc := pmm_accounting p0 memSize []
    rw [show pmmRun (pmmInit p0 memSize) [] = pmmInit p0 memSize from List.foldl_nil ..] at hacc
    have hnext := hacc.2.2.2.1 [] hne (fun addr ha => absurd ha List.not_mem_nil)
    rw [show ∀ q, pmmRun q [] = q from fun q => List.foldl_nil ..] at hnext
    exact hnext
  refine htwice _ _ ?_
  rw [pmmInit_alloc _ (by rw [pmmTotal_32MB]; unfold pmmReserved pmmPageSize; omega)]
  nofun

end PepinOS
