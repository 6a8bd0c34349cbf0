import PepinOS.Mm.Pmm
import PepinOS.Mm.Paging

/-!
# What the allocator promises, and what paging needs of it

`pmm.h` says the first 4 MB are always marked as in use, and `vmm.c` and `elf.c`
write to the pages they get through the identity map of `init_paging`. Neither
is checked where it could break. `pmm_free_page` takes any address, so one call
on a page of the kernel puts it up for allocation, page 0 first, whose address
is also the code for failure. And the bitmap covers 32 MB where the map stops at
16 MB: the allocator gives out the low pages first, so nothing shows until all of
them are taken.

`reserved_iff` and `allocs_reached_iff` say when each holds along a sequence of calls.
-/

namespace PepinOS

/-! ## Reserved memory -/

/-- What `pmm.h` promises: the pages below `PMM_RESERVED` are marked used, no allocation
returns one of them, and 0 comes back exactly when no page is left. -/
def ReservedKept (p : Pmm) : Prop :=
  (∀ k, k < pmmReserved / pmmPageSize → pmmIsUsed p k = true) ∧
  ((pmmAllocPage p).1 = 0#32 ∨ pmmReserved ≤ (pmmAllocPage p).1.toNat) ∧
  ((pmmAllocPage p).1 = 0#32 ↔ pmmFreeCount p = 0#32)

/-- The promise is one about the free set. -/
theorem Reserved.kept {p : Pmm} (hp : PmmInv p) (hr : Reserved p) : ReservedKept p := by
  have hused : ∀ k, k < pmmReserved / pmmPageSize → pmmIsUsed p k = true := by
    intro k hk
    unfold pmmReserved pmmPageSize at hk
    rcases Nat.lt_or_ge k p.totalPages.toNat with hlt | hge
    · by_contra hne
      have hm : k ∈ freeSet p := mem_freeSet.mpr ⟨hlt, by simpa using hne⟩
      have := hr k hm
      omega
    · exact hp.past_used k hge (by unfold pmmMaxPages; omega)
  have hcount : pmmFreeCount p = 0#32 ↔ freeSet p = ∅ := by
    rw [← Finset.card_eq_zero, ← hp.count, ← BitVec.toNat_inj]
    rfl
  refine ⟨hused, ?_, ?_⟩
  · rcases pmmAllocPage_cases hp with ⟨_, heq⟩ | ⟨k, hk, _, haddr, _⟩
    · rw [heq]
      exact Or.inl rfl
    · have := hr k hk
      unfold pmmPageSize at haddr
      unfold pmmReserved
      omega
  · rw [hcount]
    rcases pmmAllocPage_cases hp with ⟨hemp, heq⟩ | ⟨k, hk, _, haddr, _⟩
    · rw [heq]
      exact ⟨fun _ => hemp, fun _ => rfl⟩
    · constructor
      · intro hz
        have := hr k hk
        rw [hz, BitVec.toNat_ofNat] at haddr
        unfold pmmPageSize at haddr
        omega
      · intro hemp
        rw [hemp] at hk
        exact absurd hk (Finset.notMem_empty k)

/-- A free below `PMM_RESERVED` breaks the promise at once. -/
theorem pmmFreePage_notKept {p : Pmm} (hp : PmmInv p) {addr : U32}
    (hlt : addr.toNat / pmmPageSize < min (pmmReserved / pmmPageSize) p.totalPages.toNat) :
    ¬ReservedKept (pmmFreePage p addr) := by
  intro hkept
  have hused := hkept.1 (addr.toNat / pmmPageSize) (by omega)
  have hset := (pmmFreePage_spec hp addr).1
  rw [if_pos (by omega)] at hset
  have hfree := (mem_freeSet.mp (hset ▸ Finset.mem_insert_self ..)).2
  rw [hfree] at hused
  cases hused

/-- **When reserved memory stays reserved**: along a sequence of calls, exactly when none of
them frees an address of an existing page below `PMM_RESERVED`. -/
theorem reserved_iff (p0 : Pmm) (memSize : U32) (calls : List PmmCall) :
    (∀ pre, pre <+: calls → ReservedKept (pmmRun (pmmInit p0 memSize) pre)) ↔
      ∀ addr, .free addr ∈ calls →
        min (pmmReserved / pmmPageSize) (pmmTotal memSize).toNat ≤ addr.toNat / pmmPageSize := by
  obtain ⟨hinv, htot, _⟩ := pmmInit_spec p0 memSize
  constructor
  · intro h addr hmem
    by_contra hlt
    obtain ⟨pre, post, rfl⟩ := List.append_of_mem hmem
    obtain ⟨hp, ht⟩ := pmmRun_inv hinv pre
    have hrun : pmmRun (pmmInit p0 memSize) (pre ++ [.free addr]) =
        pmmFreePage (pmmRun (pmmInit p0 memSize) pre) addr := by
      unfold pmmRun
      rw [List.foldl_append]
      rfl
    have hkept := h (pre ++ [.free addr]) ⟨post, by simp⟩
    rw [hrun] at hkept
    exact pmmFreePage_notKept hp (by rw [ht, htot]; omega) hkept
  · rintro h pre ⟨post, rfl⟩
    obtain ⟨hp, ht⟩ := pmmRun_inv hinv pre
    refine Reserved.kept hp fun k hk => ?_
    by_contra hlt
    have hkt := (mem_freeSet.mp hk).1
    rw [ht, htot] at hkt
    refine pmmRun_notFree hinv pre (k := k) ?_ ?_ hk
    · exact fun hm => hlt (pmmInit_reserved p0 memSize k hm)
    · intro addr ha
      have := h addr (List.mem_append_left _ ha)
      unfold pmmReserved pmmPageSize at this
      unfold pmmPageSize
      omega

theorem free_at_start (p0 : Pmm) {memSize : U32} (hm : 0 < (pmmTotal memSize).toNat) :
    ¬ReservedKept (pmmRun (pmmInit p0 memSize) [.free 0#32]) := by
  obtain ⟨hinv, htot, _⟩ := pmmInit_spec p0 memSize
  generalize pmmInit p0 memSize = p at hinv htot ⊢
  refine pmmFreePage_notKept hinv ?_
  rw [htot, BitVec.toNat_ofNat]
  unfold pmmReserved pmmPageSize
  omega

/-- **Freeing address 0 breaks it**: page 0 becomes free, and the next allocation returns its
address, which is also the code for failure, with pages left. -/
theorem reserved_freed :
    ¬ReservedKept (pmmRun (pmmInit ⟨fun _ => 0#32, 0#32, 0#32⟩ 0x2000000#32) [.free 0#32]) :=
  free_at_start _ (by rw [pmmTotal_32MB]; omega)

/-! ## The identity map -/

/-- The kernel's directory leads from `a` to `a`, for writing too. -/
def KernelReaches (m : Mem) (a : U32) : Prop :=
  translate m kernelCr3 a = some a.toNat ∧
    writeBit (pde m kernelCr3 a) = true ∧ writeBit (pte m kernelCr3 a) = true

/-- The window is the first 16 MB. -/
theorem kernelReaches_iff {m : Mem} (hd : KernelDir m) (ht : KernelTables m) {a : U32}
    (ha : a.toNat % 4096 = 0) : KernelReaches m a ↔ a.toNat < identityTop := by
  have hcr3 : frameAddr kernelCr3 = kernelPdAddr := by
    rw [frameAddr_eq]
    rfl
  have hpde : (pde m kernelCr3 a).toNat =
      if pdIndex a < 4 then sharedTable (pdIndex a) * 4096 + 7 else 0 := by
    unfold pde
    rw [hcr3]
    exact hd _ (pdIndex_lt a)
  unfold identityTop
  constructor
  · intro h
    by_contra hge
    rw [if_neg (by rw [pdIndex_eq]; omega)] at hpde
    have hnone : translate m kernelCr3 a = none := by
      unfold translate
      rw [not_present_zero hpde]
      rfl
    have heq := h.1
    rw [hnone] at heq
    cases heq
  · intro hlt
    rw [if_pos (by rw [pdIndex_eq]; omega)] at hpde
    have hpte : (pte m kernelCr3 a).toNat = a.toNat / 4096 * 4096 + 7 := by
      unfold pte
      rw [frameAddr_entry hpde]
      have hword : word m (sharedTable (pdIndex a) * 4096) (ptIndex a) =
          word m kernelPtAddr (a.toNat / 4096) := by
        unfold word sharedTable kernelPtAddr
        rw [pdIndex_eq, ptIndex_eq]
        rw [show (0x201000 / 4096 + a.toNat / 4194304) * 4096 + 4 * (a.toNat / 4096 % 1024) =
          0x201000 + 4 * (a.toNat / 4096) by omega]
      rw [hword]
      exact ht _ (by omega)
    refine ⟨?_, writeBit_entry hpde, writeBit_entry hpte⟩
    unfold translate
    rw [present_entry hpde, present_entry hpte, frameAddr_entry hpte, toNat_and_fff]
    simp only [Bool.and_self, if_true, Option.some.injEq]
    omega

/-- The next allocation stays inside the window: a page below 16 MB is left, or none at all. -/
def LowPageLeft (p : Pmm) : Prop :=
  (∃ k, k < identityTop / pmmPageSize ∧ k < p.totalPages.toNat ∧ pmmIsUsed p k = false) ∨
    ∀ k, k < p.totalPages.toNat → pmmIsUsed p k = true

theorem lowPageLeft_iff (p : Pmm) :
    LowPageLeft p ↔ (∃ k ∈ freeSet p, k < identityTop / pmmPageSize) ∨ freeSet p = ∅ := by
  unfold LowPageLeft
  constructor
  · rintro (⟨k, hk, ht, hu⟩ | hall)
    · exact Or.inl ⟨k, mem_freeSet.mpr ⟨ht, hu⟩, hk⟩
    · refine Or.inr (Finset.eq_empty_of_forall_notMem fun k hk => ?_)
      obtain ⟨ht, hu⟩ := mem_freeSet.mp hk
      rw [hall k ht] at hu
      cases hu
  · rintro (⟨k, hk, hlt⟩ | hemp)
    · obtain ⟨ht, hu⟩ := mem_freeSet.mp hk
      exact Or.inl ⟨k, hlt, ht, hu⟩
    · refine Or.inr fun k ht => ?_
      by_contra hne
      have hm : k ∈ freeSet p := mem_freeSet.mpr ⟨ht, by simpa using hne⟩
      rw [hemp] at hm
      exact absurd hm (Finset.notMem_empty k)

/-- One allocation, in terms of the page it takes. -/
theorem alloc_reached_iff {p : Pmm} (hp : PmmInv p) {m : Mem} (hd : KernelDir m)
    (ht : KernelTables m) :
    ((pmmAllocPage p).1 ≠ 0#32 → KernelReaches m (pmmAllocPage p).1) ↔ LowPageLeft p := by
  rw [lowPageLeft_iff]
  rcases pmmAllocPage_cases hp with ⟨hemp, heq⟩ | ⟨k, hk, hmin, haddr, _⟩
  · rw [heq]
    exact ⟨fun _ => Or.inr hemp, fun _ h => absurd rfl h⟩
  · have halign : (pmmAllocPage p).1.toNat % 4096 = 0 := by
      rw [haddr]
      exact Nat.mul_mod_left k pmmPageSize
    rw [kernelReaches_iff hd ht halign, haddr]
    constructor
    · intro h
      refine Or.inl ⟨k, hk, ?_⟩
      unfold identityTop pmmPageSize at h ⊢
      by_contra hge
      have hne : (pmmAllocPage p).1 ≠ 0#32 := by
        intro hz
        rw [hz, BitVec.toNat_ofNat] at haddr
        unfold pmmPageSize at haddr
        omega
      have := h hne
      omega
    · rintro (⟨j, hj, hlt⟩ | hemp) _
      · have := hmin j hj
        unfold identityTop pmmPageSize at hlt ⊢
        omega
      · rw [hemp] at hk
        exact absurd hk (Finset.notMem_empty k)

/-- **When every page handed out is reachable**: along a sequence of calls after `init_paging`
and `pmm_init`, exactly when at each allocation a page below 16 MB is left, or none. -/
theorem allocs_reached_iff (p0 : Pmm) (m : Mem) (calls : List PmmCall) :
    (∀ pre, pre ++ [.alloc] <+: calls →
      let a := (pmmAllocPage (pmmRun (pmmInit p0 0x2000000#32) pre)).1
      a ≠ 0#32 → KernelReaches (initPaging m) a) ↔
    ∀ pre, pre ++ [.alloc] <+: calls → LowPageLeft (pmmRun (pmmInit p0 0x2000000#32) pre) := by
  obtain ⟨hd, ht⟩ := initPaging_spec m
  have hinv := (pmmInit_spec p0 0x2000000#32).1
  exact forall₂_congr fun pre _ => alloc_reached_iff (pmmRun_inv hinv pre).1 hd ht

/-- Allocations take the pages in order. -/
theorem pmmRun_allocs {p : Pmm} (hp : PmmInv p) {lo hi : Nat} (hset : freeSet p = Finset.Ico lo hi) :
    ∀ n, lo + n ≤ hi →
      freeSet (pmmRun p (List.replicate n .alloc)) = Finset.Ico (lo + n) hi := by
  intro n
  induction n with
  | zero => exact fun _ => hset
  | succ n ih =>
    intro hn
    have hrun : pmmRun p (List.replicate (n + 1) .alloc) =
        (pmmAllocPage (pmmRun p (List.replicate n .alloc))).2 := by
      unfold pmmRun
      rw [List.replicate_succ', List.foldl_append]
      rfl
    have hprev := ih (by omega)
    rw [hrun]
    rcases pmmAllocPage_cases (pmmRun_inv hp _).1 with ⟨hemp, _⟩ | ⟨k, hk, hmin, _, hfree, _⟩
    · rw [hprev] at hemp
      exact absurd hemp (Finset.nonempty_Ico.mpr (by omega)).ne_empty
    · rw [hprev] at hk hmin hfree
      have hfirst := hmin (lo + n) (Finset.mem_Ico.mpr ⟨Nat.le_refl _, by omega⟩)
      have hge := (Finset.mem_Ico.mp hk).1
      rw [hfree, show k = lo + n by omega]
      ext j
      rw [Finset.mem_erase, Finset.mem_Ico, Finset.mem_Ico]
      omega

/-- With the low pages gone the allocator returns 16 MB. -/
theorem alloc_after_window (p0 : Pmm) {memSize : U32} (hm : 4096 < (pmmTotal memSize).toNat) :
    (pmmAllocPage (pmmRun (pmmInit p0 memSize) (List.replicate 3072 .alloc))).1 =
      0x1000000#32 := by
  obtain ⟨hinv, _, hset⟩ := pmmInit_spec p0 memSize
  have hleft := pmmRun_allocs hinv hset 3072 (by unfold pmmReserved pmmPageSize; omega)
  have hp := (pmmRun_inv hinv (List.replicate 3072 .alloc)).1
  generalize pmmRun (pmmInit p0 memSize) (List.replicate 3072 .alloc) = p at hleft hp ⊢
  have hstart : pmmReserved / pmmPageSize + 3072 = 4096 := rfl
  rw [hstart] at hleft
  rcases pmmAllocPage_cases hp with ⟨hemp, _⟩ | ⟨k, hk, hmin, haddr, _⟩
  · rw [hleft] at hemp
    exact absurd hemp (Finset.nonempty_Ico.mpr hm).ne_empty
  · rw [hleft] at hk hmin
    have hfirst := hmin 4096 (Finset.mem_Ico.mpr ⟨Nat.le_refl _, hm⟩)
    have hge := (Finset.mem_Ico.mp hk).1
    rw [← BitVec.toNat_inj, haddr, show k = 4096 by omega]
    rfl

/-- **The 3073rd allocation** returns 16 MB, which no table of the kernel maps. -/
theorem alloc_past_window :
    (pmmAllocPage (pmmRun (pmmInit ⟨fun _ => 0#32, 0#32, 0#32⟩ 0x2000000#32)
      (List.replicate 3072 .alloc))).1 = 0x1000000#32 ∧
    ¬KernelReaches (initPaging fun _ => 0#8) 0x1000000#32 := by
  refine ⟨alloc_after_window _ (by rw [pmmTotal_32MB]; omega), ?_⟩
  obtain ⟨hd, ht⟩ := initPaging_spec fun _ => 0#8
  rw [kernelReaches_iff hd ht rfl]
  exact Nat.lt_irrefl _

end PepinOS
