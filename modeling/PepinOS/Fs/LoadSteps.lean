import PepinOS.Fs.LoadInv

/-!
# `elf_exec`, step by step

One lemma for each function of the loader, over the invariant of `LoadInv`:
the fresh directory (`procAllocPd_step`), a page of a segment
(`loadPage_step`), the user stack (`loadStack_step`), the registration.
`LoadStep` is what they all give, so a loop only has to compose it.

The steps are about runs that came to their end with the allocator not
exhausted. That no allocation failed is read off the end of the run: a free page
that is still there at the end was there at each allocation (`*_free`).
-/

namespace PepinOS

/-! ## The free set only shrinks -/

/-- From `s` to `s'` no page became free, the allocator stayed sound, and no task
was registered. -/
structure Shrinks (s s' : Loader) : Prop where
  sched : s'.sched = s.sched
  inv : PmmInv s.pmm → PmmInv s'.pmm
  free : PmmInv s.pmm → freeSet s'.pmm ⊆ freeSet s.pmm

theorem Shrinks.trans {s s' s'' : Loader} (h : Shrinks s s') (h' : Shrinks s' s'') :
    Shrinks s s'' :=
  ⟨h'.sched.trans h.sched, fun hp => h'.inv (h.inv hp),
    fun hp => (h'.free (h.inv hp)).trans (h.free hp)⟩

/-- A step that leaves the allocator alone, or makes one allocation. -/
theorem shrinks_of_pmm {s s' : Loader} (hs : s'.sched = s.sched)
    (h : s'.pmm = s.pmm ∨ s'.pmm = (pmmAllocPage s.pmm).2) : Shrinks s s' := by
  rcases h with h | h
  · exact ⟨hs, fun hp => by rw [h]; exact hp, fun _ => by rw [h]⟩
  · exact ⟨hs, fun hp => by rw [h]; exact (alloc_subset hp).2,
      fun hp => by rw [h]; exact (alloc_subset hp).1⟩

theorem procAllocPd_free {s s' : Loader} {pdPhys : U32} (hrun : procAllocPd s = some (pdPhys, s')) :
    Shrinks s s' := by
  simp only [procAllocPd] at hrun
  split at hrun
  next =>
    cases hrun
    exact shrinks_of_pmm rfl (Or.inr rfl)
  next => cases hrun

theorem procEnsureTable_free {pdPhys : U32} {e : Nat} {s s' : Loader}
    (hrun : procEnsureTable pdPhys e s = some s') : Shrinks s s' := by
  simp only [procEnsureTable, Option.bind_eq_bind, Option.bind_eq_some_iff] at hrun
  obtain ⟨pde, _, hrun⟩ := hrun
  split at hrun
  next =>
    split at hrun
    next =>
      obtain ⟨mem, _, hrun⟩ := Option.bind_eq_some_iff.mp hrun
      cases hrun
      exact shrinks_of_pmm rfl (Or.inr rfl)
    next => cases hrun
  next =>
    cases hrun
    exact shrinks_of_pmm rfl (Or.inl rfl)

theorem procMapPage_free {pdPhys virt phys flags : U32} {s s' : Loader}
    (hrun : procMapPage pdPhys virt phys flags s = some s') : Shrinks s s' := by
  simp only [procMapPage, Option.bind_eq_bind, Option.bind_eq_some_iff] at hrun
  obtain ⟨s1, h1, pde, _, mem, _, hrun⟩ := hrun
  cases hrun
  have h : Shrinks s s1 := procEnsureTable_free h1
  exact ⟨h.sched, h.inv, h.free⟩

theorem loadPage_free {b : ElfBuf} {pdPhys ph vaddr : U32} {s s' : Loader}
    (hrun : loadPage b pdPhys ph vaddr s = some s') : Shrinks s s' := by
  simp only [loadPage] at hrun
  split at hrun
  next =>
    obtain ⟨mem, _, hrun⟩ := Option.bind_eq_some_iff.mp hrun
    have h1 : Shrinks s { s with mem := mem, pmm := (pmmAllocPage s.pmm).2 } :=
      shrinks_of_pmm rfl (Or.inr rfl)
    exact h1.trans (procMapPage_free hrun)
  next => cases hrun

theorem loadStack_free {pdPhys : U32} {s s' : Loader} (hrun : loadStack pdPhys s = some s') :
    Shrinks s s' := by
  simp only [loadStack] at hrun
  split at hrun
  next =>
    have h1 : Shrinks s { s with
        mem := memzero s.mem (pmmAllocPage s.pmm).1.toNat 4096
        pmm := (pmmAllocPage s.pmm).2 } := shrinks_of_pmm rfl (Or.inr rfl)
    exact h1.trans (procMapPage_free hrun)
  next => cases hrun

theorem loadHeader_shrinks {b : ElfBuf} {pdPhys : U32} {i : Nat} {s s' : Loader}
    (hrun : loadHeader b pdPhys i s = some s') : Shrinks s s' := by
  simp only [loadHeader, Option.bind_eq_bind, Option.bind_eq_some_iff] at hrun
  obtain ⟨ty, _, hrun⟩ := hrun
  split at hrun
  next =>
    cases hrun
    exact ⟨rfl, id, fun _ => subset_rfl⟩
  next =>
    simp only [loadSegment, Option.bind_eq_bind, Option.bind_eq_some_iff] at hrun
    obtain ⟨pv, _, pm, _, hrun⟩ := hrun
    exact forRangeM_ind (Shrinks s) hrun ⟨rfl, id, fun _ => subset_rfl⟩
      fun _ _ _ _ _ hturn h => h.trans (loadPage_free hturn)

/-- A load that comes to its end registers one user task. -/
theorem loadProgram_sched {b : ElfBuf} {f : FileImage} {pdPhys : U32} {s s1 s' : Loader}
    (halloc : procAllocPd (readFile b f s) = some (pdPhys, s1))
    (hrun : loadProgram b pdPhys s1 = some s') : ∃ eip userEsp ss cr3 kstackTop,
      schedAddTask s.sched eip 0x23#32 0x202#32 userEsp ss cr3 kstackTop = some s'.sched := by
  simp only [loadProgram, loadTask, Option.bind_eq_bind, Option.bind_eq_some_iff] at hrun
  obtain ⟨s2, hheaders, s3, hstack, sched, hadd, hrun⟩ := hrun
  cases hrun
  have h1 : Shrinks (readFile b f s) s1 := procAllocPd_free halloc
  have h2 : Shrinks (readFile b f s) s2 := forRangeM_ind (Shrinks (readFile b f s)) hheaders h1
    fun _ _ _ _ _ hturn h => h.trans (loadHeader_shrinks hturn)
  have hsched : s3.sched = s.sched := (h2.trans (loadStack_free hstack)).sched
  rw [hsched] at hadd
  exact ⟨_, _, _, _, _, hadd⟩

/-! ## The fresh directory -/

/-- The address space right after `proc_alloc_pd`. -/
def freshSpace (k : Nat) : Space where
  dir := k
  tab := fun e => if e < 4 then some (sharedTable e) else none
  page := fun _ => none
  own := Function.update (fun _ => none) k (some .dir)

/-- `proc_alloc_pd` starts the invariant: a copy of the kernel's directory on a
page of its own. -/
theorem procAllocPd_step {s0 : Loader} (hpmm : PmmInv s0.pmm) (hres : Reserved s0.pmm)
    (hk : KernelDir s0.mem) (hne : (freeSet s0.pmm).Nonempty) :
    (procAllocPd s0 = none ∧ ∀ j ∈ freeSet s0.pmm, 4096 ≤ j) ∨
    ∃ pdPhys s k, procAllocPd s0 = some (pdPhys, s) ∧ LoadInv s0 (freshSpace k) s ∧
      pdPhys.toNat = k * 4096 ∧ k ∈ freeSet s0.pmm ∧ (∀ j ∈ freeSet s0.pmm, k ≤ j) ∧
      freeSet s.pmm = (freeSet s0.pmm).erase k := by
  obtain ⟨k, hkf, hmin, haddr, hset, hpmm'⟩ := alloc_some hpmm hne
  have hk1 := hres k hkf
  simp only [procAllocPd]
  by_cases hk4 : k < 4096
  · right
    rw [if_pos ((pageMapped_iff haddr).mpr hk4)]
    obtain ⟨hout, hin⟩ := @copyDir_spec s0.mem k 1024 (by omega) (Nat.le_refl _)
    simp only [haddr]
    generalize forRange 0 1024 (fun i m => setWord m (k * 4096) i (word m kernelPdAddr i)) s0.mem =
      m1 at hout hin ⊢
    have hown : ∀ j r, (freshSpace k).own j = some r → j = k ∧ r = .dir := by
      intro j r ho
      have ho' : Function.update (fun _ => none) k (some Role.dir) j = some r := ho
      by_cases hjk : j = k
      · rw [hjk, Function.update_self] at ho'
        exact ⟨hjk, (Option.some.inj ho').symm⟩
      · rw [Function.update_of_ne hjk] at ho'
        cases ho'
    have hxk : ∀ x, InShared x → x / 4096 ≠ k := by
      intro x hx
      unfold InShared sharedTable kernelPtAddr at hx
      omega
    refine ⟨_, _, k, rfl, ?_, haddr, hkf, hmin, hset⟩
    have hdir : (freshSpace k).own (freshSpace k).dir = some .dir := by
      show Function.update (fun _ => none) k (some Role.dir) k = some Role.dir
      rw [Function.update_self]
    refine ⟨hpmm', hres, rfl, ?_, ?_, hdir, fun e he => if_pos he, ?_, ?_, ?_,
      ?_, ?_, ?_, fun _ x hx => hout x (hxk x hx)⟩
    · rw [hset]
      exact Finset.erase_subset k _
    · intro j r ho
      obtain ⟨rfl, rfl⟩ := hown j r ho
      rw [hset]
      exact ⟨hkf, Finset.notMem_erase j _, fun _ => hk4⟩
    · intro e t he ht
      have ht' : (if e < 4 then some (sharedTable e) else none) = some t := ht
      rw [if_neg (by omega)] at ht'
      cases ht'
    · intro v f hv
      cases hv
    · intro v f hv
      cases hv
    · intro e he
      refine (congrArg _ ((hin e).trans (if_pos he))).trans ((hk e he).trans ?_)
      show _ = entryNat 0 (if e < 4 then some (sharedTable e) else none)
      split
      next => rfl
      next => rfl
    · intro e t _ ht i hi
      have ht' : (if e < 4 then some (sharedTable e) else none) = some t := ht
      split at ht'
      next he =>
        rw [← Option.some.inj ht', if_pos he]
        have hst : sharedTable e ≠ k := by unfold sharedTable kernelPtAddr; omega
        exact congrArg _ (word_page_congr hi fun x hx => hout x (by rw [hx]; exact hst))
      next => cases ht'
    · intro x hx _
      refine hout x fun heq => ?_
      have hx' : Function.update (fun _ => none) k (some Role.dir) (x / 4096) = none := hx
      rw [heq, Function.update_self] at hx'
      cases hx'
  · left
    rw [if_neg (fun hm => hk4 ((pageMapped_iff haddr).mp hm))]
    exact ⟨rfl, fun j hj => by have := hmin j hj; omega⟩

/-! ## The walk through the directory being built -/

theorem entryNat_walk {w : U32} {o : Option Nat} (h : w.toNat = entryNat 0 o) :
    entryFrame w = o := by
  cases o with
  | none => exact entryFrame_zero h
  | some f => exact entryFrame_entry h

theorem LoadInv.tableFrame_eq {s0 s : Loader} {sp : Space} (h : LoadInv s0 sp s) {cr3 : U32}
    (hcr3 : cr3.toNat = sp.dir * 4096) {e : Nat} (he : e < 1024) :
    tableFrame s.mem cr3 e = sp.tab e := by
  have hdir : frameAddr cr3 = sp.dir * 4096 := by rw [frameAddr_eq, hcr3]; omega
  unfold tableFrame
  rw [hdir]
  exact entryNat_walk (h.dir_word e he)

/-- Above the kernel's entries the processor sees the pages the load has mapped. -/
theorem LoadInv.pageFrame_eq {s0 s : Loader} {sp : Space} (h : LoadInv s0 sp s) {cr3 : U32}
    (hcr3 : cr3.toNat = sp.dir * 4096) {v : Nat} (hv : 4096 ≤ v) (hv' : v < 1048576) :
    pageFrame s.mem cr3 v = sp.page v := by
  unfold pageFrame
  rw [h.tableFrame_eq hcr3 (by omega)]
  cases ht : sp.tab (v / 1024) with
  | none =>
    cases hp : sp.page v with
    | none => rfl
    | some f => exact absurd ht (h.page_tab v f hp)
  | some t =>
    have hword := h.tab_word (v / 1024) t (by omega) ht (v % 1024) (by omega)
    rw [if_neg (by omega), show v / 1024 * 1024 + v % 1024 = v by omega] at hword
    rw [Option.bind_some]
    exact entryNat_walk hword

/-! ## One page of a segment -/

theorem memzero_page {m : Mem} {k x : Nat} (hx : x / 4096 = k) :
    memzero m (k * 4096) 4096 x = 0#8 := by
  rw [memzero_eq]
  exact patch_in (by unfold InRun; omega)

/-- Copying from the file writes inside the frame only. -/
theorem copyFile_other {b : ElfBuf} {frame srcOff : U32} {n k x : Nat} {m m' : Mem}
    (hrun : copyFile b frame srcOff n m = some m') (hf : frame.toNat = k * 4096) (hn : n ≤ 4096)
    (hx : x / 4096 ≠ k) : m' x = m x := by
  refine forRangeM_ind (fun q => q x = m x) hrun rfl ?_
  intro j q q' _ hj hq hqx
  obtain ⟨v, _, hq⟩ := Option.bind_eq_some_iff.mp hq
  rw [← Option.some.inj hq]
  unfold store8
  rw [Function.update_of_ne (by omega)]
  exact hqx

theorem fillPage_other {b : ElfBuf} {ph vaddr frame : U32} {k x : Nat} {m m' : Mem}
    (hrun : fillPage b ph vaddr frame m = some m') (hf : frame.toNat = k * 4096)
    (hx : x / 4096 ≠ frame.toNat / 4096) : m' x = m x := by
  rw [hf, Nat.mul_div_cancel k (by omega)] at hx
  simp only [fillPage, Option.bind_eq_bind, Option.bind_eq_some_iff] at hrun
  obtain ⟨pv, _, pf, _, hrun⟩ := hrun
  split at hrun
  next =>
    obtain ⟨po, _, hrun⟩ := Option.bind_eq_some_iff.mp hrun
    refine copyFile_other hrun hf ?_ hx
    split
    next hgt => exact Nat.le_of_lt hgt
    next => exact Nat.le_refl _
  next => rw [← Option.some.inj hrun]

/-- A step that maps page `v` to a frame with contents `c`. -/
structure MapsPage (sp : Space) (s : Loader) (v : Nat) (c : Mem) (sp' : Space) (s' : Loader) :
    Prop where
  extends_ : Extends sp s sp' s'
  page : ∃ f, sp'.page = Function.update sp.page v (some f) ∧ sp.own f = none ∧
    ∀ j, j < 4096 → s'.mem (f * 4096 + j) = c j
  tab_ne : ∀ e, e ≠ v / 1024 → sp'.tab e = sp.tab e
  tab_self : sp'.tab (v / 1024) ≠ none

/-- Allocating a frame, giving it contents and mapping it at `v`: what the page
loop and the stack have in common. -/
theorem mapFrame_step {s0 s s' : Loader} {sp : Space} (h : LoadInv s0 sp s) {pdPhys virt : U32}
    (hpd : pdPhys.toNat = sp.dir * 4096) {v : Nat} (hv : virt.toNat / 4096 = v) {mem : Mem}
    (hmapped : pageMapped (pmmAllocPage s.pmm).1)
    (hmem : ∀ x, x / 4096 ≠ (pmmAllocPage s.pmm).1.toNat / 4096 → mem x = s.mem x)
    (hrun : procMapPage pdPhys virt (pmmAllocPage s.pmm).1 elfFlags
      { s with mem := mem, pmm := (pmmAllocPage s.pmm).2 } = some s')
    (hne : (freeSet s'.pmm).Nonempty) :
    ∃ sp', LoadInv s0 sp' s' ∧
      MapsPage sp s v (fun j => mem ((pmmAllocPage s.pmm).1.toNat + j)) sp' s' := by
  have hsub := (procMapPage_free hrun).free (alloc_subset h.pmm).2
  have hne1 : (freeSet (pmmAllocPage s.pmm).2).Nonempty := hne.mono hsub
  obtain ⟨k, hk, hmin, haddr, hset, hpmm⟩ := alloc_some h.pmm (hne1.mono (alloc_subset h.pmm).1)
  have hk4 : k < 4096 := (pageMapped_iff haddr).mp hmapped
  have hkk : (pmmAllocPage s.pmm).1.toNat / 4096 = k := by rw [haddr]; omega
  rw [hkk] at hmem
  have hclaim := h.claim (r := .page v) hk hset hpmm (fun _ => hk4) hmem
  have hown : (sp.claim k (.page v)).own k = some (.page v) := Function.update_self ..
  have hext : Extends sp s (sp.claim k (.page v))
      { s with mem := mem, pmm := (pmmAllocPage s.pmm).2 } := by
    have hnk : ∀ j r, sp.own j = some r → j ≠ k := fun j r ho heq => by
      rw [heq, h.own_free hk] at ho
      cases ho
    refine ⟨rfl, fun j r ho => ?_, fun j v' ho x hx => hmem x (by rw [hx]; exact hnk j _ ho), ?_⟩
    · show Function.update sp.own k _ j = _
      rw [Function.update_of_ne (hnk j r ho)]
      exact ho
    · rw [hset]
      exact Finset.erase_subset k _
  rcases procMapPage_cases hclaim hpd hv haddr hown (fun _ => hne1) with
    ⟨hnone, _⟩ | ⟨s1, sp1, hsome, h1, hext1, hpage, htab, htn, _⟩
  · rw [hnone] at hrun
    cases hrun
  · rw [hsome] at hrun
    cases hrun
    refine ⟨sp1, h1, hext.trans hext1, ⟨k, hpage, h.own_free hk, fun j hj => ?_⟩, htab, htn⟩
    rw [haddr]
    exact hext1.frame k v hown (k * 4096 + j) (by omega)

/-- One turn of the page loop. -/
theorem loadPage_step {s0 s s' : Loader} {sp : Space} (h : LoadInv s0 sp s) {b : ElfBuf}
    {pdPhys ph vaddr : U32} (hpd : pdPhys.toNat = sp.dir * 4096) {v : Nat}
    (hv : vaddr.toNat / 4096 = v) (hrun : loadPage b pdPhys ph vaddr s = some s')
    (hne : (freeSet s'.pmm).Nonempty) :
    ∃ sp' frame m, LoadInv s0 sp' s' ∧
      fillPage b ph vaddr frame (memzero s.mem frame.toNat 4096) = some m ∧
      frame = (pmmAllocPage s.pmm).1 ∧
      MapsPage sp s v (fun j => m (frame.toNat + j)) sp' s' := by
  have hsub := (loadPage_free hrun).free h.pmm
  simp only [loadPage] at hrun
  split at hrun
  next hmapped =>
    obtain ⟨m, hfill, hrun⟩ := Option.bind_eq_some_iff.mp hrun
    obtain ⟨k, _, _, haddr, _⟩ := alloc_some h.pmm (hne.mono hsub)
    have hmem : ∀ x, x / 4096 ≠ (pmmAllocPage s.pmm).1.toNat / 4096 → m x = s.mem x :=
      fun x hx => (fillPage_other hfill haddr hx).trans (memzero_otherPage haddr hx)
    obtain ⟨sp', h', hmaps⟩ := mapFrame_step h hpd hv hmapped hmem hrun hne
    exact ⟨sp', _, m, h', hfill, rfl, hmaps⟩
  next => cases hrun

/-- The user stack: one cleared page at `USER_STACK_VIRT`. -/
theorem loadStack_step {s0 s s' : Loader} {sp : Space} (h : LoadInv s0 sp s) {pdPhys : U32}
    (hpd : pdPhys.toNat = sp.dir * 4096) (hrun : loadStack pdPhys s = some s')
    (hne : (freeSet s'.pmm).Nonempty) :
    ∃ sp', LoadInv s0 sp' s' ∧ MapsPage sp s 0x40100 (fun _ => 0#8) sp' s' := by
  have hsub := (loadStack_free hrun).free h.pmm
  simp only [loadStack] at hrun
  split at hrun
  next hmapped =>
    obtain ⟨k, _, _, haddr, _⟩ := alloc_some h.pmm (hne.mono hsub)
    have hmem : ∀ x, x / 4096 ≠ (pmmAllocPage s.pmm).1.toNat / 4096 →
        memzero s.mem (pmmAllocPage s.pmm).1.toNat 4096 x = s.mem x :=
      fun x hx => memzero_otherPage haddr hx
    obtain ⟨sp', h', hmaps⟩ := mapFrame_step h hpd (v := 0x40100) rfl hmapped hmem hrun hne
    obtain ⟨f, hpage, hfown, hc⟩ := hmaps.page
    refine ⟨sp', h', hmaps.extends_, ⟨f, hpage, hfown, fun j hj => ?_⟩, hmaps.tab_ne,
      hmaps.tab_self⟩
    refine (hc j hj).trans ?_
    rw [haddr]
    exact memzero_page (by omega)
  next => cases hrun

end PepinOS
