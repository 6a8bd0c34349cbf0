import PepinOS.Fs.Exhaustion

/-!
# A load over any kernel directory

`LoadInv` follows a load whose kernel directory is the one `init_paging` made. Once
`vmm_map_page` has put more tables into it, `proc_alloc_pd` copies those entries too,
and a segment below such an entry goes into the kernel's own table.

`Cloned` is what holds of the new directory then: an entry the kernel has leads to the
kernel's table, any other one to a table the load has allocated. Pages that were in
use are as they were, the kernel's tables apart. As in `Underway`, it is carried for as
long as free pages remain; `elfExec_clone` closes it with the last request of the call.
-/

namespace PepinOS

/-- Page `t` is a page table of the kernel's directory. -/
def KernelTable (m : Mem) (t : Nat) : Prop := ∃ e, e < 1024 ∧ tableFrame m kernelCr3 e = some t

/-- The load that made directory page `d`, from `s0` on. -/
structure Cloned (s0 : Loader) (d : Nat) (s : Loader) : Prop where
  free : freeSet s.pmm ⊆ freeSet s0.pmm
  dir : d ∈ freeSet s0.pmm ∧ d ∉ freeSet s.pmm
  copied : ∀ e t, e < 1024 → tableFrame s0.mem kernelCr3 e = some t →
    entryFrame (word s.mem (d * 4096) e) = some t
  own : ∀ e t, e < 1024 → tableFrame s0.mem kernelCr3 e = none →
    entryFrame (word s.mem (d * 4096) e) = some t →
    t ∈ freeSet s0.pmm ∧ t ∉ freeSet s.pmm ∧ t ≠ d
  kept : ∀ x, 512 ≤ x / 4096 → x / 4096 ∉ freeSet s0.pmm → ¬KernelTable s0.mem (x / 4096) →
    s.mem x = s0.mem x

section Steps

variable {s0 s : Loader} {d : Nat}

/-- The allocated page `f` is filled. -/
theorem Cloned.fill (h : Cloned s0 d s) {f : Nat} {m : Mem} {pmm : Pmm} (hf : f ∈ freeSet s.pmm)
    (hsub : freeSet pmm ⊆ freeSet s.pmm) (hmem : ∀ x, x / 4096 ≠ f → m x = s.mem x) :
    Cloned s0 d { s with mem := m, pmm := pmm } := by
  have hdf : d ≠ f := fun heq => h.dir.2 (heq ▸ hf)
  have hword : ∀ e, e < 1024 → word m (d * 4096) e = word s.mem (d * 4096) e := fun e he =>
    word_page_congr he fun x hx => hmem x (by omega)
  refine ⟨hsub.trans h.free, ⟨h.dir.1, fun hm => h.dir.2 (hsub hm)⟩, fun e t he ht => ?_,
    fun e t he hk ht => ?_, fun x hlo hx hk => ?_⟩
  · show entryFrame (word m (d * 4096) e) = some t
    rw [hword e he]
    exact h.copied e t he ht
  · have ht' : entryFrame (word m (d * 4096) e) = some t := ht
    rw [hword e he] at ht'
    obtain ⟨h1, h2, h3⟩ := h.own e t he hk ht'
    exact ⟨h1, fun hm => h2 (hsub hm), h3⟩
  · have hxf : x / 4096 ≠ f := fun heq => hx (heq ▸ h.free hf)
    exact (hmem x hxf).trans (h.kept x hlo hx hk)

/-- The table of an entry is written. -/
theorem Cloned.store (h : Cloned s0 d s) (hapart : ∀ t, KernelTable s0.mem t → t ∉ freeSet s0.pmm)
    {e t : Nat} {m : Mem} (he : e < 1024) (ht : entryFrame (word s.mem (d * 4096) e) = some t)
    (hmem : ∀ x, x / 4096 ≠ t → m x = s.mem x) : Cloned s0 d { s with mem := m } := by
  -- the table is the kernel's, or a page that was free
  have hcase : KernelTable s0.mem t ∨ t ∈ freeSet s0.pmm ∧ t ≠ d := by
    cases hk : tableFrame s0.mem kernelCr3 e with
    | none =>
      obtain ⟨h1, _, h3⟩ := h.own e t he hk ht
      exact .inr ⟨h1, h3⟩
    | some t' =>
      have ht' := h.copied e t' he hk
      rw [ht] at ht'
      exact .inl ⟨e, he, hk.trans ht'.symm⟩
  have htd : t ≠ d := by
    rcases hcase with hk | ⟨_, hne⟩
    · exact fun heq => hapart t hk (heq ▸ h.dir.1)
    · exact hne
  have hword : ∀ e, e < 1024 → word m (d * 4096) e = word s.mem (d * 4096) e := fun e he =>
    word_page_congr he fun x hx => hmem x (by omega)
  refine ⟨h.free, h.dir, fun e t he ht => ?_, fun e t he hk ht => ?_, fun x hlo hx hk => ?_⟩
  · show entryFrame (word m (d * 4096) e) = some t
    rw [hword e he]
    exact h.copied e t he ht
  · have ht' : entryFrame (word m (d * 4096) e) = some t := ht
    rw [hword e he] at ht'
    exact h.own e t he hk ht'
  · refine (hmem x fun heq => ?_).trans (h.kept x hlo hx hk)
    rcases hcase with hk' | ⟨hfree, _⟩
    · exact hk (heq ▸ hk')
    · exact hx (heq ▸ hfree)

/-- A fresh table `f` is entered at `e`. -/
theorem Cloned.enter (h : Cloned s0 d s) {e f : Nat} {w : U32} {m : Mem} {pmm : Pmm}
    (habs : entryFrame (word s.mem (d * 4096) e) = none) (he : e < 1024) (hf : f ∈ freeSet s.pmm)
    (hset : freeSet pmm = (freeSet s.pmm).erase f) (hw : entryFrame w = some f)
    (hmem : ∀ x, x / 4096 ≠ f → m x = s.mem x) :
    Cloned s0 d { s with mem := setWord m (d * 4096) e w, pmm := pmm } := by
  have hsub : freeSet pmm ⊆ freeSet s.pmm := by
    rw [hset]
    exact Finset.erase_subset f _
  have hfill := h.fill hf hsub hmem
  have hdf : f ≠ d := fun heq => h.dir.2 (heq ▸ hf)
  have hdir : ∀ i, i ≠ e → word (setWord m (d * 4096) e w) (d * 4096) i = word m (d * 4096) i :=
    fun i hi => word_setWord_ne w hi
  refine ⟨hfill.free, hfill.dir, fun i t hi ht => ?_, fun i t hi hk ht => ?_,
    fun x hlo hx hk => ?_⟩
  · have hie : i ≠ e := by
      rintro rfl
      rw [h.copied i t hi ht] at habs
      cases habs
    show entryFrame (word (setWord m (d * 4096) e w) (d * 4096) i) = some t
    rw [hdir i hie]
    exact hfill.copied i t hi ht
  · have ht' : entryFrame (word (setWord m (d * 4096) e w) (d * 4096) i) = some t := ht
    by_cases hie : i = e
    · rw [hie, word_setWord_self, hw] at ht'
      cases ht'
      refine ⟨h.free hf, fun hm => ?_, hdf⟩
      have hm' : f ∈ freeSet pmm := hm
      rw [hset] at hm'
      exact Finset.notMem_erase f _ hm'
    · rw [hdir i hie] at ht'
      exact hfill.own i t hi hk ht'
  · have hxd : x / 4096 ≠ d := fun heq => hx (heq ▸ h.dir.1)
    exact (setWord_otherPage w he hxd).trans (hfill.kept x hlo hx hk)

end Steps

/-! ## The functions of the loader -/

section Functions

variable {b : ElfBuf} {s0 s s' : Loader} {d : Nat} {pdPhys : U32}

/-- The copy of the kernel's directory; `s` is `s0` with the file read. -/
theorem procAllocPd_clone (hp : PmmInv s.pmm) (hres : Reserved s.pmm) (hpmm : s.pmm = s0.pmm)
    (hread : ∀ x, 512 ≤ x / 4096 → s.mem x = s0.mem x) (hrun : procAllocPd s = some (pdPhys, s'))
    (hne : (freeSet s'.pmm).Nonempty) :
    ∃ d, pdPhys.toNat = d * 4096 ∧ d < 4096 ∧ Cloned s0 d s' := by
  have hsub := (procAllocPd_free hrun).free hp
  simp only [procAllocPd] at hrun
  split at hrun
  next hmapped =>
    cases hrun
    obtain ⟨k, hk, _, haddr, hset, _⟩ := alloc_some hp (hne.mono hsub)
    have hk1 := hres k hk
    obtain ⟨hout, hin⟩ := @copyDir_spec s.mem k 1024 (by omega) (Nat.le_refl _)
    simp only [haddr] at hne ⊢
    generalize forRange 0 1024 (fun i m => setWord m (k * 4096) i (word m kernelPdAddr i)) s.mem =
      m1 at hout hin ⊢
    -- each entry of the copy is the kernel's
    have hentry : ∀ e, e < 1024 →
        entryFrame (word m1 (k * 4096) e) = tableFrame s0.mem kernelCr3 e := by
      intro e he
      have hold : word s.mem kernelPdAddr e = word s0.mem kernelPdAddr e :=
        word_page_congr (k := 512) he fun x hx => hread x (by omega)
      rw [hin e, if_pos he, hold]
      rfl
    rw [hpmm] at hk
    refine ⟨k, rfl, (pageMapped_iff haddr).mp hmapped, hpmm ▸ hsub, ⟨hk, ?_⟩, fun e t he ht => ?_,
      fun e t he hnone ht => ?_, fun x hlo hx _ => ?_⟩
    · show k ∉ freeSet (pmmAllocPage s.pmm).2
      rw [hset]
      exact Finset.notMem_erase k _
    · exact (hentry e he).trans ht
    · have ht' : entryFrame (word m1 (k * 4096) e) = some t := ht
      rw [hentry e he, hnone] at ht'
      cases ht'
    · exact (hout x fun heq => hx (heq ▸ hk)).trans (hread x hlo)
  next => cases hrun

/-- After `procEnsureTable` the entry has a table. -/
theorem procEnsureTable_clone (h : Cloned s0 d s) (hp : PmmInv s.pmm)
    (hpd : pdPhys.toNat = d * 4096) (hd : d < 4096) {e : Nat} (he : e < 1024)
    (hrun : procEnsureTable pdPhys e s = some s') (hne : (freeSet s'.pmm).Nonempty) :
    Cloned s0 d s' ∧ ∃ t, entryFrame (word s'.mem (d * 4096) e) = some t := by
  have hsub := (procEnsureTable_free hrun).free hp
  simp only [procEnsureTable, kload32_page hpd hd he, Option.bind_eq_bind, Option.bind_some] at hrun
  split at hrun
  next habs =>
    split at hrun
    next hmapped =>
      obtain ⟨mem, hst, hrun⟩ := Option.bind_eq_some_iff.mp hrun
      cases hrun
      obtain ⟨f, hf, _, haddr, hset, _⟩ := alloc_some hp (hne.mono hsub)
      rw [kstore32_some hpd he hst]
      have hw := entryFrame_entry (toNat_userEntry haddr)
      refine ⟨h.enter ?_ he hf hset hw fun x hx => ?_, f, ?_⟩
      · unfold entryFrame
        exact if_neg (by simpa using habs)
      · rw [haddr]
        exact (clearTable_spec s.mem f).1 x hx
      · show entryFrame (word (setWord _ (d * 4096) e _) (d * 4096) e) = some f
        rw [word_setWord_self]
        exact hw
    next => cases hrun
  next hpres =>
    cases hrun
    refine ⟨h, _, if_pos ?_⟩
    simpa using hpres

theorem procMapPage_clone (h : Cloned s0 d s) (hp : PmmInv s.pmm)
    (hapart : ∀ t, KernelTable s0.mem t → t ∉ freeSet s0.pmm) (hpd : pdPhys.toNat = d * 4096)
    (hd : d < 4096) {virt phys flags : U32} (hrun : procMapPage pdPhys virt phys flags s = some s')
    (hne : (freeSet s'.pmm).Nonempty) : Cloned s0 d s' := by
  have hlt := pdIndex_lt virt
  simp only [procMapPage, Option.bind_eq_bind, Option.bind_eq_some_iff] at hrun
  obtain ⟨s1, h1, pde, hpde, mem, hst, hrun⟩ := hrun
  cases hrun
  obtain ⟨hc, t, ht⟩ := procEnsureTable_clone h hp hpd hd hlt h1 hne
  rw [kload32_page hpd hd hlt] at hpde
  cases hpde
  rw [kstore32_some (entryFrame_some ht).2 (ptIndex_lt virt) hst]
  exact hc.store hapart hlt ht fun x hx => setWord_otherPage _ (ptIndex_lt virt) hx

/-- An allocated page is filled and mapped. -/
theorem mapFrame_clone (h : Cloned s0 d s) (hp : PmmInv s.pmm)
    (hapart : ∀ t, KernelTable s0.mem t → t ∉ freeSet s0.pmm) (hpd : pdPhys.toNat = d * 4096)
    (hd : d < 4096) {virt flags : U32} {m : Mem}
    (hmem : ∀ k x, (pmmAllocPage s.pmm).1.toNat = k * 4096 → x / 4096 ≠ k → m x = s.mem x)
    (hrun : procMapPage pdPhys virt (pmmAllocPage s.pmm).1 flags
      { s with mem := m, pmm := (pmmAllocPage s.pmm).2 } = some s')
    (hne : (freeSet s'.pmm).Nonempty) : Cloned s0 d s' := by
  obtain ⟨hsub, hp1⟩ := alloc_subset hp
  have hne1 := hne.mono ((procMapPage_free hrun).free hp1)
  obtain ⟨k, hk, _, haddr, _⟩ := alloc_some hp (hne1.mono hsub)
  exact procMapPage_clone (h.fill hk hsub fun x hx => hmem k x haddr hx) hp1 hapart hpd hd hrun hne

theorem loadPage_clone (h : Cloned s0 d s) (hp : PmmInv s.pmm)
    (hapart : ∀ t, KernelTable s0.mem t → t ∉ freeSet s0.pmm) (hpd : pdPhys.toNat = d * 4096)
    (hd : d < 4096) {ph vaddr : U32} (hrun : loadPage b pdPhys ph vaddr s = some s')
    (hne : (freeSet s'.pmm).Nonempty) : Cloned s0 d s' := by
  simp only [loadPage] at hrun
  split at hrun
  next =>
    obtain ⟨m, hfill, hrun⟩ := Option.bind_eq_some_iff.mp hrun
    refine mapFrame_clone h hp hapart hpd hd (fun k x haddr hx => ?_) hrun hne
    rw [← Nat.mul_div_cancel k (show 0 < 4096 by omega), ← haddr] at hx
    exact (fillPage_other hfill haddr hx).trans (memzero_otherPage haddr hx)
  next => cases hrun

theorem loadStack_clone (h : Cloned s0 d s) (hp : PmmInv s.pmm)
    (hapart : ∀ t, KernelTable s0.mem t → t ∉ freeSet s0.pmm) (hpd : pdPhys.toNat = d * 4096)
    (hd : d < 4096) (hrun : loadStack pdPhys s = some s') (hne : (freeSet s'.pmm).Nonempty) :
    Cloned s0 d s' := by
  simp only [loadStack] at hrun
  split at hrun
  next =>
    refine mapFrame_clone h hp hapart hpd hd (fun k x haddr hx => ?_) hrun hne
    rw [haddr]
    exact memzero_other hx
  next => cases hrun

end Functions

/-! ## The loops -/

/-- What holds in the loops. -/
structure Cloning (s0 : Loader) (pdPhys : U32) (s : Loader) : Prop where
  shrinks : Shrinks s0 s
  clone : (freeSet s.pmm).Nonempty → ∃ d, pdPhys.toNat = d * 4096 ∧ d < 4096 ∧ Cloned s0 d s

section Loops

variable {b : ElfBuf} {s0 s s' : Loader} {pdPhys : U32} (hpmm : PmmInv s0.pmm)
  (hapart : ∀ t, KernelTable s0.mem t → t ∉ freeSet s0.pmm)

include hpmm

/-- One allocating step of the load. -/
theorem Cloning.step (h : Cloning s0 pdPhys s) (hfree : Shrinks s s')
    (hclone : ∀ d, pdPhys.toNat = d * 4096 → d < 4096 → Cloned s0 d s → PmmInv s.pmm →
      (freeSet s'.pmm).Nonempty → Cloned s0 d s') : Cloning s0 pdPhys s' := by
  have hp := h.shrinks.inv hpmm
  refine ⟨h.shrinks.trans hfree, fun hne => ?_⟩
  obtain ⟨d, hpd, hd, hc⟩ := h.clone (hne.mono (hfree.free hp))
  exact ⟨d, hpd, hd, hclone d hpd hd hc hp hne⟩

include hapart

theorem loadHeader_cloning {i : Nat} (h : Cloning s0 pdPhys s)
    (hrun : loadHeader b pdPhys i s = some s') : Cloning s0 pdPhys s' := by
  simp only [loadHeader, Option.bind_eq_bind, Option.bind_eq_some_iff] at hrun
  obtain ⟨ty, _, hrun⟩ := hrun
  split at hrun
  next =>
    cases hrun
    exact h
  next =>
    simp only [loadSegment, Option.bind_eq_bind, Option.bind_eq_some_iff] at hrun
    obtain ⟨pv, _, pm, _, hrun⟩ := hrun
    refine forRangeM_ind (Cloning s0 pdPhys) hrun h fun n t t' _ _ ht hc => ?_
    exact hc.step hpmm (loadPage_free ht) fun d hpd hd hcl hp hne =>
      loadPage_clone hcl hp hapart hpd hd ht hne

theorem loadStack_cloning (h : Cloning s0 pdPhys s) (hrun : loadStack pdPhys s = some s') :
    Cloning s0 pdPhys s' :=
  h.step hpmm (loadStack_free hrun) fun _ hpd hd hcl hp hne =>
    loadStack_clone hcl hp hapart hpd hd hrun hne

end Loops

/-! ## The call -/

/-- The last page `elf_exec` asks for is the kernel stack. -/
theorem mem_elfAsks {b : ElfBuf} {f : FileImage} {s s1 s2 s3 : Loader} {pdPhys : U32}
    (h52 : ¬f.bytes.length < 52) (hmagic : ¬(!elfMagic b (readFile b f s).mem) = true)
    (halloc : procAllocPd (readFile b f s) = some (pdPhys, s1))
    (hheaders : forRangeM 0 (ePhnum b s1.mem).toNat (loadHeader b pdPhys) s1 = some s2)
    (hstack : loadStack pdPhys s2 = some s3) :
    (pmmAllocPage s3.pmm).1 ∈ elfAsks b (some f) s := by
  simp only [elfAsks, if_neg h52, if_neg hmagic, halloc, asksThen, loadProgramAsks, hheaders, hstack,
    loadTaskAsks, List.mem_cons, List.mem_append, or_true, List.not_mem_nil, or_false]

/-- **One call of `elf_exec`** that gets its pages: nothing but the file was read, or a task
is registered on a directory in which the kernel's entries lead to the kernel's tables. -/
theorem elfExec_clone {b : ElfBuf} {file : Option FileImage} {s s' : Loader} (hp : PmmInv s.pmm)
    (hres : Reserved s.pmm) (hapart : ∀ t, KernelTable s.mem t → t ∉ freeSet s.pmm)
    (henough : Enough (elfAsks b file s) s.pmm) (hrun : elfExec b file s = some s') :
    (s'.sched.ntasks = s.sched.ntasks ∧ s'.pmm = s.pmm ∧
      ∀ x, 512 ≤ x / 4096 → s'.mem x = s.mem x) ∨
    (s'.sched.ntasks = s.sched.ntasks + 1 ∧ PmmInv s'.pmm ∧ ∃ d, Cloned s d s' ∧
      ∀ i : Fin 8, i.val = s.sched.ntasks → (s'.sched.pool i).cr3.toNat = d * 4096) := by
  have hread : ∀ (f : FileImage) x, 512 ≤ x / 4096 → (readFile b f s).mem x = s.mem x :=
    fun _ _ hx => readFile_high hx
  have hnozero : 0#32 ∉ elfAsks b file s := ((elfExec_asks b file s).enough_iff hp).mpr henough
  cases file with
  | none =>
    cases hrun
    exact .inl ⟨rfl, rfl, fun _ _ => rfl⟩
  | some f =>
    simp only [elfExec] at hrun
    split at hrun
    next =>
      cases hrun
      exact .inl ⟨rfl, rfl, hread f⟩
    next h52 =>
      split at hrun
      next =>
        cases hrun
        exact .inl ⟨rfl, rfl, hread f⟩
      next hmagic =>
        right
        obtain ⟨⟨pdPhys, s1⟩, halloc, hrun⟩ := Option.bind_eq_some_iff.mp hrun
        simp only [loadProgram, loadTask, Option.bind_eq_bind, Option.bind_eq_some_iff] at hrun
        obtain ⟨s2, hheaders, s3, hstack, sched, hadd, hrun⟩ := hrun
        cases hrun
        have hfree1 := procAllocPd_free halloc
        have h1 : Cloning s pdPhys s1 := by
          refine ⟨⟨hfree1.sched, hfree1.inv, hfree1.free⟩, fun hne => ?_⟩
          exact procAllocPd_clone (s := readFile b f s) hp hres rfl (hread f) halloc hne
        have h2 : Cloning s pdPhys s2 := forRangeM_ind (Cloning s pdPhys) hheaders h1
          fun _ _ _ _ _ hturn hc => loadHeader_cloning hp hapart hc hturn
        have h3 := loadStack_cloning hp hapart h2 hstack
        have hp3 := h3.shrinks.inv hp
        -- the kernel stack was there, so there were pages until then
        have hlast : (pmmAllocPage s3.pmm).1 ≠ 0#32 := fun h0 =>
          hnozero (h0 ▸ mem_elfAsks h52 hmagic halloc hheaders hstack)
        have hne3 : (freeSet s3.pmm).Nonempty := by
          rcases pmmAllocPage_cases hp3 with ⟨_, heq⟩ | ⟨k, hk, _⟩
          · rw [heq] at hlast
            exact absurd rfl hlast
          · exact ⟨k, hk⟩
        obtain ⟨d, hpd, _, hc⟩ := h3.clone hne3
        obtain ⟨hsub4, hp4⟩ := alloc_subset hp3
        rw [h3.shrinks.sched] at hadd
        obtain ⟨hlt, hn, hpool⟩ := schedAddTask_cases hadd
        refine ⟨hn, hp4, d, ⟨hsub4.trans hc.free, ⟨hc.dir.1, fun hm => hc.dir.2 (hsub4 hm)⟩,
          hc.copied, fun e t he hk ht => ?_, hc.kept⟩, fun i hi => ?_⟩
        · obtain ⟨ho1, ho2, ho3⟩ := hc.own e t he hk ht
          exact ⟨ho1, fun hm => ho2 (hsub4 hm), ho3⟩
        · have hi' : i = ⟨s.sched.ntasks, hlt⟩ := Fin.ext hi
          show (sched.pool i).cr3.toNat = d * 4096
          rw [hi', hpool, Function.update_self]
          exact hpd

end PepinOS
