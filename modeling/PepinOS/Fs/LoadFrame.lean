import PepinOS.Fs.LoadRun

/-!
# What a load leaves alone

`elf_exec` on any file that passes the size and magic checks: where it writes,
and what it does to the address spaces that were there before. The new directory
starts as a copy of the kernel's, so its first four entries lead to the kernel's
own page tables, and `proc_map_page` writes into whatever table the entry leads to.
A `PT_LOAD` header with a page below 16 MB therefore redirects that page for the
kernel and for every task. `asksKernelPage` is that branch; `elfExec_undisturbed`
is the frame property of every run in which no header takes it, and
`elfExec_redirects` a file that does.

Runs come from `launch_tasks`, so the two demo tasks are among the address
spaces to be left alone.
-/

namespace PepinOS

/-- Program header `ph` is `PT_LOAD` and has a page below 16 MB. -/
def asksKernelPage (m : Mem) (ph : U32) : Prop :=
  pType m ph = some ptLoad ∧ ∃ pv pm, pVaddr m ph = some pv ∧ pMemsz m ph = some pm ∧
    ∃ n, (pv &&& ~~~0xFFF#32).toNat / 4096 ≤ n ∧
      n < ((pv + pm + 0xFFF#32) &&& ~~~0xFFF#32).toNat / 4096 ∧ n < 4096

/-- No header the loader comes to asks for one of the kernel's pages. -/
def LoadSafe (b : ElfBuf) (f : FileImage) (s : Loader) : Prop :=
  ∀ pdPhys s1, procAllocPd (readFile b f s) = some (pdPhys, s1) →
    ∀ i t, i < (ePhnum b s1.mem).toNat →
      forRangeM 0 i (loadHeader b pdPhys) s1 = some t →
      ¬asksKernelPage t.mem (phAddr b t.mem i)

/-! ## The loops, on any file -/

/-- No page below 16 MB has been mapped. -/
def Space.LowClear (sp : Space) : Prop := ∀ v, v < 4096 → sp.page v = none

/-- What holds in the loops. As long as pages remain, memory is as `LoadInv` says;
with `safe`, the kernel's tables have not been written. -/
structure Underway (s0 : Loader) (pdPhys : U32) (safe : Prop) (s : Loader) : Prop where
  shrinks : Shrinks s0 s
  space : (freeSet s.pmm).Nonempty →
    ∃ sp, LoadInv s0 sp s ∧ pdPhys.toNat = sp.dir * 4096 ∧ (safe → sp.LowClear)

theorem MapsPage.lowClear {sp sp' : Space} {s s' : Loader} {v : Nat} {c : Mem}
    (h : MapsPage sp s v c sp' s') (hv : 4096 ≤ v) (hlow : sp.LowClear) : sp'.LowClear := by
  intro w hw
  obtain ⟨f, hpage, _⟩ := h.page
  rw [hpage, Function.update_of_ne (by omega)]
  exact hlow w hw

section

variable {b : ElfBuf} {s0 s s' : Loader} {pdPhys : U32} {safe : Prop} (hpmm : PmmInv s0.pmm)

include hpmm

theorem loadPage_underway {ph vaddr : U32} (h : Underway s0 pdPhys safe s)
    (hrun : loadPage b pdPhys ph vaddr s = some s')
    (hsafe : safe → 4096 ≤ vaddr.toNat / 4096) : Underway s0 pdPhys safe s' := by
  have hfree := loadPage_free hrun
  refine ⟨h.shrinks.trans hfree, fun hne => ?_⟩
  obtain ⟨sp, hinv, hpd, hlow⟩ := h.space (hne.mono (hfree.free (h.shrinks.inv hpmm)))
  obtain ⟨sp', _, _, hinv', _, _, hmaps⟩ := loadPage_step hinv hpd rfl hrun hne
  exact ⟨sp', hinv', by rw [hmaps.extends_.dir]; exact hpd,
    fun hs => hmaps.lowClear (hsafe hs) (hlow hs)⟩

theorem loadStack_underway (h : Underway s0 pdPhys safe s) (hrun : loadStack pdPhys s = some s') :
    Underway s0 pdPhys safe s' := by
  have hfree := loadStack_free hrun
  refine ⟨h.shrinks.trans hfree, fun hne => ?_⟩
  obtain ⟨sp, hinv, hpd, hlow⟩ := h.space (hne.mono (hfree.free (h.shrinks.inv hpmm)))
  obtain ⟨sp', hinv', hmaps⟩ := loadStack_step hinv hpd hrun hne
  exact ⟨sp', hinv', by rw [hmaps.extends_.dir]; exact hpd,
    fun hs => hmaps.lowClear (by omega) (hlow hs)⟩

theorem loadHeader_underway {i : Nat} (h : Underway s0 pdPhys safe s)
    (hrun : loadHeader b pdPhys i s = some s')
    (hsafe : safe → ¬asksKernelPage s.mem (phAddr b s.mem i)) : Underway s0 pdPhys safe s' := by
  simp only [loadHeader, Option.bind_eq_bind, Option.bind_eq_some_iff] at hrun
  obtain ⟨ty, hty, hrun⟩ := hrun
  split at hrun
  next =>
    cases hrun
    exact h
  next hload =>
    simp only [loadSegment, Option.bind_eq_bind, Option.bind_eq_some_iff] at hrun
    obtain ⟨pv, hpv, pm, hpm, hrun⟩ := hrun
    refine forRangeM_ind (Underway s0 pdPhys safe) hrun h ?_
    intro n t t' hlo hhi ht hut
    refine loadPage_underway hpmm hut ht fun hs => ?_
    by_contra hlt
    have hn : n < 1048576 := by
      have := ((pv + pm + 0xFFF#32) &&& ~~~0xFFF#32).isLt
      omega
    rw [BitVec.toNat_ofNat] at hlt
    have htype : ty = ptLoad := by simpa using hload
    refine hsafe hs ⟨by rw [hty, htype], pv, pm, hpv, hpm, n, hlo, hhi, ?_⟩
    omega

/-- The header loop. -/
theorem loadHeaders_underway {n : Nat} (h : Underway s0 pdPhys safe s)
    (hrun : forRangeM 0 n (loadHeader b pdPhys) s = some s')
    (hsafe : safe → ∀ i t, i < n → forRangeM 0 i (loadHeader b pdPhys) s = some t →
      ¬asksKernelPage t.mem (phAddr b t.mem i)) : Underway s0 pdPhys safe s' := by
  have hloop := forRangeM_inv
    (fun i t => forRangeM 0 i (loadHeader b pdPhys) s = some t ∧ Underway s0 pdPhys safe t)
    (Nat.zero_le n) hrun ⟨rfl, h⟩ (by
      intro i t t' _ hi ht ⟨hreach, hut⟩
      exact ⟨forRangeM_snoc hreach ht,
        loadHeader_underway hpmm hut ht fun hs => hsafe hs i t hi hreach⟩)
  exact hloop.2

end

/-! ## The call -/

/-- What one call of `elf_exec` does: nothing but read the file, or register one
task whose address space is as `LoadInv` says, unless its last allocation failed. -/
theorem elfExec_cases {b : ElfBuf} {file : Option FileImage} {s s' : Loader} (h : PmmInv s.pmm)
    (hres : Reserved s.pmm) (hk : KernelDir s.mem) (hrun : elfExec b file s = some s') :
    (s'.pmm = s.pmm ∧ s'.sched = s.sched ∧
      ∀ x, ¬InRun b.addr.toNat maxElfSize x → s'.mem x = s.mem x) ∨
    ∃ f entry pdPhys kstackTop, file = some f ∧ PmmInv s'.pmm ∧ freeSet s'.pmm ⊆ freeSet s.pmm ∧
      schedAddTask s.sched entry 0x23#32 0x202#32 (userStackVirt + 0xFF0#32) 0x33#32 pdPhys
        kstackTop = some s'.sched ∧
      (kstackTop ≠ 4096#32 → ∃ sp k,
        LoadInv (readFile b f s) sp { s' with sched := s.sched } ∧ pdPhys.toNat = sp.dir * 4096 ∧
        kstackTop.toNat = k * 4096 + 4096 ∧ sp.own k = some .kstack ∧
        (LoadSafe b f s → sp.LowClear)) := by
  have hread : ∀ (f : FileImage) x, ¬InRun b.addr.toNat maxElfSize x →
      (readFile b f s).mem x = s.mem x := fun _ _ hx => readFile_other hx
  cases file with
  | none =>
    cases hrun
    exact Or.inl ⟨rfl, rfl, fun _ _ => rfl⟩
  | some f =>
    simp only [elfExec] at hrun
    split at hrun
    next =>
      cases hrun
      exact Or.inl ⟨rfl, rfl, hread f⟩
    next =>
      split at hrun
      next =>
        cases hrun
        exact Or.inl ⟨rfl, rfl, hread f⟩
      next =>
        right
        obtain ⟨⟨pdPhys, s1⟩, halloc, hrun⟩ := Option.bind_eq_some_iff.mp hrun
        simp only [loadProgram, loadTask, Option.bind_eq_bind, Option.bind_eq_some_iff] at hrun
        obtain ⟨s2, hheaders, s3, hstack, sched, hadd, hrun⟩ := hrun
        cases hrun
        have hpmm0 : PmmInv (readFile b f s).pmm := h
        have hk0 : KernelDir (readFile b f s).mem := readFile_kernelDir hk
        have hfree1 := procAllocPd_free halloc
        have h1 : Underway (readFile b f s) pdPhys (LoadSafe b f s) s1 := by
          refine ⟨hfree1, fun hne => ?_⟩
          rcases procAllocPd_step hpmm0 hres hk0 (hne.mono (hfree1.free hpmm0)) with
            ⟨hnone, _⟩ | ⟨pd, t, k, hsome, hinv, hpd, _⟩
          · rw [hnone] at halloc
            cases halloc
          · rw [hsome] at halloc
            cases halloc
            exact ⟨freshSpace k, hinv, hpd, fun _ _ _ => rfl⟩
        have h2 := loadHeaders_underway hpmm0 h1 hheaders fun hs => hs pdPhys s1 halloc
        have h3 := loadStack_underway hpmm0 h2 hstack
        have hpmm3 := h3.shrinks.inv hpmm0
        have hsched : s3.sched = s.sched := h3.shrinks.sched
        obtain ⟨hsub4, hpmm4⟩ := alloc_subset hpmm3
        rw [hsched] at hadd
        refine ⟨f, _, pdPhys, _, rfl, hpmm4, hsub4.trans (h3.shrinks.free hpmm0), hadd, ?_⟩
        intro htop
        -- the kernel stack was there, so every page asked for before was
        have hne : (freeSet s3.pmm).Nonempty := by
          rcases pmmAllocPage_cases hpmm3 with ⟨_, heq⟩ | ⟨k, hkf, _⟩
          · rw [heq] at htop
            exact absurd rfl htop
          · exact ⟨k, hkf⟩
        obtain ⟨sp, hinv, hpd, hlow⟩ := h3.space hne
        obtain ⟨k, hkf, _, haddr, hset, _⟩ := alloc_some hpmm3 hne
        have hklt := PmmInv.lt_maxPages hpmm3 hkf
        have hclaim : LoadInv (readFile b f s) (sp.claim k .kstack)
            { mem := s3.mem, pmm := (pmmAllocPage s3.pmm).2, sched := s.sched } := by
          rw [← hsched]
          exact hinv.claim hkf hset hpmm4 (fun hc => absurd rfl hc) (fun _ _ => rfl)
        refine ⟨sp.claim k .kstack, k, hclaim, hpd, ?_, Function.update_self .., hlow⟩
        rw [BitVec.toNat_add, haddr, BitVec.toNat_ofNat]
        unfold pmmMaxPages at hklt
        omega

/-! ## The frame property -/

/-- The load did not run out of pages: for the kernel stack, the last it takes,
`pmm_alloc_page` returned an address. -/
def Allocated (s s' : Loader) : Prop :=
  ∀ i : Fin 8, i.val = s.sched.ntasks → i.val < s'.sched.ntasks →
    (s'.sched.pool i).kstackTop ≠ 4096#32

/-- From `s` to `s'` the address spaces of `s` and everything not free in `s` are as
they were, the file buffer excepted. -/
structure Undisturbed (b : ElfBuf) (s s' : Loader) : Prop where
  kernel : ∀ v, translate s'.mem kernelCr3 v = translate s.mem kernelCr3 v
  tasks : ∀ i : Fin 8, i.val < s.sched.ntasks → s'.sched.pool i = s.sched.pool i ∧
    ∀ v, translate s'.mem (s.sched.pool i).cr3 v = translate s.mem (s.sched.pool i).cr3 v
  frames : ∀ x, x / 4096 ∉ freeSet s.pmm → ¬InRun b.addr.toNat maxElfSize x → s'.mem x = s.mem x

/-- What a call of `elf_exec` that registers a task has done, its last allocation
included: the new task is on `pdPhys`, the directory of `sp`. -/
structure Joined (b : ElfBuf) (f : FileImage) (pdPhys : U32) (sp : Space) (s s' : Loader) :
    Prop where
  pmm : PmmInv s'.pmm
  free : freeSet s'.pmm ⊆ freeSet s.pmm
  ntasks : s'.sched.ntasks = s.sched.ntasks + 1
  tasks : ∀ i : Fin 8, i.val ≠ s.sched.ntasks → s'.sched.pool i = s.sched.pool i
  cr3 : ∀ i : Fin 8, i.val = s.sched.ntasks → (s'.sched.pool i).cr3 = pdPhys
  inv : LoadInv (readFile b f s) sp { s' with sched := s.sched }
  dir : pdPhys.toNat = sp.dir * 4096
  low : LoadSafe b f s → sp.LowClear

/-- One call that did not run out of pages. -/
theorem elfExec_joins {b : ElfBuf} {file : Option FileImage} {s s' : Loader} (h : PmmInv s.pmm)
    (hres : Reserved s.pmm) (hk : KernelDir s.mem) (hrun : elfExec b file s = some s')
    (halloc : Allocated s s') :
    (s'.pmm = s.pmm ∧ s'.sched = s.sched ∧
      ∀ x, ¬InRun b.addr.toNat maxElfSize x → s'.mem x = s.mem x) ∨
    ∃ f pdPhys sp, file = some f ∧ Joined b f pdPhys sp s s' := by
  rcases elfExec_cases h hres hk hrun with
    hkept | ⟨f, entry, pdPhys, kstackTop, hfile, hpmm, hsub, hadd, hload⟩
  · exact .inl hkept
  · right
    obtain ⟨hlt, hn, hpool⟩ := schedAddTask_cases hadd
    have hself : ∀ i : Fin 8, i.val = s.sched.ntasks → s'.sched.pool i =
        newTask entry 0x23#32 0x202#32 (userStackVirt + 0xFF0#32) 0x33#32 pdPhys kstackTop := by
      intro i hi
      rw [show i = ⟨s.sched.ntasks, hlt⟩ from Fin.ext hi, hpool, Function.update_self]
    have htop : kstackTop ≠ 4096#32 := by
      have hk := halloc ⟨s.sched.ntasks, hlt⟩ rfl (by rw [hn]; exact Nat.lt_succ_self _)
      rw [hself _ rfl] at hk
      exact hk
    obtain ⟨sp, _, hinv, hpd, _, _, hlow⟩ := hload htop
    refine ⟨f, pdPhys, sp, hfile, hpmm, hsub, hn, fun i hi => ?_, fun i hi => ?_, hinv, hpd, hlow⟩
    · rw [hpool, Function.update_of_ne]
      exact fun heq => hi (congrArg Fin.val heq)
    · rw [hself i hi]
      rfl

/-- A load leaves what was not free alone, the kernel's tables apart. -/
theorem LoadInv.kept_apart {s0 s : Loader} {sp : Space} (h : LoadInv s0 sp s) {x : Nat}
    (hx : x / 4096 ∉ freeSet s0.pmm) (hsh : ¬InShared x) : s.mem x = s0.mem x := by
  refine h.mem_kept x ?_ hsh
  cases ho : sp.own (x / 4096) with
  | none => rfl
  | some r => exact absurd (h.own_taken _ r ho).1 hx

/-- A load that stayed out of the kernel's tables wrote only pages that were free. -/
theorem LoadInv.kept {s0 s : Loader} {sp : Space} (h : LoadInv s0 sp s) (hlow : sp.LowClear)
    {x : Nat} (hx : x / 4096 ∉ freeSet s0.pmm) : s.mem x = s0.mem x := by
  by_cases hsh : InShared x
  · exact h.shared_kept hlow x hsh
  · exact h.kept_apart hx hsh

/-- The directory of a load is settled when the load is done. -/
theorem LoadInv.settled {s0 s : Loader} {sp : Space} (h : LoadInv s0 sp s) {cr3 : U32}
    (hcr3 : cr3.toNat = sp.dir * 4096) : Settled s.pmm s.mem cr3 := by
  have hpg : cr3.toNat / 4096 = sp.dir := by omega
  have hdir := h.dir_ge
  refine ⟨?_, fun e t he ht => ?_⟩
  · rw [hpg]
    exact ⟨by omega, (h.own_taken _ _ h.dir_own).2.1⟩
  · rw [h.tableFrame_eq hcr3 he] at ht
    rcases h.tab_cases ht with ⟨he4, hs⟩ | ⟨_, ho⟩
    · unfold sharedTable kernelPtAddr at hs
      refine ⟨by omega, fun hm => ?_⟩
      have := h.free_ge hm
      omega
    · have := h.own_low ho
      exact ⟨by omega, (h.own_taken _ _ ho).2.1⟩

/-- One call: the machine stays ready, and what was there is undisturbed. -/
theorem elfExec_ready {b : ElfBuf} {file : Option FileImage} {s s' : Loader} (h : Ready s)
    (hsafe : ∀ f, file = some f → LoadSafe b f s) (hrun : elfExec b file s = some s')
    (halloc : Allocated s s') : Ready s' ∧ Undisturbed b s s' := by
  -- all follows from what is kept and from the settledness of a new task
  have hkey : PmmInv s'.pmm → freeSet s'.pmm ⊆ freeSet s.pmm →
      (∀ x, x / 4096 ∉ freeSet s.pmm → ¬InRun b.addr.toNat maxElfSize x → s'.mem x = s.mem x) →
      (∀ i : Fin 8, i.val < s.sched.ntasks → s'.sched.pool i = s.sched.pool i) →
      (∀ i : Fin 8, i.val < s'.sched.ntasks → i.val < s.sched.ntasks ∨
        Settled s'.pmm s'.mem (s'.sched.pool i).cr3) → Ready s' ∧ Undisturbed b s s' := by
    intro hpmm hsub hmem hold hnew
    have hhigh : ∀ x, 512 ≤ x / 4096 → x / 4096 ∉ freeSet s.pmm → s'.mem x = s.mem x :=
      fun x hx hfree => hmem x hfree (b.notMem_high hx)
    have hkernel : KernelDir s'.mem := kernelDir_congr h.kernel fun x hx => hhigh x (by omega)
      (fun hm => by have := h.reserved _ hm; omega)
    refine ⟨⟨hpmm, fun k hk => h.reserved k (hsub hk), hkernel, fun i hi => ?_⟩, ⟨?_, ?_, hmem⟩⟩
    · rcases hnew i hi with hlt | hset
      · rw [hold i hlt]
        exact ((h.tasks i hlt).keep hsub hhigh).1
      · exact hset
    · exact ((settled_kernel h.reserved h.kernel).keep hsub hhigh).2
    · exact fun i hi => ⟨hold i hi, ((h.tasks i hi).keep hsub hhigh).2⟩
  rcases elfExec_joins h.pmm h.reserved h.kernel hrun halloc with
    ⟨hpmm, hsched, hmem⟩ | ⟨f, pdPhys, sp, hfile, hj⟩
  · refine hkey (by rw [hpmm]; exact h.pmm) (by rw [hpmm]) (fun x _ hx => hmem x hx)
      (fun i _ => by rw [hsched]) (fun i hi => Or.inl (by rw [← hsched]; exact hi))
  · refine hkey hj.pmm hj.free ?_ ?_ ?_
    · intro x hx hbuf
      have hkept : s'.mem x = (readFile b f s).mem x := hj.inv.kept (hj.low (hsafe f hfile)) hx
      exact hkept.trans (readFile_other hbuf)
    · exact fun i hi => hj.tasks i (Nat.ne_of_lt hi)
    · intro i hi
      rw [hj.ntasks] at hi
      rcases Nat.lt_or_ge i.val s.sched.ntasks with hi' | hi'
      · exact Or.inl hi'
      · right
        rw [hj.cr3 i (by omega)]
        exact hj.inv.settled hj.dir

/-- Calls of `elf_exec` from `s0` on, none of which asks for one of the kernel's
pages or runs out of pages. -/
inductive LoadRun (b : ElfBuf) (s0 : Loader) : Loader → Prop where
  | start : LoadRun b s0 s0
  | call {file : Option FileImage} {s s' : Loader} : LoadRun b s0 s →
      (∀ f, file = some f → LoadSafe b f s) → elfExec b file s = some s' → Allocated s s' →
      LoadRun b s0 s'

theorem LoadRun.ready {b : ElfBuf} {s0 s : Loader} (hrun : LoadRun b s0 s) (h0 : Ready s0) :
    Ready s := by
  induction hrun with
  | start => exact h0
  | call _ hsafe hexec halloc ih => exact (elfExec_ready ih hsafe hexec halloc).1

/-- **Loading a program disturbs nobody**, in any run of loads after `launch_tasks`
in which no header asks for a page below 16 MB: each call leaves every
translation of the kernel and of the tasks already there, and every frame that was
not free, as it was. -/
theorem elfExec_undisturbed {userTask userTaskB : Nat} {m : Mem} {memSize : U32}
    {pool : Fin 8 → Task} {s0 s s' : Loader} {b : ElfBuf} {file : Option FileImage}
    (hboot : launchTasks userTask userTaskB (freshLoader m memSize pool) = some s0)
    (hrun : LoadRun b s0 s) (hsafe : ∀ f, file = some f → LoadSafe b f s)
    (hexec : elfExec b file s = some s') (halloc : Allocated s s') : Undisturbed b s s' := by
  have hready : Ready s0 := (launchTasks_ready (freshLoader_ready m memSize pool)
    (freshLoader_ntasks m memSize pool) hboot).1
  exact (elfExec_ready (hrun.ready hready) hsafe hexec halloc).2

/-! ## A load that does disturb -/

/-- A well-formed file above the kernel is safe to load. -/
theorem loadSafe_of_above (b : ElfBuf) {f : FileImage} {s : Loader} (hf : Loadable f)
    (habove : AboveKernel f) (hpmm : PmmInv s.pmm) (hres : Reserved s.pmm)
    (hk : KernelDir s.mem) (hfree : f.frames ≤ (lowFree s.pmm).card) : LoadSafe b f s := by
  have hb := readFile_inBuffer b f s
  intro pdPhys s1 halloc i t hi hreach ⟨hty, pv, pm, hpv, hpm, n, hlo, hhi, hlow⟩
  obtain ⟨pd, t1, d, halloc', h1⟩ := procAllocPd_total b hpmm hres hk hfree
  rw [halloc] at halloc'
  cases halloc'
  rw [ePhnum_of_complete (h1.inv.inBuffer hb) hf.complete] at hi
  obtain ⟨t', sp, hreach', ht⟩ := loadHeaders_total hf hb h1 (Nat.le_of_lt hi)
  rw [hreach] at hreach'
  cases hreach'
  -- the header the loader reads is the one in the file
  have hbuf := ht.inv.inBuffer hb
  have hph := phAddr_of_complete hbuf hf.complete hi
  have hty' : pType t.mem (phAddr b t.mem i) = some (load32 f.mem (f.phoff i)) := by
    have hfield := kload32_header hbuf hf.complete hi hph (k := 0) (by omega)
    rw [BitVec.add_zero] at hfield
    exact hfield
  have hpv' : pVaddr t.mem (phAddr b t.mem i) = some (load32 f.mem (f.phoff i + 8)) :=
    kload32_header hbuf hf.complete hi hph (by omega)
  have hpm' : pMemsz t.mem (phAddr b t.mem i) = some (load32 f.mem (f.phoff i + 20)) :=
    kload32_header hbuf hf.complete hi hph (by omega)
  rw [hty] at hty'
  rw [hpv] at hpv'
  rw [hpm] at hpm'
  have hl : f.isLoad i = true := beq_iff_eq.mpr (Option.some.inj hty').symm
  have hv : (f.segment i).vaddr = pv.toNat := by rw [Option.some.inj hpv']; rfl
  have hm : (f.segment i).memsz = pm.toNat := by rw [Option.some.inj hpm']; rfl
  have hwrap := (hf.segment i hi hl).no_wrap
  have hpage : n ∈ (f.segment i).pages := by
    rw [Segment.pages, Finset.mem_Ico, hv, hm]
    rw [hv, hm] at hwrap
    rw [toNat_and_not_fff] at hlo hhi
    rw [BitVec.toNat_add, BitVec.toNat_add, BitVec.toNat_ofNat] at hhi
    omega
  have := habove i hi hl n hpage
  omega

/-- The kernel's directory is not written by a load. -/
theorem LoadInv.kernelDir {s0 s : Loader} {sp : Space} (h : LoadInv s0 sp s)
    (hk : KernelDir s0.mem) : KernelDir s.mem := by
  refine kernelDir_congr hk fun x hx => h.mem_kept x ?_ ?_
  · cases ho : sp.own (x / 4096) with
    | none => rfl
    | some r =>
      have := h.own_low ho
      omega
  · unfold InShared sharedTable kernelPtAddr
    omega

/-- **A page below 16 MB is redirected for everyone.** If the load mapped it, the
kernel's own translation of it is now the program's frame. -/
theorem LoadInv.redirects {s0 s : Loader} {sp : Space} (h : LoadInv s0 sp s)
    (hk : KernelDir s0.mem) {v f : Nat} (hv : v < 4096) (hp : sp.page v = some f) :
    pageFrame s.mem kernelCr3 v = some f := by
  have hword := h.tab_word (v / 1024) _ (by omega) (h.tab_shared _ (by omega)) (v % 1024) (by omega)
  rw [show v / 1024 * 1024 + v % 1024 = v by omega, hp] at hword
  unfold pageFrame
  rw [kernel_tableFrame (h.kernelDir hk) (by omega), Option.bind_some]
  exact entryFrame_entry hword

theorem Loaded.allocated {b : ElfBuf} {f : FileImage} {s s' : Loader} {sp : Space} {t : Task}
    (h : Loaded b f s s' sp t) : Allocated s s' := by
  intro i hi _
  obtain ⟨k, hk, ho⟩ := h.kstack
  have := h.inv.own_low ho
  rw [h.task i hi]
  intro heq
  rw [heq, BitVec.toNat_ofNat] at hk
  omega

/-- The file above, loaded after `launch_tasks` on a 32 MB machine: the two demo
tasks and the kernel keep their address spaces. -/
theorem elfExec_undisturbed_oneSegment : ∃ s s',
    launchTasks 0x100000 0x100400 (freshLoader (fun _ => 0#8) 0x2000000#32
      (fun _ => newTask 0 0 0 0 0 0 0)) = some s ∧
    elfExec lowBuf (some oneSegment) s = some s' ∧ Undisturbed lowBuf s s' := by
  obtain ⟨s, hboot⟩ := @launchTasks_some 0x100000 0x100400 (freshLoader (fun _ => 0#8) 0x2000000#32
    (fun _ => newTask 0 0 0 0 0 0 0)) (freshLoader_ntasks _ _ _)
  obtain ⟨hready, hpmm, hn, _⟩ := launchTasks_ready (freshLoader_ready _ _ _)
    (freshLoader_ntasks _ _ _) hboot
  have hlow : oneSegment.frames ≤ (lowFree s.pmm).card := by
    have hframes := oneSegment_frames
    rw [hpmm, freshLoader_pmm, lowFree_pmmInit]
    omega
  have hn8 : s.sched.ntasks < maxTasks := by
    rw [hn]
    exact Nat.succ_lt_succ (Nat.succ_lt_succ (Nat.zero_lt_succ 5))
  obtain ⟨s', sp, t, hload⟩ := elfExec_loaded lowBuf oneSegment_loadable hready.pmm
    hready.reserved hready.kernel hn8 hlow
  have hsafe : ∀ f, some oneSegment = some f → LoadSafe lowBuf f s := by
    intro f hf
    cases hf
    exact loadSafe_of_above lowBuf oneSegment_loadable oneSegment_above hready.pmm hready.reserved
      hready.kernel hlow
  exact ⟨s, s', hboot, hload.run, elfExec_undisturbed hboot .start hsafe hload.run hload.allocated⟩

/-- The same program linked at `0x380000`, below 16 MB. -/
def lowSegment : FileImage where
  bytes := [
    0x7F, 0x45, 0x4C, 0x46, 1, 1, 1, 0, 0, 0, 0, 0, 0, 0, 0, 0,
    2, 0, 3, 0, 1, 0, 0, 0, 0x34, 0, 0x38, 0, 0x34, 0, 0, 0,
    0, 0, 0, 0, 0, 0, 0, 0, 0x34, 0, 0x20, 0, 1, 0, 0, 0, 0, 0, 0, 0,
    1, 0, 0, 0, 0, 0, 0, 0, 0, 0, 0x38, 0, 0, 0, 0x38, 0,
    0x54, 0, 0, 0, 0x88, 0x13, 0, 0, 5, 0, 0, 0, 0, 0x10, 0, 0]
  size_le := by unfold maxElfSize; simp

theorem lowSegment_segment : lowSegment.segment 0 = ⟨0, 0x380000, 84, 5000⟩ := rfl

theorem lowSegment_pages : (lowSegment.segment 0).pages = {0x380, 0x381} := by
  rw [lowSegment_segment]
  rfl

theorem lowSegment_loadable : Loadable lowSegment := by
  refine .of_one rfl (by decide) (by decide) (by decide)
    ⟨by decide, by decide, by decide, by decide, ?_⟩
  rw [lowSegment_pages]
  decide

theorem lowSegment_frames : lowSegment.frames ≤ 8 := frames_le_eight rfl

/-- Loading it after `launch_tasks`, with pages to spare, changes what the kernel's
own directory maps `0x380000` to. -/
theorem elfExec_redirects : ∃ s s',
    launchTasks 0x100000 0x100400 (freshLoader (fun _ => 0#8) 0x2000000#32
      (fun _ => newTask 0 0 0 0 0 0 0)) = some s ∧
    elfExec lowBuf (some lowSegment) s = some s' ∧ Allocated s s' ∧
    translate s.mem kernelCr3 0x380000#32 = some 0x380000 ∧
    translate s'.mem kernelCr3 0x380000#32 ≠ some 0x380000 ∧ ¬Undisturbed lowBuf s s' := by
  obtain ⟨s, hboot⟩ := @launchTasks_some 0x100000 0x100400 (freshLoader (fun _ => 0#8) 0x2000000#32
    (fun _ => newTask 0 0 0 0 0 0 0)) (freshLoader_ntasks _ _ _)
  obtain ⟨hready, hpmm, hn, _, _, hmem⟩ := launchTasks_ready (freshLoader_ready _ _ _)
    (freshLoader_ntasks _ _ _) hboot
  have hlow : lowSegment.frames ≤ (lowFree s.pmm).card := by
    have hframes := lowSegment_frames
    rw [hpmm, freshLoader_pmm, lowFree_pmmInit]
    omega
  have hn8 : s.sched.ntasks < maxTasks := by
    rw [hn]
    exact Nat.succ_lt_succ (Nat.succ_lt_succ (Nat.zero_lt_succ 5))
  obtain ⟨s', sp, t, hload⟩ := elfExec_loaded lowBuf lowSegment_loadable hready.pmm
    hready.reserved hready.kernel hn8 hlow
  have hpage : (0x380000#32 : U32).toNat / 4096 = 0x380 := rfl
  have hoff : (0x380000#32 : U32).toNat % 4096 = 0 := rfl
  -- before: the identity map of `init_paging`
  have hbefore : translate s.mem kernelCr3 0x380000#32 = some 0x380000 := by
    have htabs : KernelTables s.mem := by
      intro i hi
      have hword : word s.mem kernelPtAddr i = word (initPaging (fun _ => 0#8)) kernelPtAddr i := by
        rw [← freshLoader_mem (fun _ => 0#8) 0x2000000#32 (fun _ => newTask 0 0 0 0 0 0 0)]
        refine word_congr hi fun x hx => hmem x ?_
        unfold InRun kernelPtAddr at hx
        omega
      rw [hword]
      exact (initPaging_spec _).2 i hi
    rw [translate_eq_pageFrame, hpage, hoff, kernel_pageFrame hready.kernel htabs (by omega)]
    rfl
  -- after: the program's frame, which is none of the first 4 MB
  have hafter : translate s'.mem kernelCr3 0x380000#32 ≠ some 0x380000 := by
    obtain ⟨f, hf, _⟩ := hload.mapped 0x380 (by decide)
    have hlow1 := hload.inv.own_low (hload.inv.page_own _ _ hf)
    have hpf : pageFrame s'.mem kernelCr3 0x380 = some f :=
      hload.inv.redirects (readFile_kernelDir hready.kernel) (by omega) hf
    rw [translate_eq_pageFrame, hpage, hpf, hoff]
    intro heq
    have haddr : f * 4096 + 0 = 0x380000 := Option.some.inj heq
    omega
  have halloc : Allocated s s' := hload.allocated
  exact ⟨s, s', hboot, hload.run, halloc, hbefore, hafter,
    fun hund => hafter ((hund.kernel _).trans hbefore)⟩

end PepinOS
