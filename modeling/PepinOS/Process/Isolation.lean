import PepinOS.Fs.LoadFrame

/-!
# Are the tasks' memory spaces isolated?

`init_paging` maps the first 16 MB to itself *with the user bit*, in the directory
entries and in the tables, and both `create_task_space` and `elf_exec` put those
entries into every new directory (a comment in `create_task_space` says why: the
kernel runs on the task's `CR3` during a system call). All frames are among these
16 MB. So a task in ring 3 reaches every other task's frames, and the kernel's own
directory, at their physical addresses.

`Isolated` is the property that step 12 of the README names. `isolated_iff` is
what is left of it: it holds of every run of creations that made at most one task,
and of no other. The address that shows it is 0x200000, the kernel's directory. A
program linked there redirects it for everyone to a frame of its own; then that
frame is what the others can reach.
-/

namespace PepinOS

/-- A created task: its directory, and the frames that are its own (code, data, user
stack, kernel stack, directory, tables). -/
structure Member where
  cr3 : U32
  frames : Finset Nat

/-- The pages of the kernel's directory and of its four tables. -/
def kernelPages : Finset Nat := Finset.Ico 0x200 0x205

/-- No task can reach, from ring 3, a frame of another or the kernel's tables. -/
def Isolated (m : Mem) (ts : List Member) : Prop :=
  ∀ i j (hi : i < ts.length) (hj : j < ts.length), i ≠ j → ∀ v : U32,
    userAccess m ts[i].cr3 v = true → ∀ pa, translate m ts[i].cr3 v = some pa →
      pa / 4096 ∉ ts[j].frames ∧ pa / 4096 ∉ kernelPages

/-- The pages handed to `create_task_space` are as its callers choose them: fixed
ones above the kernel's tables, no two the same, in nobody's use, and not the
allocator's. -/
structure FreshPages (s : Loader) (ts : List Member) (code stack pd pt kstack : Nat) : Prop where
  distinct : [code, stack, pd, pt, kstack].Nodup
  above : ∀ k ∈ [code, stack, pd, pt, kstack], 0x205 ≤ k
  unowned : ∀ k ∈ [code, stack, pd, pt, kstack], ∀ t ∈ ts, k ∉ t.frames
  notFree : ∀ k ∈ [code, stack, pd, pt, kstack], k ∉ freeSet s.pmm

theorem FreshPages.tables_ne {s : Loader} {ts : List Member} {code stack pd pt kstack : Nat}
    (h : FreshPages s ts code stack pd pt kstack) : pd ≠ pt := by
  have hd := h.distinct
  simp only [List.nodup_cons, List.mem_cons, not_or] at hd
  exact hd.2.2.1.1

/-- The machine and the tasks created so far, after `init_paging` and `pmm_init`, in
any sequence of `create_task_space` (its code copied first) and `elf_exec` calls,
as long as the allocator has pages. -/
inductive Created (b : ElfBuf) : Loader → List Member → Prop where
  | boot (m : Mem) (memSize : U32) (pool : Fin 8 → Task) :
      Created b (freshLoader m memSize pool) []
  | space {s : Loader} {ts : List Member} {src : Nat} {mem : Mem}
      {codePhys stackPhys codeVirt stackVirt pdAddr ptAddr : U32} {code stack pd pt kstack : Nat} :
      Created b s ts → FreshPages s ts code stack pd pt kstack →
      codePhys.toNat = code * 4096 → stackPhys.toNat = stack * 4096 →
      pdAddr.toNat = pd * 4096 → ptAddr.toNat = pt * 4096 →
      createTaskSpace (copyTask src codePhys s.mem) codePhys stackPhys codeVirt stackVirt pdAddr
        ptAddr = some mem →
      Created b { s with mem := mem } (ts ++ [⟨pdAddr, {code, stack, pd, pt, kstack}⟩])
  | refused {s s' : Loader} {ts : List Member} {file : Option FileImage} :
      Created b s ts → elfExec b file s = some s' → s'.sched.ntasks = s.sched.ntasks →
      Created b s' ts
  | load {s s' : Loader} {ts : List Member} {file : Option FileImage} {i : Fin 8} :
      Created b s ts → elfExec b file s = some s' → i.val = s.sched.ntasks →
      s'.sched.ntasks = s.sched.ntasks + 1 → Allocated s s' →
      Created b s' (ts ++ [⟨(s'.sched.pool i).cr3, freeSet s.pmm \ freeSet s'.pmm⟩])

/-- Page 0x200 as the first shared table maps it: to itself, or to a frame of some task. -/
def Redirected (m : Mem) (ts : List Member) : Prop :=
  (word m (sharedTable 0 * 4096) 0x200).toNat = 0x200 * 4096 + 7 ∨
    ∃ t ∈ ts, ∃ f ∈ t.frames, (word m (sharedTable 0 * 4096) 0x200).toNat = f * 4096 + 7

/-- What holds after every creation: each directory leads to the kernel's first
table, and lies where later creations do not write. -/
structure SharedInv (s : Loader) (ts : List Member) : Prop where
  pmm : PmmInv s.pmm
  reserved : Reserved s.pmm
  kernel : KernelDir s.mem
  entry : Redirected s.mem ts
  dir : ∀ t ∈ ts, (word s.mem (t.cr3.toNat / 4096 * 4096) 0).toNat = sharedTable 0 * 4096 + 7
  dir_own : ∀ t ∈ ts, t.cr3.toNat / 4096 ∈ t.frames
  dir_above : ∀ t ∈ ts, 0x205 ≤ t.cr3.toNat / 4096
  dir_kept : ∀ t ∈ ts, t.cr3.toNat / 4096 ∉ freeSet s.pmm

theorem Redirected.congr {m m' : Mem} {ts : List Member} (h : Redirected m ts)
    (hm : ∀ x, x / 4096 = sharedTable 0 → m' x = m x) : Redirected m' ts := by
  have hword : word m' (sharedTable 0 * 4096) 0x200 = word m (sharedTable 0 * 4096) 0x200 :=
    word_page_congr (by omega) hm
  unfold Redirected
  rw [hword]
  exact h

theorem Redirected.append {m : Mem} {ts : List Member} (h : Redirected m ts) (u : Member) :
    Redirected m (ts ++ [u]) := by
  rcases h with h | ⟨t, ht, hf⟩
  · exact Or.inl h
  · exact Or.inr ⟨t, List.mem_append_left _ ht, hf⟩

/-- Memory that keeps the kernel's directory and the tasks' directories keeps the
invariant, for the tasks that were there and for those that join with their
directory in place. -/
theorem SharedInv.step {s s' : Loader} {ts us : List Member} (h : SharedInv s ts)
    (hpmm : PmmInv s'.pmm) (hsub : freeSet s'.pmm ⊆ freeSet s.pmm)
    (hk : ∀ x, x / 4096 = 0x200 → s'.mem x = s.mem x)
    (hd : ∀ t ∈ ts, ∀ x, x / 4096 = t.cr3.toNat / 4096 → s'.mem x = s.mem x)
    (hentry : Redirected s'.mem (ts ++ us))
    (hnew : ∀ u ∈ us,
      (word s'.mem (u.cr3.toNat / 4096 * 4096) 0).toNat = sharedTable 0 * 4096 + 7 ∧
      u.cr3.toNat / 4096 ∈ u.frames ∧ 0x205 ≤ u.cr3.toNat / 4096 ∧
      u.cr3.toNat / 4096 ∉ freeSet s'.pmm) : SharedInv s' (ts ++ us) where
  pmm := hpmm
  reserved := fun k hk => h.reserved k (hsub hk)
  kernel := kernelDir_congr h.kernel hk
  entry := hentry
  dir := by
    intro t ht
    rcases List.mem_append.mp ht with ht | ht
    · rw [word_page_congr (by omega) (hd t ht)]
      exact h.dir t ht
    · exact (hnew t ht).1
  dir_own := by
    intro t ht
    rcases List.mem_append.mp ht with ht | ht
    · exact h.dir_own t ht
    · exact (hnew t ht).2.1
  dir_above := by
    intro t ht
    rcases List.mem_append.mp ht with ht | ht
    · exact h.dir_above t ht
    · exact (hnew t ht).2.2.1
  dir_kept := by
    intro t ht hm
    rcases List.mem_append.mp ht with ht | ht
    · exact h.dir_kept t ht (hsub hm)
    · exact (hnew t ht).2.2.2 hm

/-- `create_task_space` with fresh pages. -/
theorem space_inv {s : Loader} {ts : List Member} {src : Nat} {mem : Mem}
    {codePhys stackPhys codeVirt stackVirt pdAddr ptAddr : U32} {code stack pd pt kstack : Nat}
    (h : SharedInv s ts) (hfresh : FreshPages s ts code stack pd pt kstack)
    (hcode : codePhys.toNat = code * 4096) (hpd : pdAddr.toNat = pd * 4096)
    (hpt : ptAddr.toNat = pt * 4096)
    (hrun : createTaskSpace (copyTask src codePhys s.mem) codePhys stackPhys codeVirt stackVirt
      pdAddr ptAddr = some mem) :
    SharedInv { s with mem := mem } (ts ++ [⟨pdAddr, {code, stack, pd, pt, kstack}⟩]) := by
  have hcode' := hfresh.above code (by simp)
  have hpd' := hfresh.above pd (by simp)
  have hpt' := hfresh.above pt (by simp)
  have hne := hfresh.tables_ne
  have hwords := (createTaskSpace_spec hpd hpt hne (by omega) (by omega) hrun).2
  have hmem : ∀ x, x / 4096 ≠ code → x / 4096 ≠ pd → x / 4096 ≠ pt → mem x = s.mem x := fun x =>
    taskSpace_other hcode hpd hpt hne (by omega) (by omega) hrun
  have hpg : pdAddr.toNat / 4096 = pd := by omega
  have hentry : Redirected mem ts := h.entry.congr fun x hx => by
    unfold sharedTable kernelPtAddr at hx
    exact hmem x (by omega) (by omega) (by omega)
  refine h.step h.pmm (Finset.Subset.refl _)
    (fun x hx => hmem x (by omega) (by omega) (by omega)) (fun t ht x hx => ?_) (hentry.append _)
    (fun u hu => ?_)
  · -- the directory of `t` is none of the fresh pages
    have hnot : ∀ k ∈ [code, stack, pd, pt, kstack], x / 4096 ≠ k := by
      intro k hk heq
      have hown := h.dir_own t ht
      rw [← hx, heq] at hown
      exact hfresh.unowned k hk t ht hown
    exact hmem x (hnot code (by simp)) (hnot pd (by simp)) (hnot pt (by simp))
  rw [List.mem_singleton.mp hu]
  refine ⟨?_, ?_, ?_, ?_⟩
  · show (word mem (pdAddr.toNat / 4096 * 4096) 0).toNat = _
    rw [hpg, hwords 0 (by omega), if_neg (by omega), if_pos (by omega)]
    have hk : word (copyTask src codePhys s.mem) kernelPdAddr 0 = word s.mem kernelPdAddr 0 := by
      refine word_congr (n := 1024) (by omega) fun x hx => copyTask_other hcode ?_
      unfold InRun kernelPdAddr at hx
      omega
    rw [hk, h.kernel 0 (by omega)]
    rfl
  · show pdAddr.toNat / 4096 ∈ ({code, stack, pd, pt, kstack} : Finset Nat)
    rw [hpg]
    simp
  · show 0x205 ≤ pdAddr.toNat / 4096
    rw [hpg]
    exact hpd'
  · show pdAddr.toNat / 4096 ∉ freeSet s.pmm
    rw [hpg]
    exact hfresh.notFree pd (by simp)

/-- A call of `elf_exec`, whatever it did. -/
theorem elfExec_shared {b : ElfBuf} {file : Option FileImage} {s s' : Loader} {ts : List Member}
    (h : SharedInv s ts) (hrun : elfExec b file s = some s') (halloc : Allocated s s') :
    (s'.sched.ntasks = s.sched.ntasks ∧ SharedInv s' ts) ∨
    (s'.sched.ntasks = s.sched.ntasks + 1 ∧ ∀ i : Fin 8, i.val = s.sched.ntasks →
      SharedInv s' (ts ++ [⟨(s'.sched.pool i).cr3, freeSet s.pmm \ freeSet s'.pmm⟩])) := by
  rcases elfExec_joins h.pmm h.reserved h.kernel hrun halloc with
    ⟨hpmm, hsched, hmem⟩ | ⟨f, pdPhys, sp, _, hj⟩
  · left
    have hhigh : ∀ x, 512 ≤ x / 4096 → s'.mem x = s.mem x := fun x hx =>
      hmem x (b.notMem_high hx)
    have hentry : Redirected s'.mem ts := h.entry.congr fun x hx => hhigh x (by
      rw [hx]
      exact Nat.le_succ 512)
    have hstep : SharedInv s' (ts ++ []) := by
      refine h.step (by rw [hpmm]; exact h.pmm) (by rw [hpmm]) (fun x hx => hhigh x (by omega))
        (fun t ht x hx => ?_) (by rw [List.append_nil]; exact hentry)
        (fun u hu => absurd hu List.not_mem_nil)
      have := h.dir_above t ht
      exact hhigh x (by omega)
    rw [List.append_nil] at hstep
    exact ⟨by rw [hsched], hstep⟩
  · right
    refine ⟨hj.ntasks, fun i hi => ?_⟩
    have hinv := hj.inv
    have hpd := hj.dir
    -- pages in use before the load, the shared tables apart, are as before
    have hkept : ∀ x, 512 ≤ x / 4096 → x / 4096 ∉ freeSet s.pmm → ¬InShared x →
        s'.mem x = s.mem x := fun x hx hfree hsh =>
      (hinv.kept_apart hfree hsh).trans (readFile_high hx)
    have htaken : ∀ g r, sp.own g = some r → g ∈ freeSet s.pmm \ freeSet s'.pmm := fun g r ho =>
      Finset.mem_sdiff.mpr ⟨(hinv.own_taken g r ho).1, (hinv.own_taken g r ho).2.1⟩
    have hpg : pdPhys.toNat / 4096 = sp.dir := by omega
    have hdirge := hinv.dir_ge
    have hold : word (readFile b f s).mem (sharedTable 0 * 4096) 0x200 =
        word s.mem (sharedTable 0 * 4096) 0x200 :=
      word_page_congr (by omega) fun x hx => readFile_high (by rw [hx]; exact Nat.le_succ 512)
    have hentry : Redirected s'.mem (ts ++ [⟨(s'.sched.pool i).cr3,
        freeSet s.pmm \ freeSet s'.pmm⟩]) := by
      have hword := hinv.tab_word 0 _ (by omega) (hinv.tab_shared 0 (by omega)) 0x200 (by omega)
      rw [if_pos (by omega), hold] at hword
      have hword' : (word s'.mem (sharedTable 0 * 4096) 0x200).toNat =
          entryNat (word s.mem (sharedTable 0 * 4096) 0x200).toNat (sp.page 0x200) := hword
      cases hp : sp.page 0x200 with
      | none =>
        rw [hp] at hword'
        rcases h.entry with hid | ⟨t, ht, g, hg, hgw⟩
        · exact Or.inl (hword'.trans hid)
        · exact Or.inr ⟨t, List.mem_append_left _ ht, g, hg, hword'.trans hgw⟩
      | some g =>
        rw [hp] at hword'
        exact Or.inr ⟨_, List.mem_append_right _ (List.mem_singleton_self _), g,
          htaken g _ (hinv.page_own _ _ hp), hword'⟩
    have hk200 : ∀ x, x / 4096 = 0x200 → s'.mem x = s.mem x := by
      intro x hx
      refine hkept x (by omega) (fun hm => ?_) ?_
      · have := h.reserved _ hm
        omega
      · unfold InShared sharedTable kernelPtAddr
        omega
    have hdirs : ∀ t ∈ ts, ∀ x, x / 4096 = t.cr3.toNat / 4096 → s'.mem x = s.mem x := by
      intro t ht x hx
      have habove := h.dir_above t ht
      refine hkept x (by omega) (by rw [hx]; exact h.dir_kept t ht) ?_
      unfold InShared sharedTable kernelPtAddr
      omega
    refine h.step hj.pmm hj.free hk200 hdirs hentry fun u hu => ?_
    rw [List.mem_singleton.mp hu, hj.cr3 i hi]
    show (word s'.mem (pdPhys.toNat / 4096 * 4096) 0).toNat = _ ∧
      pdPhys.toNat / 4096 ∈ freeSet s.pmm \ freeSet s'.pmm ∧ 0x205 ≤ pdPhys.toNat / 4096 ∧
      pdPhys.toNat / 4096 ∉ freeSet s'.pmm
    rw [hpg]
    refine ⟨?_, htaken _ _ hinv.dir_own, by omega, (hinv.own_taken _ _ hinv.dir_own).2.1⟩
    have hword := hinv.dir_word 0 (by omega)
    rw [hinv.tab_shared 0 (by omega)] at hword
    exact hword

theorem Created.inv {b : ElfBuf} {s : Loader} {ts : List Member} (h : Created b s ts) :
    SharedInv s ts := by
  induction h with
  | boot m memSize pool =>
    have hready := freshLoader_ready m memSize pool
    refine ⟨hready.pmm, hready.reserved, hready.kernel, Or.inl ?_, fun t ht => ?_, fun t ht => ?_,
      fun t ht => ?_, fun t ht => ?_⟩
    · rw [freshLoader_mem]
      exact (initPaging_spec m).2 0x200 (by omega)
    all_goals exact absurd ht List.not_mem_nil
  | space _ hfresh hcode _ hpd hpt hrun ih => exact space_inv ih hfresh hcode hpd hpt hrun
  | refused _ hrun hn ih =>
    rcases elfExec_shared ih hrun (fun i hi hlt => by omega) with ⟨_, h'⟩ | ⟨hn', _⟩
    · exact h'
    · omega
  | load _ hrun hi hn halloc ih =>
    rcases elfExec_shared ih hrun halloc with ⟨hn', _⟩ | ⟨_, h'⟩
    · omega
    · exact h' _ hi

/-! ## The address 0x200000 -/

/-- A walk over two entries with the flags `present`, `write`, `user`. -/
theorem userAccess_walk {m : Mem} {cr3 v : U32} {t f : Nat}
    (hd : (word m (frameAddr cr3) (pdIndex v)).toNat = t * 4096 + 7)
    (ht : (word m (t * 4096) (ptIndex v)).toNat = f * 4096 + 7) :
    userAccess m cr3 v = true ∧ translate m cr3 v = some (f * 4096 + v.toNat % 4096) := by
  have hde : (pde m cr3 v).toNat = t * 4096 + 7 := hd
  have hte : (pte m cr3 v).toNat = f * 4096 + 7 := by
    unfold pte
    rw [frameAddr_entry hde]
    exact ht
  have huser : ∀ {e : U32} {k : Nat}, e.toNat = k * 4096 + 7 → userBit e = true := by
    intro e k he
    rw [userBit_iff, he]
    omega
  unfold userAccess translate
  rw [present_entry hde, present_entry hte, huser hde, huser hte, frameAddr_entry hte,
    toNat_and_fff]
  exact ⟨rfl, rfl⟩

/-- Where 0x200000 leads, from every task. -/
theorem SharedInv.reach {s : Loader} {ts : List Member} (h : SharedInv s ts) {f : Nat}
    (hf : (word s.mem (sharedTable 0 * 4096) 0x200).toNat = f * 4096 + 7) {t : Member}
    (ht : t ∈ ts) : userAccess s.mem t.cr3 0x200000#32 = true ∧
      translate s.mem t.cr3 0x200000#32 = some (f * 4096) := by
  have hdir := h.dir t ht
  rw [← frameAddr_eq] at hdir
  have hpd : pdIndex 0x200000#32 = 0 := by rw [pdIndex_eq, BitVec.toNat_ofNat]
  have hpt : ptIndex 0x200000#32 = 0x200 := by rw [ptIndex_eq, BitVec.toNat_ofNat]
  obtain ⟨hacc, htr⟩ := userAccess_walk (v := 0x200000#32) (by rw [hpd]; exact hdir)
    (by rw [hpt]; exact hf)
  refine ⟨hacc, htr.trans (congrArg some ?_)⟩
  rw [BitVec.toNat_ofNat]
  omega

/-- Two tasks are one too many. -/
theorem SharedInv.not_isolated {s : Loader} {ts : List Member} (h : SharedInv s ts)
    (h2 : 2 ≤ ts.length) : ¬Isolated s.mem ts := by
  intro hiso
  rcases h.entry with hid | ⟨t, ht, f, hf, hw⟩
  · -- the kernel's own directory
    obtain ⟨hacc, htr⟩ := h.reach hid (List.getElem_mem (show 0 < ts.length by omega))
    have hk := (hiso 0 1 (by omega) (by omega) (by omega) _ hacc _ htr).2
    rw [Nat.mul_div_cancel _ (by omega)] at hk
    exact hk (by unfold kernelPages; rw [Finset.mem_Ico]; omega)
  · -- a frame of `t`, seen from any other task
    obtain ⟨j, hj, hjt⟩ := List.getElem_of_mem ht
    obtain ⟨i, hi, hij⟩ : ∃ i, i < ts.length ∧ i ≠ j := by
      rcases Nat.eq_zero_or_pos j with hz | hz
      · exact ⟨1, by omega, by omega⟩
      · exact ⟨0, by omega, by omega⟩
    obtain ⟨hacc, htr⟩ := h.reach hw (List.getElem_mem hi)
    have hk := (hiso i j hi hj hij _ hacc _ htr).1
    rw [Nat.mul_div_cancel _ (by omega), hjt] at hk
    exact hk hf

/-- **The memory spaces of two tasks are never isolated**, in whatever way the tasks
were created: the property holds exactly of the runs with fewer than two tasks. -/
theorem isolated_iff {b : ElfBuf} {s : Loader} {ts : List Member} (h : Created b s ts) :
    Isolated s.mem ts ↔ ts.length < 2 := by
  constructor
  · intro hiso
    by_contra hge
    exact h.inv.not_isolated (by omega) hiso
  · intro hlt i j hi hj hij
    omega

/-! ## The two demo tasks -/

def taskA : Member := ⟨taskAPdAddr, {0x300, 0x30F, 0x205, 0x206, 0x320}⟩
def taskB : Member := ⟨taskBPdAddr, {0x301, 0x30E, 0x207, 0x208, 0x322}⟩

/-- `launch_tasks` is a run of creations. -/
theorem created_launched {b : ElfBuf} {userTask userTaskB : Nat} {s0 s : Loader}
    (h0 : Created b s0 []) (hrun : launchTasks userTask userTaskB s0 = some s) :
    Created b { s0 with mem := s.mem } [taskA, taskB] := by
  have hres := h0.inv.reserved
  simp only [launchTasks, Option.bind_eq_bind, Option.bind_eq_some_iff] at hrun
  obtain ⟨mA, hA, mB, hB, _, _, _, _, hrun⟩ := hrun
  cases hrun
  have hlow : ∀ k, k < 1024 → k ∉ freeSet s0.pmm := fun k hk hm => by
    have := hres k hm
    omega
  have hfreshA : FreshPages s0 [] 0x300 0x30F 0x205 0x206 0x320 := by
    refine ⟨by decide, fun k hk => ?_, fun _ _ t ht => absurd ht List.not_mem_nil,
      fun k hk => hlow k ?_⟩
    all_goals
      simp only [List.mem_cons, List.not_mem_nil, or_false] at hk
      omega
  have hfreshB : FreshPages { s0 with mem := mA } [taskA]
      0x301 0x30E 0x207 0x208 0x322 := by
    refine ⟨by decide, fun k hk => ?_, fun k hk t ht => ?_, fun k hk => hlow k ?_⟩
    · simp only [List.mem_cons, List.not_mem_nil, or_false] at hk
      omega
    · rw [List.mem_singleton.mp ht]
      unfold taskA
      simp only [List.mem_cons, List.not_mem_nil, or_false] at hk
      simp only [Finset.mem_insert, Finset.mem_singleton]
      omega
    · simp only [List.mem_cons, List.not_mem_nil, or_false] at hk
      omega
  exact .space (.space h0 hfreshA rfl rfl rfl rfl hA) hfreshB rfl rfl rfl rfl hB

/-- **Step 12 of the README does not hold of the two demo tasks**: task A in ring 3
reaches task B's page directory at 0x207000. -/
theorem demoTasks_shared : ∃ s,
    launchTasks 0x100000 0x100400 (freshLoader (fun _ => 0#8) 0x2000000#32
      (fun _ => newTask 0 0 0 0 0 0 0)) = some s ∧
    userAccess s.mem taskA.cr3 0x207000#32 = true ∧
    translate s.mem taskA.cr3 0x207000#32 = some 0x207000 ∧ 0x207 ∈ taskB.frames ∧
    ¬Isolated s.mem [taskA, taskB] := by
  obtain ⟨s, hboot⟩ := @launchTasks_some 0x100000 0x100400 (freshLoader (fun _ => 0#8) 0x2000000#32
    (fun _ => newTask 0 0 0 0 0 0 0)) (freshLoader_ntasks _ _ _)
  obtain ⟨_, _, _, _, _, hmem⟩ := launchTasks_ready (freshLoader_ready _ _ _)
    (freshLoader_ntasks _ _ _) hboot
  have hinv := (created_launched (b := lowBuf) (.boot ..) hboot).inv
  have hentry : (word s.mem (sharedTable 0 * 4096) 0x207).toNat = 0x207 * 4096 + 7 := by
    have hkeep : word s.mem (sharedTable 0 * 4096) 0x207 =
        word (initPaging (fun _ => 0#8)) (sharedTable 0 * 4096) 0x207 := by
      rw [← freshLoader_mem (fun _ => 0#8) 0x2000000#32 (fun _ => newTask 0 0 0 0 0 0 0)]
      refine word_page_congr (by omega) fun x hx => hmem x ?_
      unfold sharedTable kernelPtAddr at hx
      omega
    rw [hkeep]
    exact (initPaging_spec _).2 0x207 (by omega)
  have hdir := hinv.dir taskA (List.mem_cons_self ..)
  rw [← frameAddr_eq] at hdir
  have hpd : pdIndex 0x207000#32 = 0 := by rw [pdIndex_eq, BitVec.toNat_ofNat]
  have hpt : ptIndex 0x207000#32 = 0x207 := by rw [ptIndex_eq, BitVec.toNat_ofNat]
  obtain ⟨hacc, htr⟩ := userAccess_walk (v := 0x207000#32) (by rw [hpd]; exact hdir)
    (by rw [hpt]; exact hentry)
  have hB : 0x207 ∈ taskB.frames := by
    unfold taskB
    simp
  refine ⟨s, hboot, hacc, htr.trans (congrArg some ?_), hB, hinv.not_isolated (Nat.le_refl 2)⟩
  rw [BitVec.toNat_ofNat]

/-- The equivalence at that run. -/
theorem isolated_iff_demoTasks : ∃ s, launchTasks 0x100000 0x100400
    (freshLoader (fun _ => 0#8) 0x2000000#32 (fun _ => newTask 0 0 0 0 0 0 0)) = some s ∧
    (Isolated s.mem [taskA, taskB] ↔ [taskA, taskB].length < 2) := by
  obtain ⟨s, hboot⟩ := @launchTasks_some 0x100000 0x100400 (freshLoader (fun _ => 0#8) 0x2000000#32
    (fun _ => newTask 0 0 0 0 0 0 0)) (freshLoader_ntasks _ _ _)
  have hiff := isolated_iff (created_launched (b := lowBuf) (.boot ..) hboot)
  exact ⟨s, hboot, hiff⟩

end PepinOS
