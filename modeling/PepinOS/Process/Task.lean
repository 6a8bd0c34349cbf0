import PepinOS.Mm.Pmm
import PepinOS.Mm.Paging
import PepinOS.Process.Scheduler

/-!
# The two demo tasks

`process/task.c`. `launch_tasks` copies the code of the two built-in tasks to
their pages, builds their address spaces with `create_task_space` and registers
them. Where the linker put `user_task` and `user_task_b` is a parameter.

`Loader` is the part of the machine that creating tasks works on: physical
memory, the page allocator and the scheduler.
-/

namespace PepinOS

/-- Physical memory, the allocator, the scheduler. -/
structure Loader where
  mem : Mem
  pmm : Pmm
  sched : Sched

def taskACodePhys : U32 := 0x300000#32
def taskAStackPhys : U32 := 0x30F000#32
def taskBCodePhys : U32 := 0x301000#32
def taskBStackPhys : U32 := 0x30E000#32
def taskCodeVirt : U32 := 0x40000000#32
def taskStackVirt : U32 := 0x40001000#32
def taskAKstackTop : U32 := 0x321000#32
def taskBKstackTop : U32 := 0x323000#32

/-- `for (i = 0; i < 1024; i++) dst[i] = src[i]`. -/
def copyTask (src : Nat) (dst : U32) (m : Mem) : Mem :=
  forRange 0 1024 (fun i m => store8 m (dst.toNat + i) (m (src + i))) m

/-- `launch_tasks`, its messages and the TSS apart. -/
def launchTasks (userTask userTaskB : Nat) (s : Loader) : Option Loader := do
  let mem := copyTask userTask taskACodePhys s.mem
  let mem ← createTaskSpace mem taskACodePhys taskAStackPhys taskCodeVirt taskStackVirt
    taskAPdAddr taskAPtAddr
  let mem := copyTask userTaskB taskBCodePhys mem
  let mem ← createTaskSpace mem taskBCodePhys taskBStackPhys taskCodeVirt taskStackVirt
    taskBPdAddr taskBPtAddr
  let sched ← schedAddTask s.sched taskCodeVirt 0x23#32 0x202#32 (taskStackVirt + 0xFF0#32)
    0x33#32 taskAPdAddr taskAKstackTop
  let sched ← schedAddTask sched taskCodeVirt 0x23#32 0x202#32 (taskStackVirt + 0xFF0#32)
    0x33#32 taskBPdAddr taskBKstackTop
  some { s with mem := mem, sched := sched }

/-- The machine after `init_paging` and `pmm_init`, with `memSize` bytes and no task. -/
def freshLoader (m : Mem) (memSize : U32) (pool : Fin 8 → Task) : Loader where
  mem := initPaging m
  pmm := pmmInit ⟨fun _ => 0#32, 0#32, 0#32⟩ memSize
  sched := emptySched pool

/-- Copying a task writes the page it goes to. -/
theorem copyTask_other {src : Nat} {dst : U32} {k x : Nat} {m : Mem} (hdst : dst.toNat = k * 4096)
    (hx : x / 4096 ≠ k) : copyTask src dst m x = m x := by
  unfold copyTask
  refine forRange_ind (fun q : Mem => q x = m x) rfl ?_
  intro i q _ hi hq
  unfold store8
  rw [Function.update_of_ne (by omega)]
  exact hq

/-- A task's creation writes its code page, its directory and its table. -/
theorem taskSpace_other {m mem : Mem} {src c d l : Nat}
    {codePhys stackPhys codeVirt stackVirt pdAddr ptAddr : U32} (hcode : codePhys.toNat = c * 4096)
    (hpd : pdAddr.toNat = d * 4096) (hpt : ptAddr.toNat = l * 4096) (hne : d ≠ l) (hkd : d ≠ 512)
    (hkp : l ≠ 512) (hrun : createTaskSpace (copyTask src codePhys m) codePhys stackPhys codeVirt
      stackVirt pdAddr ptAddr = some mem) {x : Nat} (hxc : x / 4096 ≠ c) (hxd : x / 4096 ≠ d)
    (hxl : x / 4096 ≠ l) : mem x = m x := by
  have hother := (createTaskSpace_spec hpd hpt hne hkd hkp hrun).1
  rw [hother x hxd hxl, copyTask_other hcode hxc]

/-! ## Directories that stay put -/

/-- The directory at `cr3` and its tables lie above the kernel image, on pages the
allocator will not hand out. -/
structure Settled (p : Pmm) (m : Mem) (cr3 : U32) : Prop where
  dir : 512 ≤ cr3.toNat / 4096 ∧ cr3.toNat / 4096 ∉ freeSet p
  tables : ∀ e t, e < 1024 → tableFrame m cr3 e = some t → 512 ≤ t ∧ t ∉ freeSet p

/-- The kernel's own directory is settled. -/
theorem settled_kernel {p : Pmm} {m : Mem} (hres : Reserved p) (hk : KernelDir m) :
    Settled p m 0x200000#32 := by
  have hlow : ∀ k, k < 1024 → k ∉ freeSet p := fun k hk hm => absurd (hres k hm) (by omega)
  have hdir : frameAddr 0x200000#32 = kernelPdAddr := by rw [frameAddr_eq]; rfl
  refine ⟨⟨Nat.le_refl 512, hlow 512 (by omega)⟩, fun e t he ht => ?_⟩
  unfold tableFrame at ht
  rw [hdir] at ht
  have hword := hk e he
  split at hword
  next h4 =>
    rw [entryFrame_entry hword] at ht
    cases ht
    unfold sharedTable kernelPtAddr
    exact ⟨by omega, hlow _ (by omega)⟩
  next =>
    rw [entryFrame_zero hword] at ht
    cases ht

/-- A demo task's directory is settled, on its fixed pages. -/
theorem settled_taskSpace {p : Pmm} {m m' : Mem}
    {codePhys stackPhys codeVirt stackVirt pdAddr ptAddr : U32} {d l : Nat} (hres : Reserved p)
    (hk : KernelDir m) (hpd : pdAddr.toNat = d * 4096) (hpt : ptAddr.toNat = l * 4096)
    (hne : d ≠ l) (hkd : 512 < d ∧ d < 1024) (hkp : 512 < l ∧ l < 1024)
    (hrun : createTaskSpace m codePhys stackPhys codeVirt stackVirt pdAddr ptAddr = some m') :
    Settled p m' pdAddr := by
  have hlow : ∀ k, k < 1024 → k ∉ freeSet p := fun k hk hm => absurd (hres k hm) (by omega)
  have hpg : pdAddr.toNat / 4096 = d := by omega
  obtain ⟨_, hwords⟩ := createTaskSpace_spec hpd hpt hne (by omega) (by omega) hrun
  refine ⟨⟨by omega, hlow _ (by omega)⟩, fun e t he ht => ?_⟩
  unfold tableFrame at ht
  rw [frameAddr_eq, hpg, hwords e he] at ht
  split at ht
  next hw =>
    -- the supervisor window: the kernel's tables, without the user bit
    have hentry : (BitVec.ofNat 32 (kernelPtAddr + (e - 768) * 4096) ||| pagePresent |||
        pageWrite).toNat = sharedTable (e - 768) * 4096 + 3 := by
      rw [BitVec.or_assoc]
      refine toNat_or_flags ?_ (by decide)
      rw [BitVec.toNat_ofNat]
      unfold sharedTable kernelPtAddr
      omega
    unfold entryFrame at ht
    rw [frameAddr_eq, hentry] at ht
    split at ht
    next =>
      cases ht
      unfold sharedTable kernelPtAddr
      exact ⟨by omega, hlow _ (by omega)⟩
    next => cases ht
  next =>
    split at ht
    next h4 =>
      have hword := hk e he
      rw [if_pos h4] at hword
      rw [entryFrame_entry hword] at ht
      cases ht
      unfold sharedTable kernelPtAddr
      exact ⟨by omega, hlow _ (by omega)⟩
    next =>
      split at ht
      next =>
        rw [entryFrame_entry (toNat_userEntry hpt)] at ht
        cases ht
        exact ⟨by omega, hlow _ (by omega)⟩
      next =>
        have hzero : (0#32 : U32).toNat = 0 := by simp
        rw [entryFrame_zero hzero] at ht
        cases ht

/-- Memory that keeps every settled page keeps the directory, settled, and what it
maps. -/
theorem Settled.keep {p p' : Pmm} {m m' : Mem} {cr3 : U32} (h : Settled p m cr3)
    (hfree : freeSet p' ⊆ freeSet p)
    (hmem : ∀ x, 512 ≤ x / 4096 → x / 4096 ∉ freeSet p → m' x = m x) :
    Settled p' m' cr3 ∧ ∀ v, translate m' cr3 v = translate m cr3 v := by
  have htab : ∀ e, e < 1024 → tableFrame m' cr3 e = tableFrame m cr3 e := fun e he =>
    tableFrame_congr he fun x hx => hmem x (by rw [hx]; exact h.dir.1) (by rw [hx]; exact h.dir.2)
  refine ⟨⟨⟨h.dir.1, fun hm => h.dir.2 (hfree hm)⟩, fun e t he ht => ?_⟩, fun v => ?_⟩
  · rw [htab e he] at ht
    obtain ⟨h1, h2⟩ := h.tables e t he ht
    exact ⟨h1, fun hm => h2 (hfree hm)⟩
  · have hlt := v.isLt
    have he : v.toNat / 4096 / 1024 < 1024 := by omega
    rw [translate_eq_pageFrame, translate_eq_pageFrame]
    unfold pageFrame
    rw [htab _ he]
    cases ht : tableFrame m cr3 (v.toNat / 4096 / 1024) with
    | none => rw [Option.bind_none, Option.bind_none]
    | some t =>
      obtain ⟨h1, h2⟩ := h.tables _ t he ht
      have hword : word m' (t * 4096) (v.toNat / 4096 % 1024) =
          word m (t * 4096) (v.toNat / 4096 % 1024) :=
        word_page_congr (Nat.mod_lt _ (by omega)) fun x hx =>
          hmem x (by rw [hx]; exact h1) (by rw [hx]; exact h2)
      rw [Option.bind_some, Option.bind_some, hword]

/-! ## After `launch_tasks` -/

/-- What holds of the machine between loads: a sound allocator that stays away from
the kernel, the kernel's directory as `init_paging` made it, and a settled
directory for each registered task. -/
structure Ready (s : Loader) : Prop where
  pmm : PmmInv s.pmm
  reserved : Reserved s.pmm
  kernel : KernelDir s.mem
  tasks : ∀ i : Fin 8, i.val < s.sched.ntasks → Settled s.pmm s.mem (s.sched.pool i).cr3

theorem kernelDir_congr {m m' : Mem} (hk : KernelDir m) (h : ∀ x, x / 4096 = 512 → m' x = m x) :
    KernelDir m' := by
  intro e he
  have hword : word m' kernelPdAddr e = word m kernelPdAddr e := by
    refine word_congr he fun x hx => h x ?_
    unfold InRun kernelPdAddr at hx
    omega
  rw [hword]
  exact hk e he

@[simp] theorem freshLoader_mem (m : Mem) (memSize : U32) (pool : Fin 8 → Task) :
    (freshLoader m memSize pool).mem = initPaging m := by
  simp only [freshLoader]

@[simp] theorem freshLoader_pmm (m : Mem) (memSize : U32) (pool : Fin 8 → Task) :
    (freshLoader m memSize pool).pmm = pmmInit ⟨fun _ => 0#32, 0#32, 0#32⟩ memSize := by
  simp only [freshLoader]

@[simp] theorem freshLoader_ntasks (m : Mem) (memSize : U32) (pool : Fin 8 → Task) :
    (freshLoader m memSize pool).sched.ntasks = 0 := by
  simp only [freshLoader, emptySched]

theorem freshLoader_ready (m : Mem) (memSize : U32) (pool : Fin 8 → Task) :
    Ready (freshLoader m memSize pool) where
  pmm := by
    rw [freshLoader_pmm]
    exact (pmmInit_spec _ memSize).1
  reserved := by
    rw [freshLoader_pmm]
    exact pmmInit_reserved _ memSize
  kernel := by
    rw [freshLoader_mem]
    exact (initPaging_spec m).1
  tasks := by
    intro i hi
    rw [freshLoader_ntasks] at hi
    exact absurd hi (Nat.not_lt_zero _)

theorem createTaskSpace_some {m : Mem} {codePhys stackPhys codeVirt stackVirt pdAddr ptAddr : U32}
    (h : pdAddr.toNat + 4096 ≤ identityTop ∧ ptAddr.toNat + 4096 ≤ identityTop) :
    ∃ m', createTaskSpace m codePhys stackPhys codeVirt stackVirt pdAddr ptAddr = some m' := by
  simp only [createTaskSpace]
  rw [if_pos h]
  exact ⟨_, rfl⟩

/-- With room for two more tasks, `launch_tasks` comes to its end. -/
theorem launchTasks_some {userTask userTaskB : Nat} {s : Loader} (hn : s.sched.ntasks = 0) :
    ∃ s', launchTasks userTask userTaskB s = some s' := by
  have hmapped : ∀ a b : U32, a.toNat ≤ 0x208000 → b.toNat ≤ 0x208000 →
      a.toNat + 4096 ≤ identityTop ∧ b.toNat + 4096 ≤ identityTop := by
    intro a b ha hb
    unfold identityTop
    omega
  obtain ⟨mA, hA⟩ := @createTaskSpace_some (copyTask userTask taskACodePhys s.mem) taskACodePhys
    taskAStackPhys taskCodeVirt taskStackVirt taskAPdAddr taskAPtAddr
    (hmapped _ _ (by decide) (by decide))
  obtain ⟨mB, hB⟩ := @createTaskSpace_some (copyTask userTaskB taskBCodePhys mA) taskBCodePhys
    taskBStackPhys taskCodeVirt taskStackVirt taskBPdAddr taskBPtAddr
    (hmapped _ _ (by decide) (by decide))
  have hltA : s.sched.ntasks < maxTasks := by rw [hn]; exact Nat.zero_lt_succ 7
  obtain ⟨schedA, haddA, hnA, _⟩ := schedAddTask_some hltA taskCodeVirt 0x23#32 0x202#32
    (taskStackVirt + 0xFF0#32) 0x33#32 taskAPdAddr taskAKstackTop
  have hltB : schedA.ntasks < maxTasks := by rw [hnA, hn]; exact Nat.succ_lt_succ (Nat.zero_lt_succ 6)
  obtain ⟨schedB, haddB, _⟩ := schedAddTask_some hltB taskCodeVirt 0x23#32 0x202#32
    (taskStackVirt + 0xFF0#32) 0x33#32 taskBPdAddr taskBKstackTop
  simp only [launchTasks, hA, hB, haddA, haddB, Option.bind_eq_bind, Option.bind_some]
  exact ⟨_, rfl⟩

/-- `launch_tasks` with no task registered, taken apart: the two spaces, the pages each
leaves alone, and the two slots. -/
theorem launchTasks_cases {userTask userTaskB : Nat} {s s' : Loader} (hn : s.sched.ntasks = 0)
    (hrun : launchTasks userTask userTaskB s = some s') : ∃ mA schedA,
      createTaskSpace (copyTask userTask taskACodePhys s.mem) taskACodePhys taskAStackPhys
        taskCodeVirt taskStackVirt taskAPdAddr taskAPtAddr = some mA ∧
      createTaskSpace (copyTask userTaskB taskBCodePhys mA) taskBCodePhys taskBStackPhys
        taskCodeVirt taskStackVirt taskBPdAddr taskBPtAddr = some s'.mem ∧
      schedAddTask s.sched taskCodeVirt 0x23#32 0x202#32 (taskStackVirt + 0xFF0#32) 0x33#32
        taskAPdAddr taskAKstackTop = some schedA ∧
      schedAddTask schedA taskCodeVirt 0x23#32 0x202#32 (taskStackVirt + 0xFF0#32) 0x33#32
        taskBPdAddr taskBKstackTop = some s'.sched ∧
      (∀ x, x / 4096 ≠ 0x300 → x / 4096 ≠ 0x205 → x / 4096 ≠ 0x206 → mA x = s.mem x) ∧
      (∀ x, x / 4096 ≠ 0x301 → x / 4096 ≠ 0x207 → x / 4096 ≠ 0x208 → s'.mem x = mA x) ∧
      s'.pmm = s.pmm ∧ s'.sched.ntasks = 2 ∧
      s'.sched.pool 0 = newTask taskCodeVirt 0x23#32 0x202#32 (taskStackVirt + 0xFF0#32) 0x33#32
        taskAPdAddr taskAKstackTop ∧
      s'.sched.pool 1 = newTask taskCodeVirt 0x23#32 0x202#32 (taskStackVirt + 0xFF0#32) 0x33#32
        taskBPdAddr taskBKstackTop := by
  simp only [launchTasks, Option.bind_eq_bind, Option.bind_eq_some_iff] at hrun
  obtain ⟨mA, hA, mB, hB, schedA, haddA, schedB, haddB, hrun⟩ := hrun
  cases hrun
  obtain ⟨hltA, hnA, hpoolA⟩ := schedAddTask_cases haddA
  obtain ⟨hltB, hnB, hpoolB⟩ := schedAddTask_cases haddB
  have hidxA : (⟨s.sched.ntasks, hltA⟩ : Fin 8) = 0 := Fin.ext hn
  have hnA1 : schedA.ntasks = 1 := by rw [hnA, hn]
  have hidxB : (⟨schedA.ntasks, hltB⟩ : Fin 8) = 1 := Fin.ext hnA1
  refine ⟨mA, schedA, hA, hB, haddA, haddB, fun x => ?_, fun x => ?_, rfl, ?_, ?_, ?_⟩
  · exact taskSpace_other (c := 0x300) (d := 0x205) (l := 0x206) rfl rfl rfl (by omega) (by omega)
      (by omega) hA
  · exact taskSpace_other (c := 0x301) (d := 0x207) (l := 0x208) rfl rfl rfl (by omega) (by omega)
      (by omega) hB
  · show schedB.ntasks = 2
    rw [hnB, hnA1]
  · show schedB.pool 0 = _
    rw [hpoolB, hidxB, Function.update_of_ne (by decide), hpoolA, hidxA, Function.update_self]
  · show schedB.pool 1 = _
    rw [hpoolB, hidxB, Function.update_self]

/-- `launch_tasks` on the fresh machine: two tasks, both settled. -/
theorem launchTasks_ready {userTask userTaskB : Nat} {s s' : Loader} (h : Ready s)
    (hn : s.sched.ntasks = 0) (hrun : launchTasks userTask userTaskB s = some s') :
    Ready s' ∧ s'.pmm = s.pmm ∧ s'.sched.ntasks = 2 ∧ (s'.sched.pool 0).cr3 = taskAPdAddr ∧
      (s'.sched.pool 1).cr3 = taskBPdAddr ∧
      (∀ x, x / 4096 < 0x205 ∨ 0x302 ≤ x / 4096 → s'.mem x = s.mem x) := by
  obtain ⟨mA, _, hA, hB, _, _, hotherA, hotherB, hpmm, hn2, htaskA, htaskB⟩ :=
    launchTasks_cases hn hrun
  have hkA0 : KernelDir (copyTask userTask taskACodePhys s.mem) :=
    kernelDir_congr h.kernel fun x hx => copyTask_other (k := 0x300) rfl (by omega)
  have hkA : KernelDir mA := kernelDir_congr h.kernel fun x hx =>
    hotherA x (by omega) (by omega) (by omega)
  have hkB0 : KernelDir (copyTask userTaskB taskBCodePhys mA) :=
    kernelDir_congr hkA fun x hx => copyTask_other (k := 0x301) rfl (by omega)
  have hsetA : Settled s.pmm mA taskAPdAddr :=
    settled_taskSpace h.reserved hkA0 (d := 0x205) (l := 0x206) rfl rfl (by omega) (by omega)
      (by omega) hA
  have hsetB : Settled s.pmm s'.mem taskBPdAddr :=
    settled_taskSpace h.reserved hkB0 (d := 0x207) (l := 0x208) rfl rfl (by omega) (by omega)
      (by omega) hB
  -- the second task's pages are none of the first's
  have hsetA' : Settled s.pmm s'.mem taskAPdAddr := by
    refine ⟨hsetA.dir, fun e t he ht => hsetA.tables e t he ?_⟩
    rw [← ht]
    refine (tableFrame_congr he fun x hx => ?_).symm
    have hx' : x / 4096 = 0x205 := hx
    exact hotherB x (by omega) (by omega) (by omega)
  have h0 : (s'.sched.pool 0).cr3 = taskAPdAddr := by
    rw [htaskA]
    rfl
  have h1 : (s'.sched.pool 1).cr3 = taskBPdAddr := by
    rw [htaskB]
    rfl
  have hmem : ∀ x, x / 4096 < 0x205 ∨ 0x302 ≤ x / 4096 → s'.mem x = s.mem x := by
    intro x hx
    rw [hotherB x (by omega) (by omega) (by omega), hotherA x (by omega) (by omega) (by omega)]
  refine ⟨⟨by rw [hpmm]; exact h.pmm, by rw [hpmm]; exact h.reserved,
    kernelDir_congr h.kernel fun x hx => hmem x (by omega), fun i hi => ?_⟩, hpmm, hn2, h0, h1, hmem⟩
  rw [hpmm]
  rw [hn2] at hi
  rcases (show i = 0 ∨ i = 1 by omega) with hi0 | hi1
  · rw [hi0, h0]
    exact hsetA'
  · rw [hi1, h1]
    exact hsetB

end PepinOS
