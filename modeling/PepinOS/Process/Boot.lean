import PepinOS.Fs.LoadSteps
import PepinOS.Process.Machine

/-!
# From boot to the first program

What the machine is when the first program starts. `Started` is all that most
properties need: some tasks, registered with the user's code segment and with
interrupts on as every caller of `sched_add_task` does, no open file, and the
processor in ring 3. `Booted` is the state `kmain` builds: `launch_tasks`, any
number of programs loaded with `elf_exec`, and `sched_enter`, which loads CR3
and returns to ring 3 through a frame it has put together by hand.

In both the kernel's variables are what the kernel finds at their addresses: its own
pages are mapped to themselves. A file with a page below 16 MB may redirect one of
them, and is not meant.
-/

namespace PepinOS

/-- Schedulers built by `sched_add_task`, as all its callers call it. -/
inductive Registered : Sched → Prop where
  | empty (pool : Fin 8 → Task) : Registered (emptySched pool)
  | add {s s' : Sched} {eip userEsp ss cr3 kstackTop : U32} : Registered s →
      schedAddTask s eip 0x23#32 0x202#32 userEsp ss cr3 kstackTop = some s' → Registered s'

/-- The start of a run. -/
structure Started (m : Machine) : Prop where
  tasks : Registered m.kern.sched
  nodes : ∀ n, (m.kern.nodePool n).used = false
  user : ∃ r : Regs, m.mode = .user r ∧ r.User

/-- The kernel's variables when `launch_tasks` and the loads are done; `init_tss` has put
the first task's kernel stack in the TSS. -/
def bootKernel (sched : Sched) (pool : NodePool) (kb : Keyboard) (scr : Screen) : Kernel where
  sched := sched
  esp0 := taskAKstackTop
  nodePool := vfsInit pool
  keyboard := kb
  screen := scr

/-- `sched_enter`, called with the registers `r`. -/
def schedEnter (k : Kernel) (e : Ext2) (mem : Mem) (r : Regs) : Machine where
  kern := k
  ext2 := e
  mem := mem
  cr3 := taskAPdAddr
  mode := .user { r with
    eax := 0x23#32
    eip := 0x40000000#32
    cs := 0x23#32
    eflags := r.eflags ||| 0x200#32
    esp := 0x40001FF0#32
    ss := 0x33#32 }

/-- Programs loaded one after another. -/
abbrev Loads (b : ElfBuf) : Loader → List (Option FileImage) → Loader → Prop :=
  Run fun s file s' => elfExec b file s = some s'

/-- `kmain` from `launch_tasks` to the first instruction of task A. -/
inductive Booted : Machine → Prop where
  | boot {b : ElfBuf} {userTask userTaskB : Nat} {mem : Mem} {memSize : U32}
      {pool : Fin 8 → Task} {s0 s : Loader} {files : List (Option FileImage)} {e : Ext2}
      {nodes : NodePool} {kb : Keyboard} {scr : Screen} {r : Regs} :
      launchTasks userTask userTaskB (freshLoader mem memSize pool) = some s0 →
      Loads b s0 files s → iopl r.eflags = 0#32 →
      Booted (schedEnter (bootKernel s.sched nodes kb scr) e s.mem r)

/-! ## Registration -/

theorem Registered.inv {s : Sched} (h : Registered s) : SchedInv s := by
  induction h with
  | empty pool => exact emptySched_inv pool
  | add _ hadd ih => exact (schedAddTask_inv ih hadd).1

/-- Every registered task is as `sched_add_task` fills it in. -/
theorem Registered.task {s : Sched} (h : Registered s) : ∀ i : Fin 8, i.val < s.ntasks →
    ∃ eip userEsp ss cr3 kstackTop,
      s.pool i = newTask eip 0x23#32 0x202#32 userEsp ss cr3 kstackTop := by
  induction h with
  | empty pool => exact fun i hi => absurd hi (Nat.not_lt_zero _)
  | @add s s' eip userEsp ss cr3 kstackTop _ hadd ih =>
    intro i hi
    obtain ⟨hlt, hn, hpool⟩ := schedAddTask_cases hadd
    rw [hn] at hi
    rw [hpool]
    by_cases he : i = ⟨s.ntasks, hlt⟩
    · rw [he, Function.update_self]
      exact ⟨_, _, _, _, _, rfl⟩
    · have hne : i.val ≠ s.ntasks := fun e => he (Fin.ext e)
      rw [Function.update_of_ne he]
      exact ih i (by omega)

/-- It is a task of ring 3. -/
theorem newTask_user (eip userEsp ss cr3 kstackTop : U32) :
    UserCtx (newTask eip 0x23#32 0x202#32 userEsp ss cr3 kstackTop).regs := by
  show UserMode 0x23#32 0x202#32
  decide

/-- Registering another task keeps the ones before it, and the running one. -/
theorem schedAddTask_keeps {s s' : Sched} {eip cs eflags userEsp ss cr3 kstackTop : U32}
    (h : schedAddTask s eip cs eflags userEsp ss cr3 kstackTop = some s') (hpos : 0 < s.ntasks) :
    s'.cur = s.cur ∧ 0 < s'.ntasks ∧ s'.pool 0 = s.pool 0 := by
  unfold schedAddTask at h
  split at h
  next hlt =>
    cases h
    refine ⟨if_neg (by omega), Nat.succ_pos _, Function.update_of_ne ?_ ..⟩
    intro e
    have hv : 0 = s.ntasks := congrArg Fin.val e
    omega
  next => cases h

/-! ## Loading -/

/-- `elf_exec` leaves the scheduler alone or registers one user task. -/
theorem elfExec_sched {b : ElfBuf} {file : Option FileImage} {s s' : Loader}
    (hrun : elfExec b file s = some s') : s'.sched = s.sched ∨
      ∃ eip userEsp ss cr3 kstackTop,
        schedAddTask s.sched eip 0x23#32 0x202#32 userEsp ss cr3 kstackTop = some s'.sched := by
  cases file with
  | none =>
    cases hrun
    exact .inl rfl
  | some f =>
    simp only [elfExec] at hrun
    split at hrun
    next =>
      cases hrun
      exact .inl rfl
    next =>
      split at hrun
      next =>
        cases hrun
        exact .inl rfl
      next =>
        obtain ⟨⟨pdPhys, s1⟩, halloc, hrun⟩ := Option.bind_eq_some_iff.mp hrun
        exact .inr (loadProgram_sched halloc hrun)

/-- After `launch_tasks` task A is the first task and the running one. -/
theorem launchTasks_sched {userTask userTaskB : Nat} {s s' : Loader} (hreg : Registered s.sched)
    (hn : s.sched.ntasks = 0) (hrun : launchTasks userTask userTaskB s = some s') :
    Registered s'.sched ∧ 0 < s'.sched.ntasks ∧ s'.sched.cur = some 0 ∧
      (s'.sched.pool 0).cr3 = taskAPdAddr ∧ (s'.sched.pool 0).kstackTop = taskAKstackTop := by
  simp only [launchTasks, Option.bind_eq_bind, Option.bind_eq_some_iff] at hrun
  obtain ⟨mA, _, mB, _, schedA, haddA, schedB, haddB, hrun⟩ := hrun
  cases hrun
  have hA : schedA.cur = some 0 ∧ 0 < schedA.ntasks ∧ schedA.pool 0 =
      newTask taskCodeVirt 0x23#32 0x202#32 (taskStackVirt + 0xFF0#32) 0x33#32 taskAPdAddr
        taskAKstackTop := by
    unfold schedAddTask at haddA
    split at haddA
    next hlt =>
      cases haddA
      have hidx : (⟨s.sched.ntasks, hlt⟩ : Fin 8) = 0 := Fin.ext hn
      refine ⟨congrArg some hidx, Nat.succ_pos _, ?_⟩
      simp only [hidx, Function.update_self]
    next => cases haddA
  obtain ⟨hcA, hpA, htA⟩ := hA
  obtain ⟨hcB, hpB, htB⟩ := schedAddTask_keeps haddB hpA
  refine ⟨.add (.add hreg haddA) haddB, hpB, hcB.trans hcA, ?_, ?_⟩
  · show (schedB.pool 0).cr3 = taskAPdAddr
    rw [htB, htA]
    rfl
  · show (schedB.pool 0).kstackTop = taskAKstackTop
    rw [htB, htA]
    rfl

/-- What loading more programs keeps of that. -/
theorem loads_sched {b : ElfBuf} {s0 s : Loader} {files : List (Option FileImage)}
    (hrun : Loads b s0 files s) (hreg : Registered s0.sched) (hpos : 0 < s0.sched.ntasks) :
    Registered s.sched ∧ 0 < s.sched.ntasks ∧ s.sched.cur = s0.sched.cur ∧
      s.sched.pool 0 = s0.sched.pool 0 := by
  refine hrun.ind (fun s => Registered s.sched ∧ 0 < s.sched.ntasks ∧
    s.sched.cur = s0.sched.cur ∧ s.sched.pool 0 = s0.sched.pool 0) ⟨hreg, hpos, rfl, rfl⟩ ?_
  rintro s file s' ⟨hr, hp, hc, ht⟩ hexec
  rcases elfExec_sched hexec with h | ⟨_, _, _, _, _, hadd⟩
  · rw [h]
    exact ⟨hr, hp, hc, ht⟩
  · obtain ⟨hc', hp', ht'⟩ := schedAddTask_keeps hadd hp
    exact ⟨.add hr hadd, hp', hc'.trans hc, ht'.trans ht⟩

/-! ## The booted machine -/

theorem iopl_or_if (fl : U32) : iopl (fl ||| 0x200#32) = iopl fl := by
  unfold iopl
  apply BitVec.eq_of_getLsbD_eq
  intro i hi
  simp only [BitVec.getLsbD_and, BitVec.getLsbD_ushiftRight, BitVec.getLsbD_or]
  rw [show (0x200#32 : U32) = BitVec.twoPow 32 9 from rfl, BitVec.getLsbD_twoPow]
  simp [show ¬9 = 12 + i by omega]

/-- The hand-made frame enters ring 3 with interrupts on. -/
theorem schedEnter_user {r : Regs} (h : iopl r.eflags = 0#32) :
    UserMode 0x23#32 (r.eflags ||| 0x200#32) := by
  refine ⟨rfl, ?_, by rw [iopl_or_if, h]⟩
  unfold flagIF
  rw [BitVec.getLsbD_or]
  simp

theorem Booted.sched {m : Machine} (h : Booted m) : Registered m.kern.sched ∧
    m.kern.sched.cur = some 0 ∧ m.cr3 = (m.kern.task 0).cr3 ∧
    m.kern.esp0 = (m.kern.task 0).kstackTop := by
  cases h with
  | @boot b userTask userTaskB mem memSize pool s0 s files e nodes kb scr r hlaunch hloads hfl =>
    have hreg0 : Registered (freshLoader mem memSize pool).sched := by
      simp only [freshLoader]
      exact .empty pool
    obtain ⟨hreg, hpos, hcur, hcr3, hstk⟩ :=
      launchTasks_sched hreg0 (freshLoader_ntasks mem memSize pool) hlaunch
    obtain ⟨hreg', _, hcur', ht⟩ := loads_sched hloads hreg hpos
    refine ⟨hreg', hcur'.trans hcur, ?_, ?_⟩
    · show taskAPdAddr = (s.sched.pool 0).cr3
      rw [ht, hcr3]
    · show taskAKstackTop = (s.sched.pool 0).kstackTop
      rw [ht, hstk]

/-- The booted machine is a start like any other. -/
theorem Booted.started {m : Machine} (h : Booted m) : Started m := by
  refine ⟨h.sched.1, ?_, ?_⟩
  · cases h
    exact fun _ => rfl
  · cases h with
    | boot _ _ hfl => exact ⟨_, rfl, schedEnter_user hfl⟩

end PepinOS
