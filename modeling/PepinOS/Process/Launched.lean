import PepinOS.Process.Boot
import PepinOS.Process.Isolation
import PepinOS.Process.UserMemory

/-!
# The machine with the two demo tasks

What `launch_tasks` leaves in memory, for the runs on fixed inputs elsewhere: the
directories of the two tasks, in which the first 16 MB are mapped to themselves,
and the frames their tables lie in. `Demo` is the machine when task A starts and
no program has been loaded besides; its tasks follow each other in the ring.
-/

namespace PepinOS

/-- A directory as `launch_tasks` makes them, its own table in frame `l`. -/
def DemoDir (m : Mem) (cr3 : U32) (l : Nat) : Prop :=
  ∀ e, e < 1024 → (word m (frameAddr cr3) e).toNat =
    if 768 ≤ e ∧ e < 772 then sharedTable (e - 768) * 4096 + 3
    else if e < 4 then sharedTable e * 4096 + 7
    else if e = 256 then l * 4096 + 7
    else 0

theorem createTaskSpace_demo {m m' : Mem} {codePhys stackPhys stackVirt pdAddr ptAddr : U32}
    {d l : Nat} (hk : KernelDir m) (hpd : pdAddr.toNat = d * 4096) (hpt : ptAddr.toNat = l * 4096)
    (hne : d ≠ l) (hkd : d ≠ 512) (hkp : l ≠ 512)
    (hrun : createTaskSpace m codePhys stackPhys taskCodeVirt stackVirt pdAddr ptAddr = some m') :
    DemoDir m' pdAddr l := by
  intro e he
  obtain ⟨_, hwords⟩ := createTaskSpace_spec hpd hpt hne hkd hkp hrun
  have hdir : pdIndex taskCodeVirt = 256 := by rw [pdIndex_eq]; rfl
  rw [frameAddr_eq, show pdAddr.toNat / 4096 = d by omega, hwords e he, hdir]
  split
  next h =>
    rw [BitVec.or_assoc]
    refine toNat_or_flags ?_ (by decide)
    rw [BitVec.toNat_ofNat]
    unfold sharedTable kernelPtAddr
    omega
  next =>
    split
    next h4 => rw [hk e he, if_pos h4]
    next =>
      split
      next => exact toNat_userEntry hpt
      next => rfl

theorem DemoDir.congr {m m' : Mem} {cr3 : U32} {l : Nat} (h : DemoDir m cr3 l)
    (hm : ∀ x, x / 4096 = cr3.toNat / 4096 → m' x = m x) : DemoDir m' cr3 l := by
  intro e he
  rw [frameAddr_eq, word_page_congr he hm, ← frameAddr_eq]
  exact h e he

/-- The entries that map the first 16 MB to themselves. -/
theorem DemoDir.entries {m : Mem} {cr3 : U32} {l : Nat} (h : DemoDir m cr3 l) (hk : KernelTables m)
    {v : U32} (hv : v.toNat < identityTop) :
    (word m (frameAddr cr3) (pdIndex v)).toNat = sharedTable (pdIndex v) * 4096 + 7 ∧
      (word m (sharedTable (pdIndex v) * 4096) (ptIndex v)).toNat =
        v.toNat / 4096 * 4096 + 7 := by
  unfold identityTop at hv
  have he : pdIndex v < 4 := by rw [pdIndex_eq]; omega
  have hd := h (pdIndex v) (pdIndex_lt v)
  rw [if_neg (by omega), if_pos he] at hd
  refine ⟨hd, ?_⟩
  have hword := hk (v.toNat / 4096) (by omega)
  unfold word at hword ⊢
  rw [pdIndex_eq, ptIndex_eq]
  rw [show sharedTable (v.toNat / 4194304) * 4096 + 4 * (v.toNat / 4096 % 1024) =
    kernelPtAddr + 4 * (v.toNat / 4096) by unfold sharedTable kernelPtAddr; omega]
  exact hword

/-- The first 16 MB are mapped to themselves, for ring 3 too. -/
theorem DemoDir.low {m : Mem} {cr3 : U32} {l : Nat} (h : DemoDir m cr3 l) (hk : KernelTables m)
    {v : U32} (hv : v.toNat < identityTop) :
    userAccess m cr3 v = true ∧ translate m cr3 v = some v.toNat := by
  obtain ⟨hd, ht⟩ := h.entries hk hv
  obtain ⟨hacc, htr⟩ := userAccess_walk hd ht
  refine ⟨hacc, htr.trans (congrArg some ?_)⟩
  omega

/-- And for writing. -/
theorem DemoDir.writable {m : Mem} {cr3 : U32} {l : Nat} (h : DemoDir m cr3 l) (hk : KernelTables m)
    {v : U32} (hv : v.toNat < identityTop) : userWritable m cr3 v = true := by
  obtain ⟨hd, ht⟩ := h.entries hk hv
  have hde : (pde m cr3 v).toNat = sharedTable (pdIndex v) * 4096 + 7 := hd
  have hte : (pte m cr3 v).toNat = v.toNat / 4096 * 4096 + 7 := by
    unfold pte
    rw [frameAddr_entry hde]
    exact ht
  unfold userWritable
  rw [(h.low hk hv).1, writeBit_entry hde, writeBit_entry hte]
  rfl

/-- The tables of a demo task lie in the kernel's four frames and in its own. -/
theorem DemoDir.outside {m : Mem} {cr3 : U32} {l pa : Nat} (h : DemoDir m cr3 l)
    (hdir : pa / 4096 ≠ cr3.toNat / 4096) (hsh : pa / 4096 < 0x201 ∨ 0x205 ≤ pa / 4096)
    (hl : pa / 4096 ≠ l) : inTables m cr3 pa = false := by
  unfold inTables
  rw [Bool.or_eq_false_iff]
  refine ⟨by simpa using hdir, List.any_eq_false.mpr fun e he => ?_⟩
  have he' := List.mem_range.mp he
  have hword := h e he'
  unfold tableFrame entryFrame
  generalize word m (frameAddr cr3) e = w at hword
  intro heq
  split at heq
  next hp =>
    have hf : w.toNat / 4096 = pa / 4096 := by
      have hf := Option.some.inj (beq_iff_eq.mp heq)
      rw [frameAddr_eq] at hf
      omega
    rw [hword] at hf
    unfold sharedTable kernelPtAddr at hf
    split at hf
    next => omega
    next =>
      split at hf
      next => omega
      next =>
        split at hf
        next => omega
        next h1 h2 h3 =>
          rw [if_neg h1, if_neg h2, if_neg h3] at hword
          rw [not_present_zero hword] at hp
          cases hp
  next => cases heq

/-- What `launch_tasks` leaves on the fresh machine. -/
structure Launched (s : Loader) : Prop where
  inv : SchedInv s.sched
  ntasks : s.sched.ntasks = 2
  cur : s.sched.cur = some 0
  taskA : s.sched.pool 0 = newTask taskCodeVirt 0x23#32 0x202#32 (taskStackVirt + 0xFF0#32) 0x33#32
    taskAPdAddr taskAKstackTop
  taskB : s.sched.pool 1 = newTask taskCodeVirt 0x23#32 0x202#32 (taskStackVirt + 0xFF0#32) 0x33#32
    taskBPdAddr taskBKstackTop
  dirA : DemoDir s.mem taskAPdAddr 0x206
  dirB : DemoDir s.mem taskBPdAddr 0x208
  tables : KernelTables s.mem

theorem kernelTables_congr {m m' : Mem} (hk : KernelTables m)
    (h : ∀ x, 0x201 ≤ x / 4096 → x / 4096 < 0x205 → m' x = m x) : KernelTables m' := by
  intro i hi
  have hword : word m' kernelPtAddr i = word m kernelPtAddr i := by
    refine word_congr hi fun x hx => ?_
    unfold InRun kernelPtAddr at hx
    exact h x (by omega) (by omega)
  rw [hword]
  exact hk i hi

theorem launchTasks_launched {userTask userTaskB : Nat} {s s' : Loader} (hk : KernelDir s.mem)
    (ht : KernelTables s.mem) (hinv : SchedInv s.sched) (hn : s.sched.ntasks = 0)
    (hrun : launchTasks userTask userTaskB s = some s') : Launched s' := by
  obtain ⟨mA, schedA, hA, hB, haddA, haddB, hotherA, hotherB, _, hn2, htaskA, htaskB⟩ :=
    launchTasks_cases hn hrun
  have hkA0 : KernelDir (copyTask userTask taskACodePhys s.mem) :=
    kernelDir_congr hk fun x hx => copyTask_other (k := 0x300) rfl (by omega)
  have hkB0 : KernelDir (copyTask userTaskB taskBCodePhys mA) :=
    kernelDir_congr hk fun x hx => by
      rw [copyTask_other (k := 0x301) rfl (by omega), hotherA x (by omega) (by omega) (by omega)]
  have hdirA : DemoDir mA taskAPdAddr 0x206 :=
    createTaskSpace_demo (d := 0x205) hkA0 rfl rfl (by omega) (by omega) (by omega) hA
  have hdirB : DemoDir s'.mem taskBPdAddr 0x208 :=
    createTaskSpace_demo (d := 0x207) hkB0 rfl rfl (by omega) (by omega) (by omega) hB
  have hnA : schedA.ntasks = 1 := by rw [(schedAddTask_cases haddA).2.1, hn]
  have hinvA := (schedAddTask_inv hinv haddA).1
  have hcurA : schedA.cur = some 0 := by
    unfold schedAddTask at haddA
    split at haddA
    next hlt =>
      cases haddA
      exact congrArg some (Fin.ext hn)
    next => cases haddA
  refine ⟨(schedAddTask_inv hinvA haddB).1, hn2,
    (schedAddTask_keeps haddB (by omega)).1.trans hcurA, htaskA, htaskB, ?_, hdirB, ?_⟩
  · refine hdirA.congr fun x hx => ?_
    have hx' : x / 4096 = 0x205 := hx
    exact hotherB x (by omega) (by omega) (by omega)
  · refine kernelTables_congr ht fun x hlo hhi => ?_
    rw [hotherB x (by omega) (by omega) (by omega), hotherA x (by omega) (by omega) (by omega)]

/-! ## The machine when task A starts -/

/-- Registers a caller of `sched_enter` may have. -/
def zeroRegs : Regs where
  edi := 0#32
  esi := 0#32
  ebp := 0#32
  ebx := 0#32
  edx := 0#32
  ecx := 0#32
  eax := 0#32
  eip := 0#32
  cs := 0#32
  eflags := 0#32
  esp := 0#32
  ss := 0#32

/-- The machine of the two demo tasks, with the driver's variables `e`. -/
structure Demo (e : Ext2) (m : Machine) : Prop where
  booted : Booted m
  loader : ∃ s, Launched s ∧ m.kern.sched = s.sched ∧ m.mem = s.mem
  nodes : ∀ n, (m.kern.nodePool n).used = false
  ext2 : m.ext2 = e
  cr3 : m.cr3 = taskAPdAddr
  user : ∃ r : Regs, m.mode = .user r ∧ r.User

/-- `launch_tasks` on 32 MB of zeros comes to its end. -/
theorem launched_exists : ∃ s, launchTasks 0x100000 0x100400 (freshLoader (fun _ => 0#8)
    0x2000000#32 (fun _ => newTask 0 0 0 0 0 0 0)) = some s ∧ Launched s := by
  have hfresh : ∀ s0 : Loader, s0 = freshLoader (fun _ => 0#8) 0x2000000#32
      (fun _ => newTask 0 0 0 0 0 0 0) → ∃ s, launchTasks 0x100000 0x100400 s0 = some s ∧
        Launched s := by
    intro s0 h0
    have hn : s0.sched.ntasks = 0 := by rw [h0]; exact freshLoader_ntasks _ _ _
    obtain ⟨s, hs⟩ := @launchTasks_some 0x100000 0x100400 s0 hn
    refine ⟨s, hs, launchTasks_launched ?_ ?_ ?_ hn hs⟩
    · rw [h0, freshLoader_mem]
      exact (initPaging_spec _).1
    · rw [h0, freshLoader_mem]
      exact (initPaging_spec _).2
    · rw [h0]
      exact emptySched_inv _
  exact hfresh _ rfl

theorem demo_exists (e : Ext2) : ∃ m, Demo e m := by
  let nodes : NodePool := fun _ => ⟨fun _ => 0#8, 0#32, 0#32, 0#32, none, false⟩
  let kb : Keyboard := ⟨fun _ => 0#8, 0, 0, false⟩
  let scr : Screen := ⟨0#8, 0#8, 0#8, fun _ => 0#8⟩
  obtain ⟨s, hs, hl⟩ := launched_exists
  have hiopl : iopl zeroRegs.eflags = 0#32 := by decide
  have hb : Booted (schedEnter (bootKernel s.sched nodes kb scr) e s.mem zeroRegs) :=
    .boot (b := lowBuf) hs .start hiopl
  exact ⟨_, hb, ⟨s, hl, rfl, rfl⟩, fun _ => rfl, rfl, rfl, _, rfl, schedEnter_user hiopl⟩

section Demo

variable {e : Ext2} {m : Machine} (hd : Demo e m)

include hd

theorem Demo.next : nextNode m.kern.sched 0 = .task 1 ∧ nextNode m.kern.sched 1 = .task 0 := by
  obtain ⟨s, hl, hs, _⟩ := hd.loader
  rw [hs]
  constructor
  · obtain ⟨j, hj, hval⟩ := next_task hl.inv (i := 0) (by rw [hl.ntasks]; exact Nat.zero_lt_two)
    rw [hl.ntasks] at hval
    rw [hj, show j = 1 from Fin.ext hval]
  · obtain ⟨j, hj, hval⟩ := next_task hl.inv (i := 1) (by rw [hl.ntasks]; exact Nat.one_lt_two)
    rw [hl.ntasks] at hval
    rw [hj, show j = 0 from Fin.ext hval]

theorem Demo.ntasks : m.kern.sched.ntasks = 2 := by
  obtain ⟨s, hl, hs, _⟩ := hd.loader
  rw [hs]
  exact hl.ntasks

theorem Demo.cur : m.kern.sched.cur = some 0 := by
  obtain ⟨s, hl, hs, _⟩ := hd.loader
  rw [hs]
  exact hl.cur

theorem Demo.taskA : m.kern.task 0 = newTask taskCodeVirt 0x23#32 0x202#32
    (taskStackVirt + 0xFF0#32) 0x33#32 taskAPdAddr taskAKstackTop := by
  obtain ⟨s, hl, hs, _⟩ := hd.loader
  unfold Kernel.task
  rw [hs]
  exact hl.taskA

theorem Demo.taskB : m.kern.task 1 = newTask taskCodeVirt 0x23#32 0x202#32
    (taskStackVirt + 0xFF0#32) 0x33#32 taskBPdAddr taskBKstackTop := by
  obtain ⟨s, hl, hs, _⟩ := hd.loader
  unfold Kernel.task
  rw [hs]
  exact hl.taskB

/-- The first 16 MB, seen from task A. -/
theorem Demo.low {v : U32} (hv : v.toNat < identityTop) :
    translate m.mem taskAPdAddr v = some v.toNat := by
  obtain ⟨s, hl, _, hs⟩ := hd.loader
  rw [hs]
  exact (hl.dirA.low hl.tables hv).2

/-- The first tick: task B's turn. -/
theorem Demo.firstTick (env : Env) : ∃ r m', r.User ∧ m.mode = .user r ∧
    m'.mode = .user (Regs.popped (m.kern.task 1).regs) ∧
    Run (Step env) m [.switched 0 1 (r.pushed m.kern.esp0) (m.kern.task 1).regs none] m' := by
  obtain ⟨r, hm, hr⟩ := hd.user
  have htick : doSwitch env.link m.kern m.cr3 m.mem (r.pushed m.kern.esp0) = .ok _ :=
    doSwitch_plain (j := 1) hd.cur (pushed_ring3 hr _) hd.next.1 (t := m.kern.task 1)
      (by rw [switchTo_task, if_neg (by decide)]) (by rw [hd.taskB]; rfl)
  exact ⟨r, _, hr, hm, rfl, .step .start (.tick hm hr htick)⟩

/-- The top of task A's stack page, seen at its physical address. -/
theorem Demo.stack {l : Link} (hl : ∀ pa, pa / 4096 = 0x30F → l.owns pa = false) {X : Nat}
    (hlo : 0x30F000 ≤ X) (hhi : X + 4 ≤ 0x310000) :
    Ordinary l m.mem taskAPdAddr (BitVec.ofNat 32 X) X := by
  have hadd : ∀ j, j < 4 → (BitVec.ofNat 32 X + BitVec.ofNat 32 j).toNat = X + j := by
    intro j hj
    rw [BitVec.toNat_add, BitVec.toNat_ofNat, BitVec.toNat_ofNat]
    omega
  obtain ⟨s, hs, _, hmem⟩ := hd.loader
  refine ⟨fun j hj => ?_, fun j hj => hl _ (by omega), fun j hj => ?_⟩
  · rw [hd.low (by rw [hadd j hj]; unfold identityTop; omega), hadd j hj]
  · rw [hmem]
    have hdir : taskAPdAddr.toNat / 4096 = 0x205 := rfl
    exact hs.dirA.outside (by omega) (by omega) (by omega)

end Demo

/-- What the program puts in its registers for a call. -/
def callRegs (r : Regs) (eax ebx ecx : U32) : Regs := { r with eax := eax, ebx := ebx, ecx := ecx }

end PepinOS
