import PepinOS.Process.Signals

/-!
# No task returns to ring 0

`SYS_SIGRETURN` loads CS and EFLAGS of the return frame from what a delivery has
stored, and a tick loads them from what an earlier tick has stored. `UserInv` says
that everything stored was a ring-3 context: it came from a ring-3 frame the
processor pushed, or from `sched_add_task`.
-/

namespace PepinOS

/-- The frame the next `iret` to ring 3 loads, if one is waiting. -/
def Mode.UserFrame : Mode → Prop
  | .user r => r.User
  | .entry r => r.User
  | .killing r _ _ => r.User
  | .leave _ f _ => UserMode f.cs f.eflags
  | .spinning => True
  | .halted => True

/-- All stored contexts of registered tasks are contexts of ring 3. -/
structure UserInv (m : Machine) : Prop where
  sched : SchedInv m.kern.sched
  mode : m.mode.UserFrame
  regs : ∀ t : Fin 8, t.val < m.kern.sched.ntasks → UserCtx (m.kern.task t).regs
  saved : ∀ t : Fin 8, t.val < m.kern.sched.ntasks → (m.kern.task t).sigInHandler = true →
    UserCtx (m.kern.task t).sigSavedRegs

/-- Delivering a signal moves EIP and ESP only. -/
theorem handlerCtx_user {ctx : Ctx} (h : UserCtx ctx) (handler : U32) :
    UserCtx (handlerCtx ctx handler) := by
  unfold UserCtx handlerCtx
  rw [Function.update_of_ne (by decide), Function.update_of_ne (by decide),
    Function.update_of_ne (by decide), Function.update_of_ne (by decide)]
  exact h

theorem ModeStep.userFrame {k : Kernel} {d d' : Mode} (h : ModeStep k d d') (hd : d.UserFrame) :
    d'.UserFrame := by
  cases h with
  | same => exact hd
  | compute hr => exact hr
  | int30 hr => exact hr
  | load r => exact hd
  | iret r f res => exact hd
  | stop => trivial
  | spin r => trivial

/-- No call puts a task into a handler. -/
theorem CallDone.inHandler {env : Env} {cr3 : U32} {s s' : Calling} {f f' : Frame} {res : U32}
    {ev : Event} (h : CallDone env cr3 s f s' f' res ev) (t : Fin 8)
    (ht : (s'.kern.task t).sigInHandler = true) : (s.kern.task t).sigInHandler = true := by
  unfold Kernel.task at ht ⊢
  cases h with
  | quiet hs _ => rwa [hs] at ht
  | opened _ _ _ _ _ _ hs _ _ => rwa [hs, setTask_frame Task.sigInHandler (by rfl)] at ht
  | closed _ _ _ hs _ => rwa [hs, setTask_frame Task.sigInHandler (by rfl)] at ht
  | read _ _ _ _ _ _ hs _ => rwa [hs, setTask_frame Task.sigInHandler (by rfl)] at ht
  | sigaction _ _ hs _ => rwa [hs, setTask_frame Task.sigInHandler (by rfl)] at ht
  | raised _ _ hs _ => rwa [hs, setTask_frame Task.sigInHandler (by rfl)] at ht
  | @returned i _ hin hs _ =>
    by_cases hti : t = i
    · rw [hti]
      exact hin
    · rwa [hs, setTask_pool_ne _ _ hti] at ht

/-- The frame a call leaves: its own, or the one a delivery has saved. -/
theorem CallDone.userFrame {env : Env} {cr3 : U32} {s s' : Calling} {f f' : Frame} {res : U32}
    {ev : Event} (h : CallDone env cr3 s f s' f' res ev) (hf : UserMode f.cs f.eflags)
    (hsaved : ∀ i, s.kern.sched.cur = some i → (s.kern.task i).sigInHandler = true →
      UserCtx (s.kern.task i).sigSavedRegs) : UserMode f'.cs f'.eflags := by
  cases h with
  | returned hcur hin _ _ => exact hsaved _ hcur hin
  | _ => exact hf

theorem SwitchDone.user {l : Link} {k : Kernel} {cr3 : U32} {mem : Mem} {ctx : Ctx} {i j : Fin 8}
    {s : Switched} (h : SwitchDone l k cr3 mem ctx i j s) (hctx : UserCtx ctx) {n : Nat}
    (hj : j.val < n) (hregs : ∀ t : Fin 8, t.val < n → UserCtx (k.task t).regs)
    (hsaved : ∀ t : Fin 8, t.val < n → (k.task t).sigInHandler = true →
      UserCtx (k.task t).sigSavedRegs) :
    UserCtx s.ctx ∧ ∀ t : Fin 8, t.val < n → UserCtx (s.kern.task t).regs ∧
      ((s.kern.task t).sigInHandler = true → UserCtx (s.kern.task t).sigSavedRegs) := by
  have hto : ∀ t : Fin 8, t.val < n → UserCtx ((switchTo k i j ctx cr3).task t).regs ∧
      (((switchTo k i j ctx cr3).task t).sigInHandler = true →
        UserCtx ((switchTo k i j ctx cr3).task t).sigSavedRegs) := by
    intro t ht
    rw [switchTo_task]
    split
    next h => exact ⟨hctx, fun hin => hsaved i (h ▸ ht) hin⟩
    next => exact ⟨hregs t ht, hsaved t ht⟩
  cases h with
  | plain u hu _ =>
    rw [hu]
    exact ⟨(hto j hj).1, hto⟩
  | signal u sig mem' hu _ _ =>
    have hju : UserCtx u.regs := by
      rw [hu]
      exact (hto j hj).1
    refine ⟨handlerCtx_user hju _, fun t ht => ?_⟩
    by_cases htj : t = j
    · rw [htj, Kernel.setTask_task_self]
      exact ⟨hju, fun _ => hju⟩
    · rw [Kernel.setTask_task_ne _ _ htj]
      exact hto t ht

/-- What a fault inside the switch leaves. -/
theorem SwitchFault.user {k k' : Kernel} {cr3 : U32} {ctx : Ctx} {i : Fin 8}
    (h : SwitchFault k cr3 ctx i k') (hctx : UserCtx ctx) {n : Nat}
    (hregs : ∀ t : Fin 8, t.val < n → UserCtx (k.task t).regs)
    (hsaved : ∀ t : Fin 8, t.val < n → (k.task t).sigInHandler = true →
      UserCtx (k.task t).sigSavedRegs) (t : Fin 8) (ht : t.val < n) :
    UserCtx (k'.task t).regs ∧
      ((k'.task t).sigInHandler = true → UserCtx (k'.task t).sigSavedRegs) := by
  have hto : ∀ j, UserCtx ((switchTo k i j ctx cr3).task t).regs ∧
      (((switchTo k i j ctx cr3).task t).sigInHandler = true →
        UserCtx ((switchTo k i j ctx cr3).task t).sigSavedRegs) := by
    intro j
    rw [switchTo_task]
    split
    next h => exact ⟨hctx, fun hin => hsaved i (h ▸ ht) hin⟩
    next => exact ⟨hregs t ht, hsaved t ht⟩
  cases h with
  | lost => exact hto i
  | stack j u hu _ hin =>
    by_cases htj : t = j
    · rw [htj, Kernel.setTask_task_self]
      refine ⟨?_, fun h => ?_⟩
      · rw [hu, ← htj]
        exact (hto j).1
      · simp only [hin] at h
        cases h
    · rw [Kernel.setTask_task_ne _ _ htj]
      exact hto j

/-- **Every step keeps it.** -/
theorem UserInv.step {env : Env} {m m' : Machine} {ev : Event} (hinv : UserInv m)
    (hstep : StepDone env m ev m') : UserInv m' := by
  obtain ⟨hsched, hn⟩ := hstep.schedInv hinv.sched
  cases hstep with
  | still hs hmode =>
    refine ⟨hsched, hmode.userFrame hinv.mode, fun t ht => ?_, fun t ht => ?_⟩
    · unfold Kernel.task
      rw [hs.sched]
      exact hinv.regs t (hn ▸ ht)
    · unfold Kernel.task
      rw [hs.sched]
      exact hinv.saved t (hn ▸ ht)
  | keyed scancode hm =>
    have hctx := keyed_contexts m.kern scancode
    simp only [Task.contexts, Prod.mk.injEq] at hctx
    refine ⟨hsched, hinv.mode, fun t ht => ?_, fun t ht hin => ?_⟩
    · show UserCtx ((m.kern.keyed scancode).task t).regs
      rw [(hctx t).1]
      exact hinv.regs t (hn ▸ ht)
    · show UserCtx ((m.kern.keyed scancode).task t).sigSavedRegs
      rw [(hctx t).2.2.2]
      refine hinv.saved t (hn ▸ ht) ?_
      have hin' : ((m.kern.keyed scancode).sched.pool t).sigInHandler = true := hin
      rcases keyed_cases m.kern scancode with ⟨_, hs⟩ | ⟨i, _, _, hs⟩
      · rwa [hs] at hin'
      · rwa [hs, setTask_frame Task.sigInHandler (by rfl)] at hin'
  | @switched r i j s hm hr hcur hj hdone =>
    have hjn : j.val < m.kern.sched.ntasks := by
      obtain ⟨hc, _, hns, _⟩ := hdone.spec
      have hlt := hsched.cur_lt j hc
      rwa [hns] at hlt
    obtain ⟨hleft, htasks⟩ := hdone.user hr hjn hinv.regs hinv.saved
    exact ⟨hsched, hleft, fun t ht => (htasks t (hn ▸ ht)).1, fun t ht => (htasks t (hn ▸ ht)).2⟩
  | @switchFault r i s cr3 hm hr hcur hf =>
    have htasks := hf.user hr hinv.regs hinv.saved
    exact ⟨hsched, trivial, fun t ht => (htasks t (hn ▸ ht)).1, fun t ht => (htasks t (hn ▸ ht)).2⟩
  | @called r s f res ev hm hkeep hdone =>
    have hr : r.User := by
      have h := hinv.mode
      rw [hm] at h
      exact h
    have hctx := hdone.contexts
    simp only [Task.contexts, Prod.mk.injEq] at hctx
    refine ⟨hsched, ?_, fun t ht => ?_, fun t ht hin => ?_⟩
    · exact hdone.userFrame hr fun i hi => hinv.saved i (hinv.sched.cur_lt i hi)
    · show UserCtx (s.kern.task t).regs
      rw [(hctx t).1]
      exact hinv.regs t (hn ▸ ht)
    · show UserCtx (s.kern.task t).sigSavedRegs
      rw [(hctx t).2.2.2]
      exact hinv.saved t (hn ▸ ht) (hdone.inHandler t hin)
  | @killed r i sig pending hm _ =>
    have hframe := fun {α : Type} (F : Task → α) => killed_frame F m.kern i sig pending
    refine ⟨hsched, ?_, fun t ht => ?_, fun t ht hin => ?_⟩
    · have h := hinv.mode
      rw [hm] at h
      exact h
    · show UserCtx ((m.kern.killed i sig pending).task t).regs
      rw [hframe Task.regs fun _ _ => rfl]
      exact hinv.regs t (hn ▸ ht)
    · show UserCtx ((m.kern.killed i sig pending).task t).sigSavedRegs
      rw [hframe Task.sigSavedRegs fun _ _ => rfl]
      refine hinv.saved t (hn ▸ ht) ?_
      exact (hframe Task.sigInHandler (fun _ _ => rfl) t).symm.trans hin

theorem Started.userInv {m : Machine} (h : Started m) : UserInv m := by
  obtain ⟨r, hm, hr⟩ := h.user
  refine ⟨h.tasks.inv, by rw [hm]; exact hr, fun t ht => ?_, fun t ht hin => ?_⟩
  · obtain ⟨_, _, _, _, _, he⟩ := h.tasks.task t ht
    unfold Kernel.task
    rw [he]
    exact newTask_user ..
  · obtain ⟨_, _, _, _, _, he⟩ := h.tasks.task t ht
    unfold Kernel.task at hin
    rw [he] at hin
    cases hin

/-- **No run lets a task return to ring 0**, as long as no store through a user pointer
lands in the kernel's own memory: the frames `do_switch` leaves on a tick from ring 3 and
`syscall_handler` leaves are frames of ring 3, with interrupts on and no I/O privilege,
and so are the saved registers of every task and, inside a handler, those that wait for
`SYS_SIGRETURN`. -/
theorem stays_in_ring3 {env : Env} {m0 m : Machine} {h : List Event} (hstart : Started m0)
    (hrun : Run (Step env.guarded) m0 h m) :
    (∀ r, m.mode = .user r → r.User ∧ ∀ s, doSwitch env.guarded.link m.kern m.cr3 m.mem
      (r.pushed m.kern.esp0) = .ok s → UserCtx s.ctx) ∧
    (∀ r f res, m.mode = .leave r f res → UserMode f.cs f.eflags) ∧
    ∀ t : Fin 8, t.val < m.kern.sched.ntasks → UserCtx (m.kern.task t).regs ∧
      ((m.kern.task t).sigInHandler = true → UserCtx (m.kern.task t).sigSavedRegs) := by
  have hinv : UserInv m := hrun.ind UserInv hstart.userInv fun _ _ _ hi hs => hi.step hs.done
  refine ⟨fun r hm => ?_, fun r f res hm => ?_, fun t ht => ⟨hinv.regs t ht, hinv.saved t ht⟩⟩
  · have hr : r.User := by
      have h := hinv.mode
      rwa [hm] at h
    refine ⟨hr, fun s hs => ?_⟩
    exact (hinv.step (Step.tick hm hr hs).done).mode
  · have h := hinv.mode
    rwa [hm] at h

/-- Task B, interrupted never and resumed once, is in ring 3. -/
theorem stays_in_ring3_firstTick : ∃ env m0 m h r, Started m0 ∧
    Run (Step (Env.guarded env)) m0 h m ∧ m.mode = .user r ∧ r.User := by
  obtain ⟨m0, hd⟩ := demo_exists (ext2Unmounted 0#32)
  obtain ⟨_, m, _, _, hmode, hrun⟩ := hd.firstTick (wildEnv fun _ _ => 0#8).guarded
  exact ⟨_, m0, m, _, _, hd.booted.started, hrun, hmode,
    ((stays_in_ring3 hd.booted.started hrun).1 _ hmode).1⟩

/-- **Without the guard it fails**: the frame of a signal stores 0 over the CS task B will be
resumed with. -/
theorem stays_in_ring3_unguarded : ∃ env m0 m h, Started m0 ∧ Run (Step env) m0 h m ∧
    (1 : Fin 8).val < m.kern.sched.ntasks ∧ ¬UserCtx (m.kern.task 1).regs := by
  obtain ⟨m0, hd⟩ := demo_exists (ext2Unmounted 0#32)
  obtain ⟨left, d, k, hk, hrun⟩ := hd.wildFields (fun _ _ => 0#8) (X := 0x110188) (f := .regs 1 9)
    (g := .regs 1 10) (by omega) (by omega) (by omega) rfl rfl
  refine ⟨_, m0, _, _, hd.booted.started, hrun, ?_, ?_⟩
  · show 1 < k.sched.ntasks
    rw [hk]
    show 1 < m0.kern.sched.ntasks
    rw [hd.ntasks]
    exact Nat.one_lt_two
  · show ¬UserCtx ((k.setTask 0 _).task 1).regs
    rw [Kernel.setTask_task_ne _ _ (by decide), hk]
    simp only [Field.put, Kernel.setTask_task_self]
    intro h
    have hcs := h.1
    rw [Function.update_self] at hcs
    cases hcs

end PepinOS
