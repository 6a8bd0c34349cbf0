import PepinOS.Arch.Cpu
import PepinOS.Process.Kernel

/-!
# The context switch

`do_switch` of `process/scheduler.c`, in its three stages: save the interrupted
context and CR3 in the running task, move to the next task of the ring, and
deliver a pending signal to it by rewriting the context that `iret` is about to
load.

`Event` is what a step of the machine has done, for the histories the properties
speak about; no step ever looks at it.

`doSwitch_cases` says everything a call can do that comes to its end; the rest of
the development uses it and not the definition.
-/

namespace PepinOS

/-- What a step of the machine did. -/
inductive Event where
  /-- nothing the histories count -/
  | quiet
  /-- signal `sig` became pending on task `t` -/
  | raised (t : Fin 8) (sig : Fin 32)
  /-- `do_switch` left task `out` with its context `saved` and resumed task `into` with the
  context `left`, a signal delivered with the context it interrupted or none -/
  | switched (out into : Fin 8) (saved left : Ctx) (sig : Option (Fin 32 × Ctx))
  /-- `SYS_SIGRETURN` left the handler of task `t` -/
  | returned (t : Fin 8)
  /-- `SYS_OPEN` of task `t` gave descriptor `fd`, on inode `ino` -/
  | opened (t fd : Fin 8) (ino : U32)
  | closed (t fd : Fin 8)
  /-- `SYS_READ` of task `t`, asked for `count` bytes, stored `bytes` -/
  | read (t fd : Fin 8) (count : U32) (bytes : List U8)

def Kernel.task (k : Kernel) (i : Fin 8) : Task := k.sched.pool i

def Kernel.setTask (k : Kernel) (i : Fin 8) (t : Task) : Kernel :=
  { k with sched := k.sched.setTask i t }

@[simp] theorem Kernel.setTask_task_self (k : Kernel) (i : Fin 8) (t : Task) :
    (k.setTask i t).task i = t := setTask_pool_self ..

theorem Kernel.setTask_task_ne (k : Kernel) {i j : Fin 8} (t : Task) (h : j ≠ i) :
    (k.setTask i t).task j = k.task j := setTask_pool_ne _ _ h

@[simp] theorem Kernel.setTask_setTask (k : Kernel) (i : Fin 8) (t u : Task) :
    (k.setTask i t).setTask i u = k.setTask i u := by
  unfold Kernel.setTask Sched.setTask
  simp only [Function.update_idem]

/-! ## The stages -/

/-- `cur_task->regs[i] = ctx[i]` and the read of CR3. -/
def saveContext (k : Kernel) (i : Fin 8) (ctx : Ctx) (cr3 : U32) : Kernel :=
  k.setTask i { k.task i with regs := ctx, cr3 := cr3 }

/-- `cur_task = next` and `ktss.esp0 = next->kstack_top`. -/
def resumeTask (k : Kernel) (j : Fin 8) : Kernel :=
  { k with sched := { k.sched with cur := some j }, esp0 := (k.task j).kstackTop }

/-- The first signal of the loop over `1 .. NSIG - 1` that is pending. -/
def lowestSignal (pending : U32) : Option (Fin 32) :=
  ((List.finRange 32).drop 1).find? fun sig => pending &&& (1#32 <<< sig.val) != 0#32

/-- The signal to deliver to a task, if any. -/
def signalFor (t : Task) : Option (Fin 32) :=
  if t.sigPending ≠ 0#32 ∧ t.sigInHandler = false then
    match lowestSignal t.sigPending with
    | none => none
    | some sig => if t.sigHandlers sig ≠ 0#32 then some sig else none
  else none

/-- The injection of the handler call, in the order of the source. A page fault on
the user stack ends it half-way. -/
def injectSignal (l : Link) (cr3 : U32) (k : Kernel) (mem : Mem) (j : Fin 8) (ctx : Ctx)
    (sig : Fin 32) : Except (Trap × Store) (Store × Ctx) :=
  let k := k.setTask j { k.task j with sigSavedRegs := ctx }
  let ctx := Function.update ctx 11 (ctx 11 - 4#32)
  match userStore32 l cr3 (k, mem) (ctx 11) (BitVec.ofNat 32 sig.val) with
  | .error t => .error (t, k, mem)
  | .ok (k, mem) =>
    let ctx := Function.update ctx 11 (ctx 11 - 4#32)
    match userStore32 l cr3 (k, mem) (ctx 11) 0#32 with
    | .error t => .error (t, k, mem)
    | .ok (k, mem) =>
      let t := k.task j
      let ctx := Function.update ctx 8 (t.sigHandlers sig)
      let k := k.setTask j
        { t with sigInHandler := true, sigPending := t.sigPending &&& ~~~(1#32 <<< sig.val) }
      .ok ((k, mem), ctx)

/-- The machine when `do_switch` returns: the context at `ctx` is what the stub pops. -/
structure Switched where
  kern : Kernel
  cr3 : U32
  mem : Mem
  ctx : Ctx
  ev : Event

/-- `do_switch`. A page fault keeps what was done before it. -/
def doSwitch (l : Link) (k : Kernel) (cr3 : U32) (mem : Mem) (ctx : Ctx) :
    Except (Trap × Store × U32) Switched :=
  match k.sched.cur with
  | none => .ok ⟨k, cr3, mem, ctx, .quiet⟩
  | some i =>
    if rpl (ctx 9) = 0#32 then .ok ⟨k, cr3, mem, ctx, .quiet⟩
    else
      let k := saveContext k i ctx cr3
      match listEntry (nextNode k.sched i) with
      | none => .error (.untracked, (k, mem), cr3)
      | some j =>
        let t := k.task j
        let k := resumeTask k j
        match signalFor t with
        | none => .ok ⟨k, t.cr3, mem, t.regs, .switched i j ctx t.regs none⟩
        | some sig =>
          match injectSignal l t.cr3 k mem j t.regs sig with
          | .error (e, s) => .error (e, s, t.cr3)
          | .ok ((k, mem), left) =>
            .ok ⟨k, t.cr3, mem, left, .switched i j ctx left (some (sig, t.regs))⟩

/-! ## What a call can do -/

/-- The kernel after the save and the move from task `i` to task `j`. -/
def switchTo (k : Kernel) (i j : Fin 8) (ctx : Ctx) (cr3 : U32) : Kernel :=
  resumeTask (saveContext k i ctx cr3) j

/-- A task with `sig` delivered: the interrupted context saved, in the handler. -/
def Task.signalled (t : Task) (ctx : Ctx) (sig : Fin 32) : Task :=
  { t with
    sigSavedRegs := ctx
    sigInHandler := true
    sigPending := t.sigPending &&& ~~~(1#32 <<< sig.val) }

/-- The context `iret` loads at a delivery: at the handler, two words pushed. -/
def handlerCtx (ctx : Ctx) (handler : U32) : Ctx :=
  Function.update (Function.update ctx 11 (ctx 11 - 8#32)) 8 handler

/-- The two words of the handler's call frame went to memory: the signal number at
ESP - 4, then a zero at ESP - 8. -/
def FrameWritten (l : Link) (cr3 esp : U32) (sig : Fin 32) (mem mem' : Mem) : Prop :=
  ∃ k mem1, userStore32 l.guarded cr3 (k, mem) (esp - 4#32) (BitVec.ofNat 32 sig.val) =
      .ok (k, mem1) ∧
    userStore32 l.guarded cr3 (k, mem1) (esp - 8#32) 0#32 = .ok (k, mem')

theorem FrameWritten.sameOwned {l : Link} {cr3 esp : U32} {sig : Fin 32} {mem mem' : Mem}
    (h : FrameWritten l cr3 esp sig mem mem') : SameOwned l mem mem' := by
  obtain ⟨_, _, h1, h2⟩ := h
  exact (userStore32_kept h1).2.trans (userStore32_kept h2).2

/-- An injection that comes to its end has made both stores. -/
theorem injectSignal_stored {l : Link} {cr3 : U32} {k k' : Kernel} {mem mem' : Mem} {j : Fin 8}
    {ctx left : Ctx} {sig : Fin 32}
    (h : injectSignal l cr3 k mem j ctx sig = .ok ((k', mem'), left)) :
    ∃ s1 k2, userStore32 l cr3 (k.setTask j { k.task j with sigSavedRegs := ctx }, mem)
        (ctx 11 - 4#32) (BitVec.ofNat 32 sig.val) = .ok s1 ∧
      userStore32 l cr3 s1 (ctx 11 - 8#32) 0#32 = .ok (k2, mem') ∧
      k' = k2.setTask j { k2.task j with
        sigInHandler := true
        sigPending := (k2.task j).sigPending &&& ~~~(1#32 <<< sig.val) } ∧
      left = handlerCtx ctx ((k2.task j).sigHandlers sig) := by
  have h8 : ctx 11 - 4#32 - 4#32 = ctx 11 - 8#32 := by
    rw [BitVec.sub_sub]
    rfl
  unfold injectSignal at h
  simp only [Function.update_self] at h
  split at h
  next => cases h
  next k1 mem1 h1 =>
    split at h
    next => cases h
    next k2 mem2 h2 =>
      cases h
      rw [h8] at h2
      refine ⟨_, k2, h1, h2, rfl, ?_⟩
      simp only [handlerCtx, h8, Function.update_idem]

/-- On the guarded machine the injection does what it is written to do. -/
theorem injectSignal_cases {l : Link} {cr3 : U32} {k k' : Kernel} {mem mem' : Mem} {j : Fin 8}
    {ctx left : Ctx} {sig : Fin 32}
    (h : injectSignal l.guarded cr3 k mem j ctx sig = .ok ((k', mem'), left)) :
    k' = k.setTask j ((k.task j).signalled ctx sig) ∧
      left = handlerCtx ctx ((k.task j).sigHandlers sig) ∧
      FrameWritten l cr3 (ctx 11) sig mem mem' := by
  obtain ⟨⟨k1, mem1⟩, k2, h1, h2, hk, hleft⟩ := injectSignal_stored h
  obtain ⟨e1, _⟩ := userStore32_kept h1
  obtain ⟨e2, _⟩ := userStore32_kept h2
  simp only at e1 e2
  subst e1
  subst e2
  rw [Kernel.setTask_task_self] at hk hleft
  refine ⟨hk.trans ?_, hleft, _, mem1, h1, h2⟩
  simp [Kernel.setTask, Sched.setTask, Task.signalled]

/-- How a switch from task `i` to task `j` ends: with the saved context of `j`, or
with a signal delivered to it. -/
inductive SwitchDone (l : Link) (k : Kernel) (cr3 : U32) (mem : Mem) (ctx : Ctx) (i j : Fin 8) :
    Switched → Prop where
  | plain (t : Task) : t = (switchTo k i j ctx cr3).task j → signalFor t = none →
      SwitchDone l k cr3 mem ctx i j
        ⟨switchTo k i j ctx cr3, t.cr3, mem, t.regs, .switched i j ctx t.regs none⟩
  | signal (t : Task) (sig : Fin 32) (mem' : Mem) : t = (switchTo k i j ctx cr3).task j →
      signalFor t = some sig → FrameWritten l t.cr3 (t.regs 11) sig mem mem' →
      SwitchDone l k cr3 mem ctx i j
        ⟨(switchTo k i j ctx cr3).setTask j (t.signalled t.regs sig), t.cr3, mem',
          handlerCtx t.regs (t.sigHandlers sig),
          .switched i j ctx (handlerCtx t.regs (t.sigHandlers sig)) (some (sig, t.regs))⟩

/-- The save leaves the list alone, so the next task is the one the list had before. -/
theorem nextNode_of_entry {k : Kernel} {i j : Fin 8} {ctx : Ctx} {cr3 : U32}
    (h : listEntry (nextNode (saveContext k i ctx cr3).sched i) = some j) :
    nextNode k.sched i = .task j := by
  have hlinks : nextNode (saveContext k i ctx cr3).sched i = nextNode k.sched i := rfl
  rw [hlinks] at h
  generalize nextNode k.sched i = node at h ⊢
  cases node with
  | head => cases h
  | task _ =>
    cases h
    rfl

/-- **What `do_switch` does**: nothing, without a task or from ring 0; else it goes from
the running task to the next one of the ring. -/
theorem doSwitch_cases {l : Link} {k : Kernel} {cr3 : U32} {mem : Mem} {ctx : Ctx} {s : Switched}
    (h : doSwitch l.guarded k cr3 mem ctx = .ok s) :
    ((k.sched.cur = none ∨ rpl (ctx 9) = 0#32) ∧ s = ⟨k, cr3, mem, ctx, .quiet⟩) ∨
    ∃ i j, k.sched.cur = some i ∧ nextNode k.sched i = .task j ∧
      SwitchDone l k cr3 mem ctx i j s := by
  unfold doSwitch at h
  split at h
  next hcur =>
    cases h
    exact .inl ⟨.inl hcur, rfl⟩
  next i hcur =>
    split at h
    next h0 =>
      cases h
      exact .inl ⟨.inr h0, rfl⟩
    next =>
      simp only at h
      split at h
      next => cases h
      next j hj =>
        refine .inr ⟨i, j, hcur, nextNode_of_entry hj, ?_⟩
        split at h
        next hsig =>
          cases h
          exact .plain _ rfl hsig
        next sig hsig =>
          split at h
          next => cases h
          next k' mem' left hinj =>
            cases h
            obtain ⟨rfl, rfl, hw⟩ := injectSignal_cases hinj
            exact .signal _ sig mem' rfl hsig hw

/-! ## The signal that is picked -/

theorem pending_bit (pending : U32) (sig : Fin 32) :
    (pending &&& (1#32 <<< sig.val) != 0#32) = pending.getLsbD sig.val := by
  have h : pending &&& (1#32 <<< sig.val) = 0#32 ↔ pending.getLsbD sig.val = false := by
    rw [← BitVec.twoPow_eq, BitVec.and_twoPow]
    have hne : BitVec.twoPow 32 sig.val ≠ 0#32 := by
      intro e
      have hbit := congrArg (fun w : U32 => w.getLsbD sig.val) e
      simp at hbit
    cases pending.getLsbD sig.val with
    | false => simp
    | true => simpa using hne
  cases hb : pending.getLsbD sig.val with
  | false => simpa using h.mpr hb
  | true =>
    have hne : pending &&& (1#32 <<< sig.val) ≠ 0#32 := fun e => by
      rw [h.mp e] at hb
      cases hb
    simpa using hne

/-- A signal is delivered only outside a handler, and it is pending, handled and not 0. -/
theorem signalFor_some {t : Task} {sig : Fin 32} (h : signalFor t = some sig) :
    t.sigInHandler = false ∧ t.sigPending.getLsbD sig.val = true ∧ t.sigHandlers sig ≠ 0#32 ∧
      sig ≠ 0 := by
  unfold signalFor at h
  split at h
  next hpend =>
    split at h
    next => cases h
    next s hs =>
      split at h
      next hh =>
        cases h
        have hbit := List.find?_some hs
        rw [pending_bit] at hbit
        have hmem := List.mem_of_find?_eq_some hs
        refine ⟨hpend.2, hbit, hh, ?_⟩
        intro e
        rw [e] at hmem
        revert hmem
        decide
      next => cases h
  next => cases h

/-! ## A fault inside the switch -/

theorem injectSignal_fault {l : Link} {cr3 : U32} {k k' : Kernel} {mem mem' : Mem} {j : Fin 8}
    {ctx : Ctx} {sig : Fin 32} {t : Trap}
    (h : injectSignal l.guarded cr3 k mem j ctx sig = .error (t, k', mem')) :
    k' = k.setTask j { k.task j with sigSavedRegs := ctx } := by
  unfold injectSignal at h
  simp only [Function.update_self] at h
  split at h
  next => cases h; rfl
  next k1 mem1 h1 =>
    split at h
    next =>
      cases h
      exact (userStore32_kept h1).1
    next => cases h

/-- The kernel that a trap inside `do_switch` leaves: the context saved and, if the next
task was found, resumed, with its own context saved for `SYS_SIGRETURN`. -/
inductive SwitchFault (k : Kernel) (cr3 : U32) (ctx : Ctx) (i : Fin 8) : Kernel → Prop where
  | lost : SwitchFault k cr3 ctx i (saveContext k i ctx cr3)
  | stack (j : Fin 8) (t : Task) : t = (switchTo k i j ctx cr3).task j →
      nextNode k.sched i = .task j → t.sigInHandler = false →
      SwitchFault k cr3 ctx i ((switchTo k i j ctx cr3).setTask j { t with sigSavedRegs := t.regs })

theorem doSwitch_fault {l : Link} {k k' : Kernel} {cr3 cr3' : U32} {mem mem' : Mem} {ctx : Ctx}
    {t : Trap} (h : doSwitch l.guarded k cr3 mem ctx = .error (t, (k', mem'), cr3')) :
    ∃ i, k.sched.cur = some i ∧ SwitchFault k cr3 ctx i k' := by
  unfold doSwitch at h
  split at h
  next => cases h
  next i hcur =>
    refine ⟨i, hcur, ?_⟩
    split at h
    next => cases h
    next =>
      simp only at h
      split at h
      next =>
        cases h
        exact .lost
      next j hj =>
        split at h
        next => cases h
        next sig hsig =>
          split at h
          next e s herr =>
            cases h
            rw [injectSignal_fault herr]
            exact .stack j _ rfl (nextNode_of_entry hj) (signalFor_some hsig).1
          next => cases h

/-! ## Forwards -/

section Forwards

variable {l : Link} {k : Kernel} {cr3 : U32} {mem : Mem} {ctx : Ctx} {i j : Fin 8}

/-- The save leaves the list alone. -/
theorem listEntry_next (hj : nextNode k.sched i = .task j) :
    listEntry (nextNode (saveContext k i ctx cr3).sched i) = some j := by
  have hlinks : nextNode (saveContext k i ctx cr3).sched i = nextNode k.sched i := rfl
  rw [hlinks, hj]
  rfl

theorem doSwitch_plain (hcur : k.sched.cur = some i) (h3 : rpl (ctx 9) ≠ 0#32)
    (hj : nextNode k.sched i = .task j) {t : Task} (ht : (switchTo k i j ctx cr3).task j = t)
    (hs : signalFor t = none) :
    doSwitch l k cr3 mem ctx =
      .ok ⟨switchTo k i j ctx cr3, t.cr3, mem, t.regs, .switched i j ctx t.regs none⟩ := by
  subst ht
  unfold doSwitch
  simp only [hcur, if_neg h3, listEntry_next hj]
  split
  next => rfl
  next sig hsig =>
    have hsig' : signalFor ((switchTo k i j ctx cr3).task j) = some sig := hsig
    rw [hs] at hsig'
    cases hsig'

theorem doSwitch_signal (hcur : k.sched.cur = some i) (h3 : rpl (ctx 9) ≠ 0#32)
    (hj : nextNode k.sched i = .task j) {t : Task} (ht : (switchTo k i j ctx cr3).task j = t)
    {sig : Fin 32} (hs : signalFor t = some sig) {k' : Kernel} {mem' : Mem} {left : Ctx}
    (hinj : injectSignal l t.cr3 (switchTo k i j ctx cr3) mem j t.regs sig =
      .ok ((k', mem'), left)) :
    doSwitch l k cr3 mem ctx =
      .ok ⟨k', t.cr3, mem', left, .switched i j ctx left (some (sig, t.regs))⟩ := by
  subst ht
  unfold doSwitch
  simp only [hcur, if_neg h3, listEntry_next hj]
  split
  next hsig =>
    have hsig' : signalFor ((switchTo k i j ctx cr3).task j) = none := hsig
    rw [hs] at hsig'
    cases hsig'
  next sig' hsig =>
    have hsig' : signalFor ((switchTo k i j ctx cr3).task j) = some sig' := hsig
    rw [hs] at hsig'
    cases hsig'
    have hinj' : injectSignal l ((resumeTask (saveContext k i ctx cr3) j).task j).cr3
        (resumeTask (saveContext k i ctx cr3) j) mem j
        ((resumeTask (saveContext k i ctx cr3) j).task j).regs sig = .ok ((k', mem'), left) := hinj
    have hregs : ((resumeTask (saveContext k i ctx cr3) j).task j) =
        (saveContext k i ctx cr3).task j := rfl
    rw [hregs] at hinj'
    simp only [hinj']
    rfl

/-- An injection both of whose stores go through. -/
theorem injectSignal_stores {k1 k2 : Kernel} {mem1 mem2 : Mem} {sig : Fin 32}
    (h1 : userStore32 l cr3 (k.setTask j { k.task j with sigSavedRegs := ctx }, mem)
      (ctx 11 - 4#32) (BitVec.ofNat 32 sig.val) = .ok (k1, mem1))
    (h2 : userStore32 l cr3 (k1, mem1) (ctx 11 - 8#32) 0#32 = .ok (k2, mem2)) :
    injectSignal l cr3 k mem j ctx sig =
      .ok ((k2.setTask j { k2.task j with
          sigInHandler := true
          sigPending := (k2.task j).sigPending &&& ~~~(1#32 <<< sig.val) }, mem2),
        handlerCtx ctx ((k2.task j).sigHandlers sig)) := by
  have h8 : ctx 11 - 4#32 - 4#32 = ctx 11 - 8#32 := by
    rw [BitVec.sub_sub]
    rfl
  unfold injectSignal
  simp only [Function.update_self, h1, h8, h2, handlerCtx, Function.update_idem]

end Forwards

end PepinOS
