import PepinOS.Process.WildStore

/-!
# Signals are neither lost, duplicated nor nested

A bit mask and a flag stand for a history. `pendingIn` and `handling` read it off the
events of a run; `TaskSignals` says that the mask, the flag and the saved registers
of a task are what the history says. Each of the operations that touch them (a raise,
a delivery, a return) has a lemma of its own, and every other event is none of the
task's affair (`TaskSignals.other`).

One raise can be lost. `SYS_KILL` reads the mask and writes it back with interrupts
on, and a Ctrl+C in between is overwritten (`signals_exact_overwritten`). So what is said of
the mask holds of the runs in which none comes at such a time (`Unraced`), and the
invariant says it under a condition, `calm`; what is said of the flag and the
registers needs none.
-/

namespace PepinOS

/-- `s` was raised on `t` after its last delivery to `t`. -/
def pendingIn (t : Fin 8) (s : Fin 32) : List Event → Bool
  | [] => false
  | .raised t' s' :: h => if t' = t ∧ s' = s then true else pendingIn t s h
  | .switched _ into _ _ (some (s', _)) :: h =>
    if into = t ∧ s' = s then false else pendingIn t s h
  | _ :: h => pendingIn t s h

/-- The context that the last delivery to `t` interrupted, if `t` has not called
`SYS_SIGRETURN` in the handler since. -/
def handling (t : Fin 8) : List Event → Option Ctx
  | [] => none
  | .switched _ into _ _ (some (_, ctx)) :: h => if into = t then some ctx else handling t h
  | .returned t' :: h => if t' = t then none else handling t h
  | _ :: h => handling t h

/-- The task whose signals an event is about. -/
def Event.target : Event → Option (Fin 8)
  | .raised t _ => some t
  | .switched _ into _ _ (some _) => some into
  | .returned t => some t
  | _ => none

theorem pendingIn_other {ev : Event} {t : Fin 8} (hev : ev.target ≠ some t) (s : Fin 32)
    (h : List Event) : pendingIn t s (ev :: h) = pendingIn t s h := by
  cases ev with
  | raised t' s' => exact if_neg fun e => hev (congrArg some e.1)
  | switched out into saved left sig =>
    cases sig with
    | none => rfl
    | some p => exact if_neg fun e => hev (congrArg some e.1)
  | _ => rfl

theorem handling_other {ev : Event} {t : Fin 8} (hev : ev.target ≠ some t) (h : List Event) :
    handling t (ev :: h) = handling t h := by
  cases ev with
  | switched out into saved left sig =>
    cases sig with
    | none => rfl
    | some p => exact if_neg fun e => hev (congrArg some e)
  | returned t' => exact if_neg fun e => hev (congrArg some e)
  | _ => rfl

/-! ## One task -/

/-- The part of a task that signals touch, its handlers apart. -/
def Task.signals (u : Task) : U32 × Bool × Ctx := (u.sigPending, u.sigInHandler, u.sigSavedRegs)

/-- Task `t`, now `u`, is as the history says, its mask as long as no raise was
overwritten. -/
structure TaskSignals (calm : Prop) (h : List Event) (t : Fin 8) (u : Task) : Prop where
  pending : calm → ∀ s : Fin 32, u.sigPending.getLsbD s.val = pendingIn t s h
  not0 : calm → u.sigPending.getLsbD 0 = false
  inHandler : u.sigInHandler = (handling t h).isSome
  saved : ∀ ctx, handling t h = some ctx → u.sigSavedRegs = ctx

section OneTask

variable {calm : Prop} {h : List Event} {t : Fin 8} {u u' : Task}

theorem TaskSignals.congr (hts : TaskSignals calm h t u) (hu : u'.signals = u.signals) :
    TaskSignals calm h t u' := by
  simp only [Task.signals, Prod.mk.injEq] at hu
  obtain ⟨h1, h2, h3⟩ := hu
  exact ⟨by rw [h1]; exact hts.pending, by rw [h1]; exact hts.not0, by rw [h2]; exact hts.inHandler,
    by rw [h3]; exact hts.saved⟩

theorem TaskSignals.other (hts : TaskSignals calm h t u) {ev : Event} (hev : ev.target ≠ some t) :
    TaskSignals calm (ev :: h) t u := by
  refine ⟨fun hc s => ?_, hts.not0, ?_, fun ctx hctx => ?_⟩
  · rw [pendingIn_other hev]
    exact hts.pending hc s
  · rw [handling_other hev]
    exact hts.inHandler
  · rw [handling_other hev] at hctx
    exact hts.saved ctx hctx

/-- The write of `SYS_KILL`: a raise, if all that came after the read `w` of the mask is the
bit written. -/
theorem TaskSignals.killed (hts : TaskSignals calm h t u) {s : Fin 32} {w : U32}
    (hw : calm → s ≠ 0 ∧ w ||| (1#32 <<< s.val) = u.sigPending ||| (1#32 <<< s.val)) :
    TaskSignals calm (.raised t s :: h) t { u with sigPending := w ||| (1#32 <<< s.val) } := by
  refine ⟨fun hc k => ?_, fun hc => ?_, hts.inHandler, hts.saved⟩
  · show (w ||| (1#32 <<< s.val)).getLsbD k.val = _
    rw [(hw hc).2, getLsbD_or_mask _ s.isLt, hts.pending hc k, pendingIn]
    by_cases hk : k = s
    · simp [hk]
    · have hv : ¬k.val = s.val := fun e => hk (Fin.ext e)
      simp [hv, Ne.symm hk]
  · show (w ||| (1#32 <<< s.val)).getLsbD 0 = false
    have hv : ¬0 = s.val := fun e => (hw hc).1 (Fin.ext e.symm)
    rw [(hw hc).2, getLsbD_or_mask _ s.isLt, hts.not0 hc]
    simp [hv]

/-- `sched_signal`, and `SYS_KILL` with nothing between its read and its write. -/
theorem TaskSignals.raise (hts : TaskSignals calm h t u) {s : Fin 32} (hs : s ≠ 0) :
    TaskSignals calm (.raised t s :: h) t
      { u with sigPending := u.sigPending ||| (1#32 <<< s.val) } :=
  hts.killed fun _ => ⟨hs, rfl⟩

/-- The delivery of `do_switch`. -/
theorem TaskSignals.deliver (hts : TaskSignals calm h t u) (out : Fin 8) (saved left ctx : Ctx)
    (s : Fin 32) :
    TaskSignals calm (.switched out t saved left (some (s, ctx)) :: h) t (u.signalled ctx s) := by
  refine ⟨fun hc k => ?_, fun hc => ?_, ?_, fun c hctx => ?_⟩
  · show (u.sigPending &&& ~~~(1#32 <<< s.val)).getLsbD k.val = _
    rw [getLsbD_and_not_mask _ s.isLt, hts.pending hc k, pendingIn]
    by_cases hk : k = s
    · simp [hk]
    · have hv : ¬k.val = s.val := fun e => hk (Fin.ext e)
      simp [hv, Ne.symm hk]
  · show (u.sigPending &&& ~~~(1#32 <<< s.val)).getLsbD 0 = false
    rw [getLsbD_and_not_mask _ s.isLt, hts.not0 hc]
    rfl
  · rw [handling, if_pos rfl]
    rfl
  · rw [handling, if_pos rfl] at hctx
    exact Option.some.inj hctx

/-- `SYS_SIGRETURN`. -/
theorem TaskSignals.sigreturn (hts : TaskSignals calm h t u) :
    TaskSignals calm (.returned t :: h) t { u with sigInHandler := false } := by
  refine ⟨hts.pending, hts.not0, ?_, fun c hc => ?_⟩
  · rw [handling, if_pos rfl]
    rfl
  · rw [handling, if_pos rfl] at hc
    cases hc

/-- The switch that a fault on the user stack breaks off has saved the registers already;
nobody will return to them. -/
theorem TaskSignals.unsaved (hts : TaskSignals calm h t u) (hin : u.sigInHandler = false)
    (ctx : Ctx) : TaskSignals calm h t { u with sigSavedRegs := ctx } := by
  refine ⟨hts.pending, hts.not0, hts.inHandler, fun c hc => ?_⟩
  have hsome := hts.inHandler
  rw [hc, hin] at hsome
  cases hsome

end OneTask

/-! ## All tasks -/

/-- `SYS_KILL` has read a mask without signal 2 and will write it back without: a Ctrl+C that
comes now is lost. -/
def Machine.Overwrites (m : Machine) : Prop :=
  ∃ r sig pending, m.mode = .killing r sig pending ∧ pending.getLsbD 2 = false ∧ sig ≠ 2

/-- A step in which none comes then. Of the steps of a machine that overwrites, only the
keyboard's raise signal 2. -/
def Unraced (env : Env) (m : Machine) (ev : Event) (m' : Machine) : Prop :=
  Step env m ev m' ∧ (m.Overwrites → ∀ i, ev ≠ .raised i 2)

theorem Run.steps {env : Env} {m m' : Machine} {h : List Event} (hrun : Run (Unraced env) m h m') :
    Run (Step env) m h m' :=
  hrun.mono fun _ _ _ hs => hs.1

structure SignalInv (calm : Prop) (h : List Event) (m : Machine) : Prop where
  sched : SchedInv m.kern.sched
  tasks : ∀ t : Fin 8, t.val < m.kern.sched.ntasks → TaskSignals calm h t (m.kern.task t)
  /-- between the read and the write of `SYS_KILL` nothing comes but the bit to be written -/
  killing : calm → ∀ {r sig w i}, m.mode = .killing r sig w → m.kern.sched.cur = some i →
    sig ≠ 0 ∧ w ||| (1#32 <<< sig.val) = (m.kern.task i).sigPending ||| (1#32 <<< sig.val)

section AllTasks

variable {calm : Prop} {h : List Event}

/-- The save and the move touch no signals. -/
theorem switchTo_signals (k : Kernel) (i j : Fin 8) (ctx : Ctx) (cr3 : U32) (t : Fin 8) :
    ((switchTo k i j ctx cr3).task t).signals = (k.task t).signals :=
  setTask_frame Task.signals (by rfl) t

/-- An operation on task `i` alone. -/
theorem tasks_setTask {ev : Event} {s : Sched} {n : Nat} {i : Fin 8} {u : Task}
    (hall : ∀ t : Fin 8, t.val < n → TaskSignals calm h t (s.pool t))
    (hev : ev.target = none ∨ ev.target = some i)
    (hi : TaskSignals calm h i (s.pool i) → TaskSignals calm (ev :: h) i u) (t : Fin 8)
    (ht : t.val < n) : TaskSignals calm (ev :: h) t ((s.setTask i u).pool t) := by
  by_cases hti : t = i
  · subst hti
    rw [setTask_pool_self]
    exact hi (hall t ht)
  · rw [setTask_pool_ne _ _ hti]
    refine (hall t ht).other fun e => ?_
    rcases hev with h0 | h1
    · rw [h0] at e
      cases e
    · rw [h1] at e
      exact hti (Option.some.inj e).symm

/-- An operation on task `i` that touches no signals. -/
theorem tasks_keep {ev : Event} {s : Sched} {n : Nat} {i : Fin 8} {u : Task}
    (hall : ∀ t : Fin 8, t.val < n → TaskSignals calm h t (s.pool t)) (hev : ev.target = none)
    (hu : u.signals = (s.pool i).signals) (t : Fin 8) (ht : t.val < n) :
    TaskSignals calm (ev :: h) t ((s.setTask i u).pool t) := by
  refine tasks_setTask hall (.inl hev) (fun hi => (hi.other ?_).congr hu) t ht
  rw [hev]
  nofun

theorem CallDone.signals {env : Env} {cr3 : U32} {s s' : Calling} {f f' : Frame} {res : U32}
    {ev : Event} (hdone : CallDone env cr3 s f s' f' res ev) {n : Nat}
    (hall : ∀ t : Fin 8, t.val < n → TaskSignals calm h t (s.kern.task t)) (t : Fin 8)
    (ht : t.val < n) : TaskSignals calm (ev :: h) t (s'.kern.task t) := by
  unfold Kernel.task at hall ⊢
  cases hdone with
  | quiet hs _ =>
    rw [hs]
    exact (hall t ht).other nofun
  | opened _ _ _ _ _ _ hs _ _ =>
    rw [hs]
    exact tasks_keep hall (by rfl) (by rfl) t ht
  | closed _ _ _ hs _ =>
    rw [hs]
    exact tasks_keep hall (by rfl) (by rfl) t ht
  | read _ _ _ _ _ _ hs _ =>
    rw [hs]
    exact tasks_keep hall (by rfl) (by rfl) t ht
  | sigaction _ _ hs _ =>
    rw [hs]
    exact tasks_keep hall (by rfl) (by rfl) t ht
  | raised _ h0 hs _ =>
    rw [hs]
    exact tasks_setTask hall (.inr rfl) (fun hi => hi.raise h0) t ht
  | returned _ _ hs _ =>
    rw [hs]
    exact tasks_setTask hall (.inr rfl) TaskSignals.sigreturn t ht

theorem SwitchDone.signals {l : Link} {k : Kernel} {cr3 : U32} {mem : Mem} {ctx : Ctx}
    {i j : Fin 8} {s : Switched} (hdone : SwitchDone l k cr3 mem ctx i j s) {n : Nat}
    (hall : ∀ t : Fin 8, t.val < n → TaskSignals calm h t (k.task t)) (t : Fin 8)
    (ht : t.val < n) : TaskSignals calm (s.ev :: h) t (s.kern.task t) := by
  have hto : ∀ t : Fin 8, t.val < n → TaskSignals calm h t ((switchTo k i j ctx cr3).task t) :=
    fun t ht => (hall t ht).congr (switchTo_signals k i j ctx cr3 t)
  cases hdone with
  | plain u _ _ => exact (hto t ht).other nofun
  | signal u sig mem' hu _ _ =>
    refine tasks_setTask hto (.inr rfl) (fun hj => ?_) t ht
    rw [hu]
    exact hj.deliver i ctx _ _ sig

theorem SwitchFault.signals {k k' : Kernel} {cr3 : U32} {ctx : Ctx} {i : Fin 8}
    (hf : SwitchFault k cr3 ctx i k') {n : Nat}
    (hall : ∀ t : Fin 8, t.val < n → TaskSignals calm h t (k.task t)) (t : Fin 8) (ht : t.val < n) :
    TaskSignals calm (.quiet :: h) t (k'.task t) := by
  have hto : ∀ j t : Fin 8, t.val < n → TaskSignals calm h t ((switchTo k i j ctx cr3).task t) :=
    fun j t ht => (hall t ht).congr (switchTo_signals k i j ctx cr3 t)
  cases hf with
  | lost => exact (hto i t ht).other nofun
  | stack j u hu _ hin =>
    refine tasks_setTask (hto j) (.inl rfl) (fun hj => ?_) t ht
    have hu' : TaskSignals calm h j u := by
      rw [hu]
      exact hj
    exact (hu'.unsaved hin _).other nofun

/-- A bit that is set already. -/
theorem or_mask_self {w : U32} {s : Fin 32} (hs : w.getLsbD s.val = true) :
    w ||| (1#32 <<< s.val) = w := by
  apply BitVec.eq_of_getLsbD_eq
  intro k hk
  rw [getLsbD_or_mask w s.isLt]
  by_cases he : k = s.val
  · rw [he, hs]
    rfl
  · simp [he]

/-- What the keyboard raises between the read and the write of `SYS_KILL` is in what will be
written, or it disturbs. -/
theorem SignalInv.keyed {m : Machine} (hinv : SignalInv calm h m) (scancode : U8)
    (hquiet : calm → m.Overwrites → ∀ i, keyEvent m.kern scancode ≠ .raised i 2) (hc : calm)
    {r : Regs} {sig : Fin 32} {w : U32} {i : Fin 8} (hm : m.mode = .killing r sig w)
    (hcur : m.kern.sched.cur = some i) :
    sig ≠ 0 ∧ w ||| (1#32 <<< sig.val) =
      ((m.kern.keyed scancode).task i).sigPending ||| (1#32 <<< sig.val) := by
  obtain ⟨h0, hw⟩ := hinv.killing hc hm hcur
  refine ⟨h0, ?_⟩
  unfold Kernel.task at hw ⊢
  rcases keyed_cases m.kern scancode with ⟨_, hs⟩ | ⟨i', hi', hev, hs⟩
  · rw [hs]
    exact hw
  · rw [hcur] at hi'
    cases hi'
    have hbit : (w ||| (1#32 <<< sig.val)).getLsbD (2 : Fin 32).val = true := by
      by_contra hno
      rw [getLsbD_or_mask w sig.isLt, Bool.not_eq_true, Bool.or_eq_false_iff] at hno
      refine hquiet hc ⟨r, sig, w, hm, hno.1, ?_⟩ i hev
      rintro rfl
      simp at hno
    rw [hs, setTask_pool_self]
    calc w ||| (1#32 <<< sig.val)
        = (w ||| (1#32 <<< sig.val)) ||| (1#32 <<< (2 : Fin 32).val) := (or_mask_self hbit).symm
      _ = ((m.kern.sched.pool i).sigPending ||| (1#32 <<< sig.val)) |||
            (1#32 <<< (2 : Fin 32).val) := by rw [hw]
      _ = ((m.kern.sched.pool i).sigPending ||| (1#32 <<< (2 : Fin 32).val)) |||
            (1#32 <<< sig.val) := by
          rw [BitVec.or_assoc, BitVec.or_comm (1#32 <<< sig.val), ← BitVec.or_assoc]

/-- **Every step keeps the tasks to their history.** -/
theorem SignalInv.step {env : Env} {m m' : Machine} {ev : Event} (hinv : SignalInv calm h m)
    (hstep : StepDone env m ev m') (hquiet : calm → m.Overwrites → ∀ i, ev ≠ .raised i 2) :
    SignalInv calm (ev :: h) m' := by
  obtain ⟨hsched, hn⟩ := hstep.schedInv hinv.sched
  have hall := hinv.tasks
  cases hstep with
  | still hs hmode =>
    refine ⟨hsched, fun t ht => ?_, fun hc r sig w i hm hcur => ?_⟩
    · rw [hn] at ht
      unfold Kernel.task
      rw [hs.sched]
      exact (hall t ht).other nofun
    · unfold Kernel.task
      rw [hs.sched] at hcur ⊢
      generalize hd : m.mode = d at hmode
      rw [hm] at hmode
      cases hmode with
      | same => exact hinv.killing hc hd hcur
      | load r hcur' h0 =>
        rw [hcur] at hcur'
        cases hcur'
        exact ⟨h0, rfl⟩
  | keyed scancode _ =>
    refine ⟨hsched, fun t ht => ?_, fun hc r sig w i hm hcur => ?_⟩
    · rw [hn] at ht
      show TaskSignals calm _ t ((m.kern.keyed scancode).sched.pool t)
      rcases keyed_cases m.kern scancode with ⟨he, hs⟩ | ⟨i, _, he, hs⟩
      · rw [he, hs]
        exact (hall t ht).other nofun
      · rw [he, hs]
        exact tasks_setTask hall (.inr rfl) (fun hi => hi.raise (by decide)) t ht
    · exact hinv.keyed scancode hquiet hc hm ((keyed_cur m.kern scancode).symm.trans hcur)
  | switched _ _ _ _ hdone =>
    exact ⟨hsched, fun t ht => hdone.signals hall t (hn ▸ ht), nofun⟩
  | switchFault _ _ _ hf =>
    exact ⟨hsched, fun t ht => hf.signals hall t (hn ▸ ht), nofun⟩
  | called _ _ hdone => exact ⟨hsched, fun t ht => hdone.signals hall t (hn ▸ ht), nofun⟩
  | @killed r i sig w hm hcur =>
    refine ⟨hsched, fun t ht => ?_, nofun⟩
    exact tasks_setTask hall (.inr rfl) (fun hi => hi.killed fun hc => hinv.killing hc hm hcur) t
      (hn ▸ ht)

theorem Started.signalInv {m : Machine} (hm : Started m) : SignalInv calm [] m := by
  refine ⟨hm.tasks.inv, fun t ht => ?_, fun _ r sig w i hmode => ?_⟩
  · obtain ⟨_, _, _, _, _, he⟩ := hm.tasks.task t ht
    unfold Kernel.task
    rw [he]
    exact ⟨fun _ s => BitVec.getLsbD_zero, fun _ => BitVec.getLsbD_zero, rfl, nofun⟩
  · obtain ⟨r', hr', _⟩ := hm.user
    rw [hmode] at hr'
    cases hr'

end AllTasks

/-! ## Deliveries -/

/-- What a delivery of `s` to task `t` finds before the step and leaves after it; `ctx` is
the interrupted context and `left` the one the task goes on with. -/
structure Delivered (m m' : Machine) (t : Fin 8) (s : Fin 32) (ctx left : Ctx) : Prop where
  notNested : (m.kern.task t).sigInHandler = false
  pending : (m.kern.task t).sigPending.getLsbD s.val = true
  handled : (m.kern.task t).sigHandlers s ≠ 0#32
  interrupted : (m'.kern.task t).regs = ctx
  running : m'.kern.sched.cur = some t ∧ m'.mode = .user (Regs.popped left)
  eip : left 8 = (m.kern.task t).sigHandlers s
  esp : left 11 = ctx 11 - 8#32
  top : userWord m'.mem m'.cr3 (left 11) = some 0#32
  arg : userWord m'.mem m'.cr3 (left 11 + 4#32) = some (BitVec.ofNat 32 s.val)

theorem StepDone.delivered {env : Env} {m m' : Machine} {out into : Fin 8} {saved left ctx : Ctx}
    {s : Fin 32} (hstep : StepDone env m (.switched out into saved left (some (s, ctx))) m') :
    Delivered m m' into s ctx left := by
  obtain ⟨r, i, j, sw, hm, hdone, hev, rfl⟩ := hstep.switch
  cases hdone with
  | plain => simp at hev
  | signal u sig mem' hu hsig hw =>
    simp only [Event.switched.injEq, Option.some.injEq, Prod.mk.injEq] at hev
    obtain ⟨rfl, rfl, rfl, rfl, rfl, rfl⟩ := hev
    obtain ⟨hin, hpend, hh, _⟩ := signalFor_some hsig
    have hfields : u.signals = (m.kern.task j).signals ∧
        u.sigHandlers = (m.kern.task j).sigHandlers := by
      rw [hu]
      exact ⟨switchTo_signals .., setTask_frame Task.sigHandlers (by rfl) j⟩
    obtain ⟨hsignals, hhandlers⟩ := hfields
    simp only [Task.signals, Prod.mk.injEq] at hsignals
    rw [hsignals.2.1] at hin
    rw [hsignals.1] at hpend
    rw [hhandlers] at hh
    obtain ⟨htop, harg⟩ := hw.words
    refine ⟨hin, hpend, hh, ?_, ⟨rfl, rfl⟩, ?_, ?_, ?_, ?_⟩
    · simp only [Kernel.setTask_task_self]
      rfl
    · rw [← hhandlers]
      rfl
    · rfl
    · exact htop
    · exact harg

/-- **What a Ctrl+C does in the middle of `SYS_KILL`**: the write loses it. -/
theorem Machine.overwritten {env : Env} {m m1 : Machine} {r : Regs} {sig : Fin 32} {w : U32}
    {i : Fin 8} (hm : m.mode = .killing r sig w) (hw : w.getLsbD 2 = false) (hsig : sig ≠ 2)
    (hkey : Step env.guarded m (.raised i 2) m1) :
    ∃ m2, Step env.guarded m1 (.raised i sig) m2 ∧
      (m2.kern.task i).sigPending.getLsbD 2 = false := by
  have hdone := hkey.done
  generalize hev : Event.raised i 2 = ev at hdone
  cases hdone with
  | still => cases hev
  | keyed scancode _ =>
    have hcur : m.kern.sched.cur = some i := by
      rcases keyed_cases m.kern scancode with ⟨he, _⟩ | ⟨i', hi', he, _⟩
      · rw [he] at hev
        cases hev
      · rw [he] at hev
        cases hev
        exact hi'
    refine ⟨_, .killStore hm ((keyed_cur m.kern scancode).trans hcur), ?_⟩
    show ((Kernel.setTask _ i _).task i).sigPending.getLsbD 2 = false
    have hv : ¬2 = sig.val := fun e => hsig (Fin.ext e.symm)
    rw [Kernel.setTask_task_self, getLsbD_or_mask w sig.isLt, hw]
    simp [hv]
  | switched hm' => rw [hm] at hm'; cases hm'
  | switchFault => cases hev
  | called hm' => rw [hm] at hm'; cases hm'
  | killed hm' =>
    rw [hm] at hm'
    cases hm'
    cases hev
    exact absurd rfl hsig

/-- **Signals are neither lost, duplicated nor nested**, in every run in which no store
through a user pointer lands in the kernel's own memory and no Ctrl+C comes between the
read and the write of `SYS_KILL` (unless the write keeps it, because signal 2 was pending
already or is the one raised): a pending bit is set exactly when the signal was raised
after its last delivery, bit 0 never; a task is in a handler exactly when its last
delivery has not been followed by its `SYS_SIGRETURN`, and until then the interrupted
context stays saved; and each delivery is one of a pending signal, outside a handler, to
the handler set for it. A Ctrl+C that does come then is lost with the next step. -/
theorem signals_exact {env : Env} {m0 m : Machine} {h : List Event} (hstart : Started m0)
    (hrun : Run (Unraced env.guarded) m0 h m) :
    (∀ t : Fin 8, t.val < m.kern.sched.ntasks →
      (∀ s : Fin 32, s ≠ 0 →
        ((m.kern.task t).sigPending.getLsbD s.val = true ↔ pendingIn t s h = true)) ∧
      (m.kern.task t).sigPending.getLsbD 0 = false ∧
      ((m.kern.task t).sigInHandler = true ↔ ∃ ctx, handling t h = some ctx) ∧
      ∀ ctx, handling t h = some ctx → (m.kern.task t).sigSavedRegs = ctx) ∧
    (∀ out into saved left s ctx m',
      Step env.guarded m (.switched out into saved left (some (s, ctx))) m' →
      Delivered m m' into s ctx left) ∧
    ∀ i m1, m.Overwrites → Step env.guarded m (.raised i 2) m1 →
      ∃ sig m2, Step env.guarded m1 (.raised i sig) m2 ∧
        pendingIn i 2 (.raised i sig :: .raised i 2 :: h) = true ∧
        (m2.kern.task i).sigPending.getLsbD 2 = false := by
  have hinv : SignalInv True h m := hrun.inv (SignalInv True) hstart.signalInv
    fun _ _ _ _ hi hs => hi.step hs.1.done fun _ => hs.2
  refine ⟨fun t ht => ?_, fun out into saved left s ctx m' hs => hs.done.delivered, ?_⟩
  · have hts := hinv.tasks t ht
    refine ⟨fun s _ => by rw [hts.pending trivial s], hts.not0 trivial, ?_, hts.saved⟩
    rw [hts.inHandler, Option.isSome_iff_exists]
  · rintro i m1 ⟨r, sig, w, hm, hw, hsig⟩ hkey
    obtain ⟨m2, hstore, hlost⟩ := Machine.overwritten hm hw hsig hkey
    refine ⟨sig, m2, hstore, ?_, hlost⟩
    rw [pendingIn, if_neg fun e => hsig e.2, pendingIn, if_pos ⟨rfl, rfl⟩]

/-! ## A Ctrl+C in the middle of a call -/

/-- What task A calls `SYS_KILL` with. -/
def killRegs : Regs :=
  { zeroRegs with eax := sysKill, ebx := 5#32, cs := 0x23#32, eflags := 0x202#32 }

/-- Ctrl is held down and task A has begun to raise signal 5: its empty mask is read. -/
theorem Demo.killing {e : Ext2} {m0 : Machine} (hd : Demo e m0) (env : Env) : ∃ m,
    Run (Unraced env) m0 [.quiet, .quiet, .quiet, .quiet] m ∧
    m.kern = m0.kern.keyed 0x1D#8 ∧ m.mode = .killing killRegs 5 0#32 := by
  obtain ⟨r, hm, hr⟩ := hd.user
  have hkill : killRegs.User := show UserMode 0x23#32 0x202#32 from ⟨rfl, rfl, rfl⟩
  have hcur : (m0.kern.keyed 0x1D#8).sched.cur = some 0 := (keyed_cur ..).trans hd.cur
  have hevent : keyEvent m0.kern 0x1D#8 = .quiet := by
    have hctrl : keyInterrupts m0.kern.keyboard 0x1D#8 = false := by
      unfold keyInterrupts
      rw [show keyChar 0x1D#8 = none from keyChar_ctrl (.inl rfl)]
      exact Bool.and_false _
    unfold keyEvent
    rw [hd.cur]
    exact if_neg (by rw [hctrl]; nofun)
  have htask : ((m0.kern.keyed 0x1D#8).task 0).sigPending = 0#32 := by
    have hsched : (m0.kern.keyed 0x1D#8).sched = m0.kern.sched := by
      rcases keyed_cases m0.kern 0x1D#8 with ⟨_, hs⟩ | ⟨i, _, he, _⟩
      · exact hs
      · rw [hevent] at he
        cases he
    unfold Kernel.task
    rw [hsched]
    exact congrArg Task.sigPending hd.taskA
  have h1 : Step env m0 _ { m0 with kern := m0.kern.keyed 0x1D#8 } :=
    .key (by rw [hm]; nofun)
  rw [hevent] at h1
  have h2 : Step env { m0 with kern := m0.kern.keyed 0x1D#8 } .quiet
      { m0 with kern := m0.kern.keyed 0x1D#8, mode := .user killRegs } := .compute hm hr hkill
  have h3 : Step env { m0 with kern := m0.kern.keyed 0x1D#8, mode := .user killRegs } .quiet
      { m0 with kern := m0.kern.keyed 0x1D#8, mode := .entry killRegs } := .int30 rfl hkill
  have h4 : Step env { m0 with kern := m0.kern.keyed 0x1D#8, mode := .entry killRegs } .quiet _ :=
    .killLoad rfl rfl hcur (sigArg_lit (n := 5) ⟨by omega, by omega⟩)
  refine ⟨_, .step (.step (.step (.step .start ⟨h1, fun _ => nofun⟩) ⟨h2, fun _ => nofun⟩)
    ⟨h3, fun _ => nofun⟩) ⟨h4, fun _ => nofun⟩, rfl, ?_⟩
  show Mode.killing killRegs 5 ((m0.kern.keyed 0x1D#8).task 0).sigPending = _
  rw [htask]

theorem keyed_ctrlC {k : Kernel} {m : Machine}
    (hkb : m.kern.keyboard = (k.keyed 0x1D#8).keyboard) (hcur : m.kern.sched.cur = some 0)
    (env : Env) (hm : m.mode ≠ .halted) :
    Step env m (.raised 0 2) { m with kern := m.kern.keyed 0x2E#8 } := by
  have hctrl : keyInterrupts m.kern.keyboard 0x2E#8 = true := by
    rw [hkb]
    rfl
  have hev : keyEvent m.kern 0x2E#8 = .raised 0 2 := by
    unfold keyEvent
    rw [hcur]
    exact if_pos hctrl
  rw [← hev]
  exact .key hm

/-- A Ctrl+C after the write is kept: both signals are pending. -/
theorem signals_exact_kept : ∃ env m0 m h, Started m0 ∧ Run (Unraced (Env.guarded env)) m0 h m ∧
    (m.kern.task 0).sigPending.getLsbD 2 = true ∧ (m.kern.task 0).sigPending.getLsbD 5 = true := by
  obtain ⟨m0, hd⟩ := demo_exists (ext2Unmounted 0#32)
  obtain ⟨m, hrun, hk, hm⟩ := hd.killing (wildEnv fun _ _ => 0#8).guarded
  have hcur : m.kern.sched.cur = some 0 := by
    rw [hk]
    exact (keyed_cur ..).trans hd.cur
  have hstore : Step (wildEnv fun _ _ => 0#8).guarded m (.raised 0 5) _ := .killStore hm hcur
  have hkey := keyed_ctrlC (k := m0.kern) (m := { m with
      kern := m.kern.killed 0 5 0#32
      mode := .leave (killRegs.clobbered (0#32, 0#32)) killRegs.frame 0#32 })
    (by rw [← hk]; rfl) hcur (wildEnv fun _ _ => 0#8).guarded nofun
  have hall := Run.step (.step hrun ⟨hstore, fun _ _ => nofun⟩)
    (show Unraced (wildEnv fun _ _ => 0#8).guarded _ _ _ from
      ⟨hkey, by rintro ⟨r, sig, w, hleave, _⟩; cases hleave⟩)
  have hn := (run_schedInv hd.booted.started.tasks.inv hall.steps).2
  rw [hd.ntasks] at hn
  obtain ⟨hpend, _⟩ := (signals_exact hd.booted.started hall).1 0 (hn ▸ Nat.zero_lt_two)
  exact ⟨_, m0, _, _, hd.booted.started, hall, (hpend 2 (by decide)).mpr rfl,
    (hpend 5 (by decide)).mpr rfl⟩

/-- **A Ctrl+C between the read and the write is lost.** -/
theorem signals_exact_overwritten : ∃ env m0 m h, Started m0 ∧
    Run (Step (Env.guarded env)) m0 h m ∧ (0 : Fin 8).val < m.kern.sched.ntasks ∧
    pendingIn 0 2 h = true ∧ (m.kern.task 0).sigPending.getLsbD 2 = false := by
  obtain ⟨m0, hd⟩ := demo_exists (ext2Unmounted 0#32)
  obtain ⟨m, hrun, hk, hm⟩ := hd.killing (wildEnv fun _ _ => 0#8).guarded
  have hcur : m.kern.sched.cur = some 0 := by
    rw [hk]
    exact (keyed_cur ..).trans hd.cur
  have hkey := keyed_ctrlC (k := m0.kern) (by rw [hk]) hcur (wildEnv fun _ _ => 0#8).guarded
    (by rw [hm]; nofun)
  obtain ⟨m2, hstore, hlost⟩ := Machine.overwritten hm rfl (by decide) hkey
  have hall := Run.step (.step hrun.steps hkey) hstore
  have hn := (run_schedInv hd.booted.started.tasks.inv hall).2
  rw [hd.ntasks] at hn
  exact ⟨_, m0, m2, _, hd.booted.started, hall, hn ▸ Nat.zero_lt_two, rfl, hlost⟩

/-! ## Task A raises two signals on itself -/

/-- A handler for signal 2, and signals 2 and 5 pending. -/
def Task.armed (t : Task) (handler : U32) : Task :=
  { t with
    sigHandlers := Function.update t.sigHandlers 2 handler
    sigPending := (t.sigPending ||| (1#32 <<< 2)) ||| (1#32 <<< 5) }

theorem signalFor_armed {t : Task} {handler cr3 : U32} {ctx : Ctx} (hp : t.sigPending = 0#32)
    (hin : t.sigInHandler = false) (hh : handler ≠ 0#32) :
    signalFor { t.armed handler with regs := ctx, cr3 := cr3 } = some 2 := by
  have hpend : { t.armed handler with regs := ctx, cr3 := cr3 }.sigPending = 36#32 := by
    show (t.sigPending ||| (1#32 <<< 2)) ||| (1#32 <<< 5) = 36#32
    rw [hp]
    rfl
  have hhand : (t.armed handler).sigHandlers 2 = handler := by
    show Function.update t.sigHandlers 2 handler 2 = handler
    exact Function.update_self ..
  unfold signalFor
  rw [hpend, if_pos ⟨by decide, hin⟩, show lowestSignal 36#32 = some 2 from by decide]
  exact if_pos (by rw [hhand]; exact hh)

/-- The events of `arm`, the newest first. -/
def armEvents : List Event :=
  [.quiet, .quiet, .raised 0 5, .quiet, .quiet, .quiet, .raised 0 2, .quiet, .quiet, .quiet, .quiet,
    .quiet, .quiet]

/-- Task A sets a handler for signal 2, raises signals 2 and `n` and goes on with the registers
`r'`. -/
theorem run_raise {env : Env} {m : Machine} {r : Regs} (hm : m.mode = .user r) (hr : r.User)
    (hcur : m.kern.sched.cur = some 0) (handler : U32) {n : Nat} (hn : 0 < n ∧ n < 32) {r' : Regs}
    (hr' : r'.User) :
    Run (Step env) m
      [.quiet, .quiet, .raised 0 ⟨n, hn.2⟩, .quiet, .quiet, .quiet, .raised 0 2, .quiet, .quiet,
        .quiet, .quiet, .quiet, .quiet]
      { m with
        kern := m.kern.setTask 0 { m.kern.task 0 with
          sigHandlers := Function.update (m.kern.task 0).sigHandlers 2 handler
          sigPending := ((m.kern.task 0).sigPending ||| (1#32 <<< 2)) ||| (1#32 <<< n) }
        mode := .user r' } := by
  have h2lit : sigArg 2#32 = some 2 := sigArg_lit (n := 2) ⟨by omega, by omega⟩
  obtain ⟨r1, hr1, h1⟩ : ∃ r1 : Regs, r1.User ∧ Run (Step env) m [.quiet, .quiet, .quiet, .quiet]
      { m with
        kern := m.kern.setTask 0 { m.kern.task 0 with
          sigHandlers := Function.update (m.kern.task 0).sigHandlers 2 handler }
        mode := .user r1 } :=
    run_sigaction env hm hr (show (callRegs r sysSigaction 2#32 handler).User from hr) rfl hcur
      h2lit
  generalize hm1 : ({ m with
    kern := m.kern.setTask 0 { m.kern.task 0 with
      sigHandlers := Function.update (m.kern.task 0).sigHandlers 2 handler }
    mode := .user r1 } : Machine) = m1 at h1
  obtain ⟨r2, hr2, h2⟩ := run_kill env (m := m1) (by rw [← hm1]) hr1
    (show (callRegs r1 sysKill 2#32 0#32).User from hr1) rfl (by rw [← hm1]; exact hcur) h2lit
  generalize hm2 : ({ m1 with
    kern := m1.kern.killed 0 2 (m1.kern.task 0).sigPending
    mode := .user r2 } : Machine) = m2 at h2
  obtain ⟨r3, hr3, h3⟩ := run_kill env (m := m2) (by rw [← hm2]) hr2
    (show (callRegs r2 sysKill (BitVec.ofNat 32 n) 0#32).User from hr2) rfl
    (by rw [← hm2, ← hm1]; exact hcur) (sigArg_lit hn)
  have hend : ({ m2 with
      kern := m2.kern.killed 0 ⟨n, hn.2⟩ (m2.kern.task 0).sigPending
      mode := .user r' } : Machine) =
      { m with
        kern := m.kern.setTask 0 { m.kern.task 0 with
          sigHandlers := Function.update (m.kern.task 0).sigHandlers 2 handler
          sigPending := ((m.kern.task 0).sigPending ||| (1#32 <<< 2)) ||| (1#32 <<< n) }
        mode := .user r' } := by
    rw [← hm2, ← hm1]
    simp only [Kernel.killed, Kernel.setTask_setTask, Kernel.setTask_task_self]
    rfl
  rw [← hend]
  exact .step ((h1.append h2).append h3) (.compute rfl hr3 hr')

/-- Task A sets the handler, raises both signals and goes on with the registers `r'`. -/
theorem run_arm {env : Env} {m : Machine} {r : Regs} (hm : m.mode = .user r) (hr : r.User)
    (hcur : m.kern.sched.cur = some 0) (handler : U32) {r' : Regs} (hr' : r'.User) :
    Run (Step env) m armEvents
      { m with kern := m.kern.setTask 0 ((m.kern.task 0).armed handler), mode := .user r' } :=
  run_raise hm hr hcur handler (n := 5) ⟨by omega, by omega⟩ hr'

/-! ## Two ticks later -/

/-- The machine at the end of `arm`. -/
def Machine.armed (m : Machine) (handler : U32) (r : Regs) : Machine :=
  { m with kern := m.kern.setTask 0 ((m.kern.task 0).armed handler), mode := .user r }

/-- The kernel when task A, interrupted with the registers `r`, is next again and the signal
is about to be delivered: its context is saved for `SYS_SIGRETURN`. -/
def Machine.turned (m : Machine) (r : Regs) : Kernel :=
  let ctx := r.pushed m.kern.esp0
  let k := switchTo m.kern 0 1 ctx m.cr3
  let k := switchTo k 1 0 ((Regs.popped (k.task 1).regs).pushed k.esp0) (k.task 1).cr3
  k.setTask 0 { k.task 0 with sigSavedRegs := ctx }

theorem turned_task0 (m : Machine) (r : Regs) : (m.turned r).task 0 =
    { m.kern.task 0 with
      regs := r.pushed m.kern.esp0, cr3 := m.cr3, sigSavedRegs := r.pushed m.kern.esp0 } := by
  unfold Machine.turned
  simp only [Kernel.setTask_task_self, switchTo_task]
  rw [if_neg (by decide)]
  simp only [if_true]

section Delivery

variable {e : Ext2} {m : Machine} (hd : Demo e m)

include hd

/-- Whatever task A has done to its own entry, the next tick is task B's turn, and task A is
next again. -/
theorem Demo.turnB (env : Env) {r : Regs} (hr : r.User) (u : Task) : ∃ k,
    k = switchTo (m.kern.setTask 0 u) 0 1 (r.pushed m.kern.esp0) m.cr3 ∧
    k.task 0 = { u with regs := r.pushed m.kern.esp0, cr3 := m.cr3 } ∧
    k.task 1 = m.kern.task 1 ∧ k.sched.cur = some 1 ∧ nextNode k.sched 1 = .task 0 ∧
    k.esp0 = (m.kern.task 1).kstackTop ∧ UserCtx (m.kern.task 1).regs ∧
    Step env { m with kern := m.kern.setTask 0 u, mode := .user r }
      (.switched 0 1 (r.pushed m.kern.esp0) (m.kern.task 1).regs none)
      { m with
        kern := k, cr3 := (m.kern.task 1).cr3
        mode := .user (Regs.popped (m.kern.task 1).regs) } := by
  have hB := hd.taskB
  have hcur : (m.kern.setTask 0 u).sched.cur = some 0 := hd.cur
  have hnext : nextNode (m.kern.setTask 0 u).sched 0 = .task 1 := hd.next.1
  have ht : (switchTo (m.kern.setTask 0 u) 0 1 (r.pushed m.kern.esp0) m.cr3).task 1 =
      m.kern.task 1 := by
    rw [switchTo_task, if_neg (by decide)]
    exact Kernel.setTask_task_ne _ _ (by decide)
  have htick : doSwitch env.link (m.kern.setTask 0 u) m.cr3 m.mem (r.pushed m.kern.esp0) =
      .ok _ := doSwitch_plain hcur (pushed_ring3 hr _) hnext ht (by rw [hB]; rfl)
  have hstep : Step env { m with kern := m.kern.setTask 0 u, mode := .user r } _ _ :=
    .tick rfl hr htick
  refine ⟨_, rfl, ?_, ht, rfl, hd.next.2, ?_, ?_, hstep⟩
  · rw [switchTo_task, if_pos rfl, Kernel.setTask_task_self]
  · rw [switchTo_esp0, ht]
  · rw [hB]
    exact newTask_user ..

/-- The events of the two ticks. -/
def deliveryEvents (m : Machine) (r : Regs) (left : Ctx) : List Event :=
  [.switched 1 0 ((Regs.popped (m.kern.task 1).regs).pushed (m.kern.task 1).kstackTop) left
      (some (2, r.pushed m.kern.esp0)),
    .switched 0 1 (r.pushed m.kern.esp0) (m.kern.task 1).regs none] ++ armEvents

/-- **A delivery**: task A arms itself, is preempted with the registers `r` and resumed with
signal 2, if the two words of the frame can be stored. -/
theorem Demo.delivery {env : Env} {handler : U32} (hh : handler ≠ 0#32) {r : Regs} (hr : r.User)
    {k1 k2 : Kernel} {mem1 mem2 : Mem}
    (h1 : userStore32 env.link m.cr3 ((m.armed handler r).turned r, m.mem) (r.esp - 4#32) 2#32 =
      .ok (k1, mem1))
    (h2 : userStore32 env.link m.cr3 (k1, mem1) (r.esp - 8#32) 0#32 = .ok (k2, mem2)) :
    Run (Step env) m
      (deliveryEvents m r (handlerCtx (r.pushed m.kern.esp0) ((k2.task 0).sigHandlers 2)))
      { m with
        kern := k2.setTask 0 { k2.task 0 with
          sigInHandler := true
          sigPending := (k2.task 0).sigPending &&& ~~~(1#32 <<< 2) }
        mem := mem2
        mode := .user (Regs.popped
          (handlerCtx (r.pushed m.kern.esp0) ((k2.task 0).sigHandlers 2))) } := by
  obtain ⟨r0, hm0, hr0⟩ := hd.user
  have harm : Run (Step env) m armEvents (m.armed handler r) :=
    run_arm hm0 hr0 hd.cur handler hr
  -- the first tick: task B has no signals
  obtain ⟨k, hk, hkA, hkB, hcur, hnext, hesp, hu, hstep1⟩ :=
    hd.turnB env hr ((m.kern.task 0).armed handler)
  -- the second: signal 2 is the lowest pending of task A
  have hsig : signalFor { (m.kern.task 0).armed handler with
      regs := r.pushed m.kern.esp0, cr3 := m.cr3 } = some 2 := by
    rw [hd.taskA]
    exact signalFor_armed rfl rfl hh
  have hturn : (m.armed handler r).turned r =
      (switchTo k 1 0 ((Regs.popped (m.kern.task 1).regs).pushed k.esp0)
        (m.kern.task 1).cr3).setTask 0
        { (switchTo k 1 0 ((Regs.popped (m.kern.task 1).regs).pushed k.esp0)
            (m.kern.task 1).cr3).task 0 with sigSavedRegs := r.pushed m.kern.esp0 } := by
    rw [← hkB, hk]
    rfl
  rw [hturn] at h1
  have htA : (switchTo k 1 0 ((Regs.popped (m.kern.task 1).regs).pushed k.esp0)
      (m.kern.task 1).cr3).task 0 = { (m.kern.task 0).armed handler with
        regs := r.pushed m.kern.esp0, cr3 := m.cr3 } := by
    rw [switchTo_task, if_neg (by decide), hkA]
  have htick := doSwitch_signal hcur (pushed_ring3 (r := Regs.popped (m.kern.task 1).regs) hu k.esp0)
    hnext htA hsig (injectSignal_stores h1 h2)
  have hstep2 : Step env
      { m with
        kern := k, cr3 := (m.kern.task 1).cr3, mem := m.mem
        mode := .user (Regs.popped (m.kern.task 1).regs) } _ _ :=
    .tick rfl hu htick
  rw [hesp] at hstep2
  exact .step (.step harm hstep1) hstep2

/-- Task A's registers, ESP on its stack page at the physical address. -/
def stackRegs (eax : U32) : Regs :=
  { zeroRegs with
    eax := eax, ebx := 1#32, esi := 2#32, edi := 3#32, ebp := 4#32
    cs := 0x23#32, eflags := 0x202#32, esp := 0x30FFF0#32 }

/-- The two words of a call frame go onto that page, and nothing else changes. -/
theorem Demo.stackFrame {l : Link} (hl : ∀ pa, pa / 4096 = 0x30F → l.owns pa = false)
    (K : Kernel) (eax sig : U32) : ∃ mem1 mem2,
    userStore32 l m.cr3 (K, m.mem) ((stackRegs eax).esp - 4#32) sig = .ok (K, mem1) ∧
    userStore32 l m.cr3 (K, mem1) ((stackRegs eax).esp - 8#32) 0#32 = .ok (K, mem2) := by
  have h4 : (stackRegs eax).esp - 4#32 = BitVec.ofNat 32 0x30FFEC := by
    show 0x30FFF0#32 - 4#32 = _
    rfl
  have h8 : (stackRegs eax).esp - 8#32 = BitVec.ofNat 32 0x30FFE8 := by
    show 0x30FFF0#32 - 8#32 = _
    rfl
  obtain ⟨mem1, h1, hkeep⟩ := userStore32_ordinary K (hd.stack hl (X := 0x30FFEC) (by omega)
    (by omega)) sig
  obtain ⟨mem2, h2, _⟩ := userStore32_ordinary K (hkeep _ _ (hd.stack hl (X := 0x30FFE8) (by omega)
    (by omega))) 0#32
  rw [h4, h8, hd.cr3]
  exact ⟨mem1, mem2, h1, h2⟩

/-- **A delivery on the stack**, interrupting task A with `eax` in EAX: nothing but the signal
state of task A changes in the kernel. -/
theorem Demo.stackDelivery (env : Env) (hl : ∀ pa, pa / 4096 = 0x30F → env.link.owns pa = false)
    (eax : U32) : ∃ mem', Run (Step env) m
      (deliveryEvents m (stackRegs eax)
        (handlerCtx ((stackRegs eax).pushed m.kern.esp0) taskCodeVirt))
      { m with
        kern := ((m.armed taskCodeVirt (stackRegs eax)).turned (stackRegs eax)).setTask 0
          { ((m.armed taskCodeVirt (stackRegs eax)).turned (stackRegs eax)).task 0 with
            sigInHandler := true, sigPending := 32#32 }
        mem := mem'
        mode := .user (Regs.popped
          (handlerCtx ((stackRegs eax).pushed m.kern.esp0) taskCodeVirt)) } := by
  have htask := turned_task0 (m.armed taskCodeVirt (stackRegs eax)) (stackRegs eax)
  have harmed : (m.armed taskCodeVirt (stackRegs eax)).kern.task 0 =
      (m.kern.task 0).armed taskCodeVirt := Kernel.setTask_task_self ..
  generalize hK : (m.armed taskCodeVirt (stackRegs eax)).turned (stackRegs eax) = K at htask ⊢
  obtain ⟨mem1, mem2, h1, h2⟩ := hd.stackFrame hl K eax 2#32
  have huser : (stackRegs eax).User := show UserMode 0x23#32 0x202#32 from ⟨rfl, rfl, rfl⟩
  rw [← hK] at h1
  have hrun := hd.delivery (by decide) huser (h1.trans (by rw [hK])) h2
  have hhand : (K.task 0).sigHandlers 2 = taskCodeVirt := by
    rw [htask, harmed]
    show Function.update (m.kern.task 0).sigHandlers 2 taskCodeVirt 2 = taskCodeVirt
    exact Function.update_self ..
  have hpend : (K.task 0).sigPending &&& ~~~(1#32 <<< 2) = 32#32 := by
    have hp : (K.task 0).sigPending =
        ((m.kern.task 0).sigPending ||| (1#32 <<< 2)) ||| (1#32 <<< 5) := by
      rw [htask, harmed]
      rfl
    rw [hp, hd.taskA]
    rfl
  rw [hhand, hpend] at hrun
  exact ⟨mem2, hrun⟩

/-- Task A's registers when it is preempted: ESP 8 above the word to be overwritten. -/
def wildRegs (X : Nat) : Regs :=
  { zeroRegs with cs := 0x23#32, eflags := 0x202#32, esp := BitVec.ofNat 32 (X + 8) }

/-- **The delivery of signal 2 stores 0 at `X` and 2 at `X + 4`.** -/
theorem Demo.wildDelivery (disk : Disk) {X : Nat} {k1 k2 : Kernel}
    (h1 : userStore32 wildLink taskAPdAddr
      ((m.armed taskCodeVirt (wildRegs X)).turned (wildRegs X), m.mem) (BitVec.ofNat 32 (X + 4))
      2#32 = .ok (k1, m.mem))
    (h2 : userStore32 wildLink taskAPdAddr (k1, m.mem) (BitVec.ofNat 32 X) 0#32 =
      .ok (k2, m.mem)) :
    ∃ left d, Run (Step (wildEnv disk)) m (deliveryEvents m (wildRegs X) left)
      { m with
        kern := k2.setTask 0 { k2.task 0 with
          sigInHandler := true
          sigPending := (k2.task 0).sigPending &&& ~~~(1#32 <<< 2) }
        mode := .user d } := by
  have hesp4 : (wildRegs X).esp - 4#32 = BitVec.ofNat 32 (X + 4) := by
    unfold wildRegs
    bv_omega
  have hesp8 : (wildRegs X).esp - 8#32 = BitVec.ofNat 32 X := by
    unfold wildRegs
    bv_omega
  have huser : (wildRegs X).User := show UserMode 0x23#32 0x202#32 from ⟨rfl, rfl, rfl⟩
  have h1' : userStore32 (wildEnv disk).link m.cr3
      ((m.armed taskCodeVirt (wildRegs X)).turned (wildRegs X), m.mem) ((wildRegs X).esp - 4#32)
      2#32 = .ok (k1, m.mem) := by
    rw [hesp4, hd.cr3]
    exact h1
  have h2' : userStore32 (wildEnv disk).link m.cr3 (k1, m.mem) ((wildRegs X).esp - 8#32) 0#32 =
      .ok (k2, m.mem) := by
    rw [hesp8, hd.cr3]
    exact h2
  have hrun := hd.delivery (by decide) huser h1' h2'
  exact ⟨_, _, hrun⟩

/-- The same where both words are fields. -/
theorem Demo.wildFields (disk : Disk) {X : Nat} (h4 : X % 4 = 0) (hlo : 0x110000 ≤ X)
    (hhi : X + 4 < 0x111000) {f g : Field} (hf : fieldAt X = some f)
    (hg : fieldAt (X + 4) = some g) :
    ∃ left d k, k = f.put (g.put ((m.armed taskCodeVirt (wildRegs X)).turned (wildRegs X)) 2#32)
        0#32 ∧
      Run (Step (wildEnv disk)) m (deliveryEvents m (wildRegs X) left)
        { m with
          kern := k.setTask 0 { k.task 0 with
            sigInHandler := true
            sigPending := (k.task 0).sigPending &&& ~~~(1#32 <<< 2) }
          mode := .user d } := by
  have hX : ∀ n, n < 0x112000 → (BitVec.ofNat 32 n).toNat = n := by
    intro n hn
    rw [BitVec.toNat_ofNat]
    omega
  have h1 := wild_store32 (k := (m.armed taskCodeVirt (wildRegs X)).turned (wildRegs X))
    (hd.reaches (X := X + 4) (by omega) (by omega) (by omega))
    (by rw [hX _ (by omega)]; unfold curTaskAddr; omega) (by rw [hX _ (by omega)]; exact hg) 2#32
  have h2 := wild_store32
    (k := g.put ((m.armed taskCodeVirt (wildRegs X)).turned (wildRegs X)) 2#32)
    (hd.reaches (X := X) h4 hlo (by omega))
    (by rw [hX _ (by omega)]; unfold curTaskAddr; omega) (by rw [hX _ (by omega)]; exact hf) 0#32
  obtain ⟨left, d, hrun⟩ := hd.wildDelivery disk h1 h2
  exact ⟨left, d, _, rfl, hrun⟩

end Delivery

/-- **Without the guard signals are lost too**: the frame of signal 2 stores 0 over the pending
mask, in which signal 5 was waiting. -/
theorem signals_exact_unguarded : ∃ env m0 m h, Started m0 ∧ Run (Step env) m0 h m ∧
    (0 : Fin 8).val < m.kern.sched.ntasks ∧ pendingIn 0 5 h = true ∧
    (m.kern.task 0).sigPending.getLsbD 5 = false := by
  obtain ⟨m0, hd⟩ := demo_exists (ext2Unmounted 0#32)
  obtain ⟨left, d, k, hk, hrun⟩ := hd.wildFields (fun _ _ => 0#8) (X := 0x1100A8)
    (f := .sigPending 0) (g := .sigHandler 0 0) (by omega) (by omega) (by omega) rfl rfl
  refine ⟨_, m0, _, _, hd.booted.started, hrun, ?_, rfl, ?_⟩
  · show 0 < k.sched.ntasks
    rw [hk]
    show 0 < m0.kern.sched.ntasks
    rw [hd.ntasks]
    exact Nat.zero_lt_two
  · show ((k.setTask 0 _).task 0).sigPending.getLsbD 5 = false
    rw [Kernel.setTask_task_self, hk]
    simp only [Field.put, Kernel.setTask_task_self]
    rfl

end PepinOS
