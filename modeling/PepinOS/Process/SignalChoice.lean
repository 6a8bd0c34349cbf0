import PepinOS.Process.Signals

/-!
# Which signal is delivered

`do_switch` picks a signal before it looks for a handler: the loop stops at the first
pending number, and if that one has no handler nothing is delivered, whatever else is
pending. No handler ever runs for it either, so its bit stays set and the signals above
it wait until the program gives it a handler.

`handled_delivered_iff` is the exact account over every state of the task;
`handled_blocked` is a run of task A from the start that reaches the other case.
-/

namespace PepinOS

/-! ## The pending signals of a task -/

def Task.pendingSignals (t : Task) : Set (Fin 32) :=
  {sig | sig ≠ 0 ∧ t.sigPending.getLsbD sig.val = true}

/-- Those with a handler. -/
def Task.handledSignals (t : Task) : Set (Fin 32) :=
  {sig | sig ∈ t.pendingSignals ∧ t.sigHandlers sig ≠ 0#32}

theorem lowestSignal_eq_some {t : Task} {sig : Fin 32} :
    lowestSignal t.sigPending = some sig ↔ IsLeast t.pendingSignals sig := by
  unfold lowestSignal
  have hsorted : ((List.finRange 32).drop 1).Pairwise (· < ·) :=
    List.Pairwise.drop (List.pairwise_lt_finRange 32)
  have hset : {s : Fin 32 | s ∈ (List.finRange 32).drop 1 ∧
      (t.sigPending &&& (1#32 <<< s.val) != 0#32) = true} = t.pendingSignals := by
    ext s
    have hmem : s ∈ (List.finRange 32).drop 1 ↔ s ≠ 0 := by
      revert s
      decide
    exact and_congr hmem (by rw [pending_bit])
  rw [find?_eq_some_iff_isLeast hsorted, hset]

/-- What `do_switch` picks: the lowest pending signal, if it has a handler. -/
theorem signalFor_eq_some {t : Task} {sig : Fin 32} (hin : t.sigInHandler = false) :
    signalFor t = some sig ↔ IsLeast t.pendingSignals sig ∧ t.sigHandlers sig ≠ 0#32 := by
  rw [← lowestSignal_eq_some]
  unfold signalFor
  by_cases hpend : t.sigPending = 0#32
  · have hnone : lowestSignal t.sigPending = none := by
      rw [hpend]
      decide
    rw [hnone, if_neg fun h => h.1 hpend]
    simp
  · rw [if_pos ⟨hpend, hin⟩]
    cases lowestSignal t.sigPending with
    | none => simp
    | some low =>
      show (if t.sigHandlers low ≠ 0#32 then some low else none) = some sig ↔ _
      by_cases hh : t.sigHandlers low ≠ 0#32
      · rw [if_pos hh, Option.some.injEq]
        refine ⟨fun e => ⟨e, ?_⟩, fun h => h.1⟩
        rw [← e]
        exact hh
      · rw [if_neg hh, Option.some.injEq]
        refine ⟨nofun, fun h => absurd ?_ hh⟩
        rw [h.1]
        exact h.2

/-- Picked before the handler is looked at, `sig` is the right one exactly if every pending
signal without a handler is above it. -/
theorem signalFor_isLeast {t : Task} {sig : Fin 32} (hin : t.sigInHandler = false)
    (hsig : IsLeast t.handledSignals sig) :
    signalFor t = some sig ↔ ∀ low ∈ t.pendingSignals, t.sigHandlers low = 0#32 → sig < low := by
  obtain ⟨⟨hpend, hh⟩, hleast⟩ := hsig
  rw [signalFor_eq_some hin]
  constructor
  · rintro ⟨⟨_, hlow⟩, _⟩ low hmem h0
    refine lt_of_le_of_ne (hlow hmem) ?_
    rintro rfl
    exact hh h0
  · intro habove
    refine ⟨⟨hpend, fun s hs => ?_⟩, hh⟩
    by_cases h0 : t.sigHandlers s = 0#32
    · exact (habove s hs h0).le
    · exact hleast ⟨hs, h0⟩

/-- While a signal below the handled ones is pending nothing is picked. -/
theorem signalFor_blocked {t : Task} {sig low : Fin 32} (hin : t.sigInHandler = false)
    (hsig : IsLeast t.handledSignals sig) (hlow : low ∈ t.pendingSignals) (hlt : low < sig) :
    signalFor t = none := by
  cases h : signalFor t with
  | none => rfl
  | some s =>
    obtain ⟨hleast, hh⟩ := (signalFor_eq_some hin).mp h
    have hle : s ≤ low := hleast.2 hlow
    have hge : sig ≤ s := hsig.2 ⟨hleast.1, hh⟩
    exact absurd (hlt.trans_le hge) (not_lt.mpr hle)

/-! ## What the switch does with it -/

/-- The two words of a handler's call frame can be stored on the user stack of task `j`, as
`do_switch` finds it when it resumes the task. -/
def FramePushed (l : Link) (k : Kernel) (cr3 : U32) (mem : Mem) (ctx : Ctx) (i j : Fin 8)
    (sig : Fin 32) : Prop :=
  let k := switchTo k i j ctx cr3
  let t := k.task j
  ∃ s1 s2, userStore32 l t.cr3 (k.setTask j { t with sigSavedRegs := t.regs }, mem)
      (t.regs 11 - 4#32) (BitVec.ofNat 32 sig.val) = .ok s1 ∧
    userStore32 l t.cr3 s1 (t.regs 11 - 8#32) 0#32 = .ok s2

/-- A switch that ends at task `j` with `sig` delivered: the task goes on at the handler its
table has, inside it, and the signal is pending no more. -/
structure Delivers (s : Switched) (j : Fin 8) (sig : Fin 32) : Prop where
  event : ∃ out saved ctx, s.ev = .switched out j saved s.ctx (some (sig, ctx))
  eip : s.ctx 8 = (s.kern.task j).sigHandlers sig
  inHandler : (s.kern.task j).sigInHandler = true
  taken : (s.kern.task j).sigPending.getLsbD sig.val = false

section Switch

variable {l : Link} {k : Kernel} {cr3 : U32} {mem : Mem} {ctx : Ctx} {i j : Fin 8}

/-- The injection that comes to its end delivers. -/
theorem doSwitch_delivers {sig : Fin 32} (hcur : k.sched.cur = some i) (h3 : rpl (ctx 9) ≠ 0#32)
    (hj : nextNode k.sched i = .task j)
    (hs : signalFor ((switchTo k i j ctx cr3).task j) = some sig)
    (hpush : FramePushed l k cr3 mem ctx i j sig) :
    ∃ s, doSwitch l k cr3 mem ctx = .ok s ∧ Delivers s j sig := by
  obtain ⟨⟨k1, mem1⟩, ⟨k2, mem2⟩, h1, h2⟩ := hpush
  refine ⟨_, doSwitch_signal hcur h3 hj rfl hs (injectSignal_stores h1 h2), ?_⟩
  refine ⟨⟨i, ctx, _, rfl⟩, ?_, ?_, ?_⟩
  · rw [Kernel.setTask_task_self]
    show handlerCtx ((switchTo k i j ctx cr3).task j).regs ((k2.task j).sigHandlers sig) 8 = _
    exact Function.update_self ..
  · rw [Kernel.setTask_task_self]
  · rw [Kernel.setTask_task_self]
    show (_ &&& ~~~(1#32 <<< sig.val)).getLsbD sig.val = false
    rw [getLsbD_and_not_mask _ sig.isLt]
    simp

/-- A signal is delivered only if it was picked. -/
theorem delivers_signalFor {sig : Fin 32} (hcur : k.sched.cur = some i) (h3 : rpl (ctx 9) ≠ 0#32)
    (hj : nextNode k.sched i = .task j) {s : Switched} (hs : doSwitch l k cr3 mem ctx = .ok s)
    (hd : Delivers s j sig) :
    signalFor ((switchTo k i j ctx cr3).task j) = some sig ∧
      FramePushed l k cr3 mem ctx i j sig := by
  obtain ⟨out, saved, old, hev⟩ := hd.event
  unfold doSwitch at hs
  simp only [hcur, if_neg h3, listEntry_next hj] at hs
  split at hs
  next =>
    cases hs
    cases hev
  next sig' hsig =>
    split at hs
    next => cases hs
    next hinj =>
      cases hs
      cases hev
      obtain ⟨s1, k2, h1, h2, _⟩ := injectSignal_stored hinj
      exact ⟨hsig, s1, _, h1, h2⟩

/-- **When the lowest handled signal is delivered**, from any state of the task that `do_switch`
resumes: exactly if every pending signal without a handler is above it, and its stack takes
the two words of the call frame. -/
theorem handled_delivered_iff (hcur : k.sched.cur = some i) (h3 : rpl (ctx 9) ≠ 0#32)
    (hj : nextNode k.sched i = .task j) (hin : (k.task j).sigInHandler = false)
    (hsome : (k.task j).handledSignals.Nonempty) :
    ∃ sig, IsLeast (k.task j).handledSignals sig ∧
      ((∃ s, doSwitch l k cr3 mem ctx = .ok s ∧ Delivers s j sig) ↔
        (∀ low ∈ (k.task j).pendingSignals, (k.task j).sigHandlers low = 0#32 → sig < low) ∧
          FramePushed l k cr3 mem ctx i j sig) := by
  obtain ⟨sig, hmem, hmin⟩ := wellFounded_lt.has_min (k.task j).handledSignals hsome
  have hsig : IsLeast (k.task j).handledSignals sig :=
    ⟨hmem, fun s hs => not_lt.mp (hmin s hs)⟩
  refine ⟨sig, hsig, ?_⟩
  -- the save and the move leave the signals of the task alone
  have hsignals := switchTo_signals k i j ctx cr3 j
  have hhandlers : ((switchTo k i j ctx cr3).task j).sigHandlers = (k.task j).sigHandlers :=
    setTask_frame Task.sigHandlers (by rfl) j
  have hpick : signalFor ((switchTo k i j ctx cr3).task j) = signalFor (k.task j) := by
    simp only [Task.signals, Prod.mk.injEq] at hsignals
    unfold signalFor
    rw [hsignals.1, hsignals.2.1, hhandlers]
  rw [← signalFor_isLeast hin hsig, ← hpick]
  constructor
  · rintro ⟨s, hs, hd⟩
    exact delivers_signalFor hcur h3 hj hs hd
  · rintro ⟨hs, hpush⟩
    exact doSwitch_delivers hcur h3 hj hs hpush

end Switch

/-! ## Task A, with one handler -/

/-- A handler for signal 2 alone: of the pending signals it is the one with a handler. -/
theorem oneHandler_isLeast {t : Task} {handler pending : U32} {ctx : Ctx} {cr3 : U32}
    (ht : t.sigHandlers = fun _ => 0#32) (hh : handler ≠ 0#32) (hp : pending.getLsbD 2 = true) :
    IsLeast { t with
      regs := ctx, cr3 := cr3
      sigHandlers := Function.update t.sigHandlers 2 handler
      sigPending := pending }.handledSignals 2 := by
  refine ⟨⟨⟨by decide, hp⟩, ?_⟩, fun s hs => ?_⟩
  · show Function.update t.sigHandlers 2 handler 2 ≠ 0#32
    rw [Function.update_self]
    exact hh
  · by_cases hs2 : s = 2
    · exact hs2.ge
    · refine absurd ?_ hs.2
      show Function.update t.sigHandlers 2 handler s = 0#32
      rw [Function.update_of_ne hs2, ht]

/-- With signals 2 and 5 pending, task A gets signal 2 at its next turn. -/
theorem handled_delivered_iff_two : ∃ l k cr3 mem ctx s,
    doSwitch l k cr3 mem ctx = .ok s ∧ Delivers s 0 2 := by
  obtain ⟨m, hd⟩ := demo_exists (ext2Unmounted 0#32)
  have huser : (stackRegs 0#32).User := show UserMode 0x23#32 0x202#32 from ⟨rfl, rfl, rfl⟩
  obtain ⟨k, -, hA, hB, hcur, hnext, -, hu, -⟩ := hd.turnB (wildEnv fun _ _ => 0#8) huser
    ((m.kern.task 0).armed taskCodeVirt)
  have hleast : IsLeast (k.task 0).handledSignals 2 := by
    rw [hA, hd.taskA]
    exact oneHandler_isLeast rfl (by decide) rfl
  have hin : (k.task 0).sigInHandler = false := by
    rw [hA, hd.taskA]
    rfl
  have hpick : signalFor (k.task 0) = some 2 := by
    rw [hA, hd.taskA]
    exact signalFor_armed rfl rfl (by decide)
  obtain ⟨sig, hsig, hiff⟩ := @handled_delivered_iff wildLink k (m.kern.task 1).cr3 m.mem _ 1 0 hcur
    (pushed_ring3 (r := Regs.popped (m.kern.task 1).regs) hu 0#32) hnext hin ⟨2, hleast.1⟩
  obtain rfl : sig = 2 := hsig.unique hleast
  have hpush : FramePushed wildLink k (m.kern.task 1).cr3 m.mem
      ((Regs.popped (m.kern.task 1).regs).pushed 0#32) 1 0 2 := by
    unfold FramePushed
    simp only
    rw [switchTo_task, if_neg (by decide), hA]
    obtain ⟨mem1, mem2, h1, h2⟩ := hd.stackFrame (l := wildLink) imageOwns_stack _ 0#32 2#32
    exact ⟨_, _, h1, h2⟩
  obtain ⟨s, hs, hdel⟩ := hiff.mpr ⟨(signalFor_isLeast hin hleast).mp hpick, hpush⟩
  exact ⟨_, _, _, _, _, s, hs, hdel⟩

/-- **A handled signal is blocked**: task A, with a handler for signal 2 alone, raises signals 2
and 1 on itself, and its next turn delivers nothing. -/
theorem handled_blocked : ∃ env m0 m m' h out saved left, Started m0 ∧ Run (Step env) m0 h m ∧
    (m.kern.task 0).sigInHandler = false ∧ IsLeast (m.kern.task 0).handledSignals 2 ∧
    Step env m (.switched out 0 saved left none) m' := by
  obtain ⟨m, hd⟩ := demo_exists (ext2Unmounted 0#32)
  obtain ⟨r, hm, hr⟩ := hd.user
  have hraise : Run (Step (wildEnv fun _ _ => 0#8)) m _ _ :=
    run_raise hm hr hd.cur taskCodeVirt (n := 1) ⟨by omega, by omega⟩ hr
  obtain ⟨k, -, hA, -, hcur, hnext, -, hu, hturn⟩ := hd.turnB (wildEnv fun _ _ => 0#8) hr
    { m.kern.task 0 with
      sigHandlers := Function.update (m.kern.task 0).sigHandlers 2 taskCodeVirt
      sigPending := ((m.kern.task 0).sigPending ||| (1#32 <<< 2)) ||| (1#32 <<< 1) }
  have hin : (k.task 0).sigInHandler = false := by
    rw [hA, hd.taskA]
    rfl
  have hleast : IsLeast (k.task 0).handledSignals 2 := by
    rw [hA, hd.taskA]
    exact oneHandler_isLeast rfl (by decide) rfl
  have hlow : (1 : Fin 32) ∈ (k.task 0).pendingSignals := by
    rw [hA, hd.taskA]
    refine ⟨by decide, ?_⟩
    show ((0#32 ||| (1#32 <<< 2)) ||| (1#32 <<< 1)).getLsbD 1 = true
    decide
  have hpick : signalFor ((switchTo k 1 0 ((Regs.popped (m.kern.task 1).regs).pushed k.esp0)
      (m.kern.task 1).cr3).task 0) = none := by
    rw [switchTo_task, if_neg (by decide)]
    exact signalFor_blocked hin hleast hlow (by decide)
  have htick : doSwitch (wildEnv fun _ _ => 0#8).link k (m.kern.task 1).cr3 m.mem
      ((Regs.popped (m.kern.task 1).regs).pushed k.esp0) = .ok _ :=
    doSwitch_plain hcur (pushed_ring3 (r := Regs.popped (m.kern.task 1).regs) hu k.esp0) hnext rfl
      hpick
  have hnone : Step (wildEnv fun _ _ => 0#8)
      { m with
        kern := k, cr3 := (m.kern.task 1).cr3
        mode := .user (Regs.popped (m.kern.task 1).regs) } _ _ := .tick rfl hu htick
  exact ⟨_, m, _, _, _, _, _, _, hd.booted.started, hraise.step hturn, hin, hleast, hnone⟩

end PepinOS
