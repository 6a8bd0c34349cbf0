import PepinOS.Process.RoundRobin
import PepinOS.Process.SignalChoice

/-!
# The next turn of a task

A task that does not run is out of everybody's reach: system calls and the keyboard work
on `cur_task`, and `do_switch` writes the two tasks it goes between. So its entry of the
task table stays as it is until its next turn, and what that turn does with its signals is
settled when it is put aside. The turn itself comes within `ntasks` ticks, by the order
of the ring.
-/

namespace PepinOS

/-- The signal of a switch and the context the task goes on with, from its entry. -/
def Task.turn (u : Task) : Option (Fin 32 × Ctx) × Ctx :=
  match signalFor u with
  | none => (none, u.regs)
  | some sig => (some (sig, u.regs), handlerCtx u.regs (u.sigHandlers sig))

section Step

variable {env : Env} {m m' : Machine} {ev : Event} {t : Fin 8}

/-- A call works on the running task alone. -/
theorem CallDone.elsewhere {cr3 : U32} {s s' : Calling} {f f' : Frame} {res : U32}
    (h : CallDone env cr3 s f s' f' res ev) (hcur : s.kern.sched.cur ≠ some t) :
    s'.kern.task t = s.kern.task t := by
  have hset : ∀ {i : Fin 8} {u : Task}, s.kern.sched.cur = some i →
      s'.kern.sched = s.kern.sched.setTask i u → s'.kern.task t = s.kern.task t := by
    intro i u hi hs
    unfold Kernel.task
    rw [hs]
    refine setTask_pool_ne _ _ ?_
    rintro rfl
    exact hcur hi
  cases h with
  | quiet hs _ => exact congrArg (fun s : Sched => s.pool t) hs
  | opened hi _ _ _ _ _ hs _ _ => exact hset hi hs
  | closed hi _ _ hs _ => exact hset hi hs
  | read hi _ _ _ _ _ hs _ => exact hset hi hs
  | sigaction hi _ hs _ => exact hset hi hs
  | raised hi _ hs _ => exact hset hi hs
  | returned hi _ hs _ => exact hset hi hs

/-- A task that does not run and is not resumed keeps its entry. -/
theorem StepDone.elsewhere (h : StepDone env m ev m') (hcur : m.kern.sched.cur ≠ some t)
    (hev : ev.resumed ≠ some t) (hmode : m'.mode ≠ .halted) :
    m'.kern.task t = m.kern.task t ∧ m'.kern.sched.cur ≠ some t := by
  cases h with
  | still hs _ =>
    unfold Kernel.task
    rw [hs.sched]
    exact ⟨rfl, hcur⟩
  | keyed scancode _ =>
    refine ⟨?_, fun h => hcur ((keyed_cur m.kern scancode).symm.trans h)⟩
    show (m.kern.keyed scancode).sched.pool t = m.kern.sched.pool t
    rcases keyed_cases m.kern scancode with ⟨_, hs⟩ | ⟨i, hi, _, hs⟩
    · rw [hs]
    · rw [hs]
      refine setTask_pool_ne _ _ ?_
      rintro rfl
      exact hcur hi
  | @switched r i j s _ _ hi _ hdone =>
    have hti : t ≠ i := by
      rintro rfl
      exact hcur hi
    have htj : t ≠ j := by
      rintro rfl
      refine hev ?_
      cases hdone <;> rfl
    have hto : (switchTo m.kern i j (r.pushed m.kern.esp0) m.cr3).task t = m.kern.task t := by
      rw [switchTo_task, if_neg hti]
    refine ⟨?_, ?_⟩
    · cases hdone with
      | plain => exact hto
      | signal => exact (Kernel.setTask_task_ne _ _ htj).trans hto
    · rw [hdone.spec.1]
      exact fun h => htj (Option.some.inj h).symm
  | switchFault => exact absurd rfl hmode
  | called _ _ hdone =>
    exact ⟨hdone.elsewhere hcur, fun h => hcur (hdone.sched.2.2.symm.trans h)⟩
  | killed _ hi =>
    refine ⟨Kernel.setTask_task_ne _ _ ?_, hcur⟩
    rintro rfl
    exact hcur hi

/-- Only a tick resumes, -/
theorem StepDone.resumed (h : StepDone env m ev m') (hev : ev.resumed = some t) :
    ∃ out saved left d, ev = .switched out t saved left d := by
  cases ev with
  | switched out into saved left d =>
    cases hev
    exact ⟨out, saved, left, d, rfl⟩
  | _ => cases hev

/-- and it goes by the task's own entry. -/
theorem StepDone.turn {out : Fin 8} {saved left : Ctx} {d : Option (Fin 32 × Ctx)}
    (h : StepDone env m (.switched out t saved left d) m') (hcur : m.kern.sched.cur ≠ some t) :
    (d, left) = (m.kern.task t).turn ∧ m.mode ≠ .halted := by
  generalize hev : Event.switched out t saved left d = ev at h
  cases h with
  | still => cases hev
  | keyed scancode =>
    rcases keyed_cases m.kern scancode with ⟨he, _⟩ | ⟨i, _, he, _⟩ <;> rw [he] at hev <;> cases hev
  | switchFault => cases hev
  | called _ _ hdone => cases hdone <;> cases hev
  | killed => cases hev
  | @switched r i j s hm _ hi _ hdone =>
    refine ⟨?_, by rw [hm]; nofun⟩
    have hentry : t = j →
        (switchTo m.kern i j (r.pushed m.kern.esp0) m.cr3).task j = m.kern.task t := by
      rintro rfl
      rw [switchTo_task, if_neg]
      rintro rfl
      exact hcur hi
    unfold Task.turn
    cases hdone with
    | plain u hu hsig =>
      cases hev
      rw [← hentry rfl, ← hu, hsig]
    | signal u sig mem' hu hsig _ =>
      cases hev
      rw [← hentry rfl, ← hu, hsig]

/-- From the loop of an exception handler nobody is resumed. -/
theorem StepDone.halted (h : StepDone env m ev m') (hm : m.mode = .halted) :
    m'.mode = .halted ∧ ev.resumed = none := by
  cases h with
  | still _ hmode =>
    rw [hm] at hmode
    refine ⟨?_, rfl⟩
    cases hd : m'.mode with
    | halted => rfl
    | _ =>
      rw [hd] at hmode
      cases hmode
  | keyed _ hm' => exact absurd hm hm'
  | switched hm' => rw [hm] at hm'; cases hm'
  | switchFault hm' => rw [hm] at hm'; cases hm'
  | called hm' => rw [hm] at hm'; cases hm'
  | killed hm' => rw [hm] at hm'; cases hm'

end Step

/-! ## From when it is put aside -/

/-- Where task `t`, put aside with the entry `u`, stands after the events `h`: it waits, as it was,
or it has been resumed and this was the first time. -/
structure TurnInv (t : Fin 8) (u : Task) (h : List Event) (m : Machine) : Prop where
  waits : t ∉ turns h → m.mode ≠ .halted → m.kern.task t = u ∧ m.kern.sched.cur ≠ some t
  resumed : t ∈ turns h → ∃ ha hb out saved, t ∉ turns hb ∧
    h = ha ++ .switched out t saved u.turn.2 u.turn.1 :: hb

theorem turns_cons {ev : Event} {h : List Event} {t : Fin 8} :
    t ∈ turns (ev :: h) ↔ ev.resumed = some t ∨ t ∈ turns h := by
  unfold turns
  cases hev : ev.resumed with
  | none =>
    rw [List.filterMap_cons_none hev]
    simp
  | some i =>
    rw [List.filterMap_cons_some hev, List.mem_cons, Option.some.injEq]
    exact or_congr_left eq_comm

theorem TurnInv.step {env : Env} {t : Fin 8} {u : Task} {h : List Event} {m m' : Machine}
    {ev : Event} (hinv : TurnInv t u h m) (hstep : StepDone env m ev m') :
    TurnInv t u (ev :: h) m' := by
  have hrunning : m'.mode ≠ .halted → m.mode ≠ .halted := fun hm' hm => hm' (hstep.halted hm).1
  refine ⟨fun hnot hm' => ?_, fun hmem => ?_⟩
  · rw [turns_cons, not_or] at hnot
    obtain ⟨hentry, hcur⟩ := hinv.waits hnot.2 (hrunning hm')
    obtain ⟨hsame, hcur'⟩ := hstep.elsewhere hcur hnot.1 hm'
    exact ⟨hsame.trans hentry, hcur'⟩
  · by_cases hbefore : t ∈ turns h
    · obtain ⟨ha, hb, out, saved, hnot, rfl⟩ := hinv.resumed hbefore
      exact ⟨ev :: ha, hb, out, saved, hnot, rfl⟩
    · have hev := (turns_cons.mp hmem).resolve_right hbefore
      obtain ⟨out, saved, left, d, rfl⟩ := hstep.resumed hev
      have hm : m.mode ≠ .halted := fun hm => by
        rw [(hstep.halted hm).2] at hev
        cases hev
      obtain ⟨hentry, hcur⟩ := hinv.waits hbefore hm
      obtain ⟨hturn, _⟩ := hstep.turn hcur
      rw [hentry] at hturn
      refine ⟨[], h, out, saved, hbefore, ?_⟩
      rw [← hturn]
      rfl

theorem InOrder.suffix {n : Nat} {l1 : List (Fin 8)} : ∀ l2, InOrder n (l2 ++ l1) → InOrder n l1
  | [], h => h
  | _ :: l2, h => InOrder.suffix l2 h.2

/-- Fewer turns than tasks have passed if one has not had any. -/
theorem InOrder.absent {n : Nat} {l1 l2 : List (Fin 8)} (h : InOrder n (l2 ++ l1)) {t : Fin 8}
    (ht : t.val < n) (hnot : t ∉ l2) : l2.length < n := by
  by_contra hlen
  have hlast : (l2.drop (l2.length - n)).length = n := by
    rw [List.length_drop]
    omega
  rw [← List.take_append_drop (l2.length - n) l2, List.append_assoc] at h
  have hcount := (InOrder.suffix _ h).count hlast ht
  exact hnot (List.mem_of_mem_drop (List.count_pos_iff.mp (by rw [hcount]; exact Nat.one_pos)))

/-- **The next turn of a task that does not run**, in every run in which no store through a user
pointer lands in the kernel's own memory. Until then its entry is untouched, whatever the other
tasks, the keyboard and the timer do. It comes after fewer than `ntasks` ticks, and goes by the
entry as it was when the task was put aside: the lowest pending signal, outside a handler and if it
has one, with the call frame of the handler, and else the saved context. -/
theorem next_turn {env : Env} {m0 m1 m : Machine} {h1 h2 : List Event} (hstart : Started m0)
    (hrun1 : Run (Step env.guarded) m0 h1 m1) (hrun2 : Run (Step env.guarded) m1 h2 m) {t : Fin 8}
    (ht : t.val < m0.kern.sched.ntasks) (hcur : m1.kern.sched.cur ≠ some t) :
    (t ∉ turns h2 → (turns h2).length < m0.kern.sched.ntasks ∧
      (m.mode ≠ .halted → m.kern.task t = m1.kern.task t)) ∧
    (t ∈ turns h2 → ∃ ha hb out saved,
      h2 = ha ++ .switched out t saved (m1.kern.task t).turn.2 (m1.kern.task t).turn.1 :: hb ∧
      (turns hb).length + 1 ≤ m0.kern.sched.ntasks ∧
      t.val = ((turns h1).length + (turns hb).length + 1) % m0.kern.sched.ntasks) := by
  have hn : 0 < m0.kern.sched.ntasks := by omega
  have hround : RoundInv m0.kern.sched.ntasks (h2 ++ h1) m :=
    (hrun1.append hrun2).inv (RoundInv m0.kern.sched.ntasks) (hstart.roundInv hn)
      fun _ _ _ _ hi hs => hi.step hs.done
  have horder := hround.order
  have hinv : TurnInv t (m1.kern.task t) h2 m :=
    hrun2.inv (TurnInv t (m1.kern.task t)) ⟨fun _ _ => ⟨rfl, hcur⟩, nofun⟩
      fun _ _ _ _ hi hs => hi.step hs.done
  refine ⟨fun hnot => ⟨?_, fun hm => (hinv.waits hnot hm).1⟩, fun hmem => ?_⟩
  · rw [turns_append] at horder
    exact horder.absent ht hnot
  · obtain ⟨ha, hb, out, saved, hnot, rfl⟩ := hinv.resumed hmem
    refine ⟨ha, hb, out, saved, rfl, ?_⟩
    rw [List.append_assoc, turns_append] at horder
    have hturn : InOrder m0.kern.sched.ntasks (t :: (turns hb ++ turns h1)) := by
      rw [← turns_append]
      exact horder.suffix
    obtain ⟨hval, hrest⟩ := hturn
    refine ⟨hrest.absent ht hnot, ?_⟩
    rw [hval, List.length_append, Nat.add_comm (turns hb).length]

/-- The first turn of task B, put aside since it was registered. -/
theorem next_turn_taskB : ∃ env m0 m h ha hb out saved, Started m0 ∧
    Run (Step (Env.guarded env)) m0 h m ∧
    h = ha ++ .switched out 1 saved (m0.kern.task 1).turn.2 (m0.kern.task 1).turn.1 :: hb ∧
    (turns hb).length + 1 ≤ 2 := by
  obtain ⟨m0, hd⟩ := demo_exists (ext2Unmounted 0#32)
  obtain ⟨_, m, _, _, _, hrun⟩ := hd.firstTick (wildEnv fun _ _ => 0#8).guarded
  have ht : (1 : Fin 8).val < m0.kern.sched.ntasks := by
    rw [hd.ntasks]
    exact Nat.lt_succ_self 1
  have hcur : m0.kern.sched.cur ≠ some 1 := by
    rw [hd.cur]
    nofun
  obtain ⟨ha, hb, out, saved, hh, hlen, _⟩ :=
    (next_turn hd.booted.started .start hrun ht hcur).2 (turns_cons.mpr (.inl rfl))
  rw [hd.ntasks] at hlen
  exact ⟨_, m0, m, _, ha, hb, out, saved, hd.booted.started, hrun, hh, hlen⟩

end PepinOS
