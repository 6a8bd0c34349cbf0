import PepinOS.Process.Signals

/-!
# Context switching isolates tasks

The claim of the round-robin scheduler: a task finds its registers, its page
directory and its kernel stack as it left them. `do_switch` reads CR3 back into
the task it leaves, so this rests on one joint invariant of the running task, the
CR3 register, the TSS and the saved frames, `SwitchInv`, which must hold already
when `sched_enter` returns to ring 3 for the first time.

All of it holds on the guarded machine. Without the guard it does not: the end of
the file has a signal frame that lands in `task_pool`.
-/

namespace PepinOS

/-- The context a task was last left with, from the history; `regs0` before that. -/
def lastSaved (regs0 : Fin 8 → Ctx) : List Event → Fin 8 → Ctx
  | [], t => regs0 t
  | .switched out _ saved _ _ :: h, t => if out = t then saved else lastSaved regs0 h t
  | _ :: h, t => lastSaved regs0 h t

/-- Only a switch changes what was last saved. -/
theorem lastSaved_cons {regs0 : Fin 8 → Ctx} {ev : Event} {h : List Event}
    (hev : ∀ out into saved left sig, ev ≠ .switched out into saved left sig) (t : Fin 8) :
    lastSaved regs0 (ev :: h) t = lastSaved regs0 h t := by
  cases ev with
  | switched out into saved left sig => exact absurd rfl (hev out into saved left sig)
  | _ => rfl

/-- The state through a run from `m0`. When an exception handler has taken over the
processor, what it interrupted half-way no longer counts. -/
structure SwitchInv (m0 : Machine) (h : List Event) (m : Machine) : Prop where
  sched : SchedInv m.kern.sched
  ntasks : m.kern.sched.ntasks = m0.kern.sched.ntasks
  fixed : ∀ t, (m.kern.task t).cr3 = (m0.kern.task t).cr3 ∧
    (m.kern.task t).kstackTop = (m0.kern.task t).kstackTop
  running : m.mode ≠ .halted → ∃ i, m.kern.sched.cur = some i ∧ m.cr3 = (m.kern.task i).cr3 ∧
    m.kern.esp0 = (m.kern.task i).kstackTop
  saved : m.mode ≠ .halted → ∀ t,
    (m.kern.task t).regs = lastSaved (fun t => (m0.kern.task t).regs) h t

/-- A step that leaves all contexts, CR3 and the TSS alone. -/
theorem SwitchInv.keep {m0 m m' : Machine} {h : List Event} {ev : Event} (hinv : SwitchInv m0 h m)
    (hsched : SchedInv m'.kern.sched ∧ m'.kern.sched.ntasks = m.kern.sched.ntasks)
    (hcur : m'.kern.sched.cur = m.kern.sched.cur) (hesp : m'.kern.esp0 = m.kern.esp0)
    (hcr3 : m'.cr3 = m.cr3) (hmode : m'.mode ≠ .halted → m.mode ≠ .halted)
    (hctx : ∀ t, (m'.kern.task t).contexts = (m.kern.task t).contexts)
    (hev : ∀ out into saved left sig, ev ≠ .switched out into saved left sig) :
    SwitchInv m0 (ev :: h) m' := by
  have hc : ∀ t, (m'.kern.task t).regs = (m.kern.task t).regs ∧
      (m'.kern.task t).cr3 = (m.kern.task t).cr3 ∧
      (m'.kern.task t).kstackTop = (m.kern.task t).kstackTop := by
    intro t
    have ht := hctx t
    simp only [Task.contexts, Prod.mk.injEq] at ht
    exact ⟨ht.1, ht.2.1, ht.2.2.1⟩
  refine ⟨hsched.1, hsched.2.trans hinv.ntasks, fun t => ?_, fun hm => ?_, fun hm t => ?_⟩
  · rw [(hc t).2.1, (hc t).2.2]
    exact hinv.fixed t
  · obtain ⟨i, h1, h2, h3⟩ := hinv.running (hmode hm)
    refine ⟨i, hcur.trans h1, ?_, ?_⟩
    · rw [hcr3, (hc i).2.1, h2]
    · rw [hesp, (hc i).2.2, h3]
  · rw [lastSaved_cons hev, (hc t).1]
    exact hinv.saved (hmode hm) t

/-- The context of each task when a switch has saved the one it leaves. -/
theorem switchTo_regs {m0 m : Machine} {h : List Event} (hinv : SwitchInv m0 h m) {r : Regs}
    (hm : m.mode = .user r) {i j : Fin 8} {left : Ctx}
    {sig : Option (Fin 32 × Ctx)} (t : Fin 8) :
    ((switchTo m.kern i j (r.pushed m.kern.esp0) m.cr3).task t).regs =
      lastSaved (fun t => (m0.kern.task t).regs)
        (.switched i j (r.pushed m.kern.esp0) left sig :: h) t := by
  rw [switchTo_task, lastSaved]
  by_cases ht : t = i
  · rw [if_pos ht, if_pos ht.symm]
  · rw [if_neg ht, if_neg (Ne.symm ht)]
    exact hinv.saved (by rw [hm]; simp) t

/-- The save writes into CR3's slot what stands there. -/
theorem SwitchInv.saves_cr3 {m0 m : Machine} {h : List Event} (hinv : SwitchInv m0 h m)
    (hm : m.mode ≠ .halted) {i : Fin 8} (hcur : m.kern.sched.cur = some i) :
    m.cr3 = (m.kern.task i).cr3 := by
  obtain ⟨i', hi', hcr3, _⟩ := hinv.running hm
  rw [hcur] at hi'
  cases hi'
  exact hcr3

/-- **The invariant is carried by every step.** -/
theorem SwitchInv.step {env : Env} {m0 m m' : Machine} {h : List Event} {ev : Event}
    (hinv : SwitchInv m0 h m) (hstep : StepDone env m ev m') : SwitchInv m0 (ev :: h) m' := by
  have hsched := hstep.schedInv hinv.sched
  cases hstep with
  | still hs hmode =>
    refine hinv.keep hsched (congrArg Sched.cur hs.sched) hs.esp0 hs.cr3 hmode.running ?_ nofun
    intro t
    unfold Kernel.task
    rw [hs.sched]
  | keyed scancode hm =>
    refine hinv.keep hsched (keyed_cur m.kern scancode) rfl rfl id (keyed_contexts m.kern scancode) ?_
    · rcases keyed_cases m.kern scancode with ⟨he, _⟩ | ⟨i, _, he, _⟩ <;> rw [he] <;> nofun
  | @switched r i j s hm hr hcur hj hdone =>
    have hne : m.mode ≠ .halted := by rw [hm]; simp
    obtain ⟨hc, _, _, _, hcr3, hesp, _⟩ := hdone.spec
    refine ⟨hsched.1, hsched.2.trans hinv.ntasks, fun t => ?_, fun _ => ⟨j, hc, hcr3, hesp⟩,
      fun _ t => ?_⟩
    · have h1 := hdone.frame Task.cr3 (hinv.saves_cr3 hne hcur) (fun _ _ _ => rfl) t
      have h2 := hdone.frame Task.kstackTop rfl (fun _ _ _ => rfl) t
      show (s.kern.task t).cr3 = _ ∧ (s.kern.task t).kstackTop = _
      rw [h1, h2]
      exact hinv.fixed t
    · cases hdone with
      | plain u hu _ => exact switchTo_regs hinv hm t
      | signal u sig mem' hu _ _ =>
        refine (setTask_frame Task.regs (s := (switchTo m.kern i j _ m.cr3).sched) ?_ t).trans
          (switchTo_regs hinv hm t)
        rw [hu]
        rfl
  | @switchFault r i s cr3 hm hr hcur hf =>
    have hne : m.mode ≠ .halted := by rw [hm]; simp
    refine ⟨hsched.1, hsched.2.trans hinv.ntasks, fun t => ?_, fun hh => absurd rfl hh,
      fun hh => absurd rfl hh⟩
    have h1 := hf.frame Task.cr3 (hinv.saves_cr3 hne hcur) (fun _ _ => rfl) t
    have h2 := hf.frame Task.kstackTop rfl (fun _ _ => rfl) t
    show (s.1.task t).cr3 = _ ∧ (s.1.task t).kstackTop = _
    rw [h1, h2]
    exact hinv.fixed t
  | called hm hkeep hdone =>
    refine hinv.keep hsched hdone.sched.2.2 hkeep.esp0 rfl (fun _ => by rw [hm]; simp)
      hdone.contexts ?_
    cases hdone <;> nofun
  | @killed r i sig pending hm _ =>
    refine hinv.keep hsched rfl rfl rfl (fun _ => by rw [hm]; simp) ?_ nofun
    exact killed_frame Task.contexts m.kern i sig pending fun _ _ => rfl

theorem Booted.switchInv {m : Machine} (h : Booted m) : SwitchInv m [] m := by
  obtain ⟨hreg, hcur, hcr3, hesp⟩ := h.sched
  exact ⟨hreg.inv, rfl, fun _ => ⟨rfl, rfl⟩, fun _ => ⟨0, hcur, hcr3, hesp⟩, fun _ _ => rfl⟩

theorem SwitchInv.run {env : Env} {m0 m : Machine} {h : List Event} (h0 : SwitchInv m0 [] m0)
    (hrun : Run (Step env.guarded) m0 h m) : SwitchInv m0 h m :=
  hrun.inv (SwitchInv m0) h0 fun _ _ _ _ hi hs => hi.step hs.done

/-- A switch without a delivery resumes its task with the context it was left with. -/
theorem SwitchInv.resumes {env : Env} {m0 m m' : Machine} {h : List Event}
    (hinv : SwitchInv m0 h m) {out into : Fin 8} {saved left : Ctx}
    (hstep : StepDone env m (.switched out into saved left none) m') :
    left = lastSaved (fun t => (m0.kern.task t).regs)
      (.switched out into saved left none :: h) into := by
  obtain ⟨r, i, j, s, hm, hdone, hev, _⟩ := hstep.switch
  cases hdone with
  | plain u hu _ =>
    simp only [Event.switched.injEq] at hev
    obtain ⟨rfl, rfl, rfl, rfl, _⟩ := hev
    rw [hu]
    exact switchTo_regs hinv hm j
  | signal => simp at hev

/-- **Context switching isolates tasks**, in every run from boot in which no store through
a user pointer lands in the kernel's own memory: ring 3 runs on the page directory
and the kernel stack of the current task; a task resumed without a signal gets back the
13 words saved when it was last preempted; a tick in ring 0 changes nothing; and no task's
page directory or kernel stack ever changes. -/
theorem switch_isolates {env : Env} {m0 m : Machine} {h : List Event} (hboot : Booted m0)
    (hrun : Run (Step env.guarded) m0 h m) :
    (∀ r, m.mode = .user r → ∃ i, m.kern.sched.cur = some i ∧ m.cr3 = (m.kern.task i).cr3 ∧
      m.kern.esp0 = (m.kern.task i).kstackTop) ∧
    (∀ out into saved left m', Step env.guarded m (.switched out into saved left none) m' →
      left = lastSaved (fun t => (m0.kern.task t).regs)
        (.switched out into saved left none :: h) into) ∧
    (∀ ctx, rpl (ctx 9) = 0#32 → doSwitch env.guarded.link m.kern m.cr3 m.mem ctx =
      .ok ⟨m.kern, m.cr3, m.mem, ctx, .quiet⟩) ∧
    (∀ t, t.val < m.kern.sched.ntasks → (m.kern.task t).cr3 = (m0.kern.task t).cr3 ∧
      (m.kern.task t).kstackTop = (m0.kern.task t).kstackTop) := by
  have hinv := SwitchInv.run hboot.switchInv hrun
  refine ⟨fun r hm => hinv.running (by rw [hm]; simp), ?_, fun ctx h0 => doSwitch_ring0 h0,
    fun t _ => hinv.fixed t⟩
  intro out into saved left m' hstep
  exact hinv.resumes hstep.done

/-- After the first tick task B runs on its own directory and kernel stack. -/
theorem switch_isolates_firstTick : ∃ env m0 m h r, Booted m0 ∧ Run (Step (Env.guarded env)) m0 h m ∧
    m.mode = .user r ∧ ∃ i, m.kern.sched.cur = some i ∧ m.cr3 = (m.kern.task i).cr3 ∧
      m.kern.esp0 = (m.kern.task i).kstackTop := by
  obtain ⟨m0, hd⟩ := demo_exists (ext2Unmounted 0#32)
  obtain ⟨_, m, _, _, hmode, hrun⟩ := hd.firstTick (wildEnv fun _ _ => 0#8).guarded
  exact ⟨_, m0, m, _, _, hd.booted, hrun, hmode,
    (switch_isolates hd.booted hrun).1 _ hmode⟩

/-- **Without the guard it fails**: the frame of a signal stores 0 over the page directory of
task B in `task_pool`. -/
theorem switch_isolates_unguarded : ∃ env m0 m h, Booted m0 ∧ Run (Step env) m0 h m ∧
    (1 : Fin 8).val < m.kern.sched.ntasks ∧ (m.kern.task 1).cr3 ≠ (m0.kern.task 1).cr3 := by
  obtain ⟨m0, hd⟩ := demo_exists (ext2Unmounted 0#32)
  obtain ⟨left, d, k, hk, hrun⟩ := hd.wildFields (fun _ _ => 0#8) (X := 0x110198) (f := .cr3 1)
    (g := .kstackTop 1) (by omega) (by omega) (by omega) rfl rfl
  refine ⟨_, m0, _, _, hd.booted, hrun, ?_, ?_⟩
  · show 1 < k.sched.ntasks
    rw [hk]
    show 1 < m0.kern.sched.ntasks
    rw [hd.ntasks]
    exact Nat.one_lt_two
  · show ((k.setTask 0 _).task 1).cr3 ≠ _
    rw [Kernel.setTask_task_ne _ _ (by decide), hk, hd.taskB]
    simp only [Field.put, Kernel.setTask_task_self, newTask]
    decide

end PepinOS
