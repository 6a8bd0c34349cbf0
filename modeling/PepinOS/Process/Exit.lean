import PepinOS.Process.RoundRobin

/-!
# What `SYS_EXIT` stops

`shell.h` says the call stops the process. It prints a line and loops in ring 0,
on the kernel stack of the task, with the task still `cur_task`. Timer interrupts
go on, but `do_switch` returns at once when the interrupted code was in ring 0,
so no tick ever leaves the loop: the one exit stops every task.

`spinning_forever` follows the loop through any steps; `exit_stops_all` compares
it with what an exit should do, `ExitStopsOne`.
-/

namespace PepinOS

/-- A timer interrupt. -/
inductive TickStep (env : Env) (m : Machine) : Event → Machine → Prop where
  | user {r : Regs} {s : Switched} : m.mode = .user r → r.User →
      doSwitch env.link m.kern m.cr3 m.mem (r.pushed m.kern.esp0) = .ok s →
      TickStep env m s.ev
        { m with kern := s.kern, cr3 := s.cr3, mem := s.mem, mode := .user (Regs.popped s.ctx) }
  | kernel {ctx : Ctx} {s : Switched} : m.mode.Kernel → rpl (ctx 9) = 0#32 →
      doSwitch env.link m.kern m.cr3 m.mem ctx = .ok s →
      TickStep env m s.ev { m with kern := s.kern, cr3 := s.cr3, mem := s.mem }

/-- Turns, the newest first, that go round the `n` tasks in list order from the one after
`t`, `t` left out. -/
def OthersInOrder (n : Nat) (t : Fin 8) : List (Fin 8) → Prop
  | [] => True
  | x :: xs => x.val = (t.val + 1 + xs.length % (n - 1)) % n ∧ OthersInOrder n t xs

/-- What an exit of task `t`, about to be served in `m`, should do. -/
structure ExitStopsOne (env : Env) (m : Machine) (t : Fin 8) : Prop where
  /-- no tick resumes `t` -/
  notResumed : ∀ ev m1 h m2, Step env m ev m1 → m1.mode ≠ m.mode →
    Run (TickStep env) m1 h m2 → t ∉ turns h
  /-- each tick resumes the next of the other tasks -/
  order : ∀ ev m1 h m2, Step env m ev m1 → m1.mode ≠ m.mode → Run (TickStep env) m1 h m2 →
    (turns h).length = h.length ∧ OthersInOrder m.kern.sched.ntasks t (turns h)
  /-- its open files are closed -/
  released : ∀ ev m1 h m2, Step env m ev m1 → m1.mode ≠ m.mode → Run (TickStep env) m1 h m2 →
    ∀ fd n, ((m.kern.task t).files fd).used = true → ((m.kern.task t).files fd).node = some n →
      (m2.kern.nodePool n).used = false

/-! ## The loop -/

theorem syscallHandler_exit {env : Env} {cr3 : U32} {s : Calling} {f : Frame} (h : f.eax = sysExit) :
    syscallHandler env cr3 s f = .ok (callExit s) := by
  unfold syscallHandler
  rw [h]
  rfl

/-- A step out of the entry that is not an interrupt is the loop of `SYS_EXIT`. -/
theorem exit_spins {env : Env} {m m1 : Machine} {r : Regs} {ev : Event} (hm : m.mode = .entry r)
    (hnum : r.eax = sysExit) (hstep : Step env m ev m1) (hne : m1.mode ≠ m.mode) :
    m1.mode = .spinning ∧ m1.kern.sched = m.kern.sched ∧ m1.kern.nodePool = m.kern.nodePool := by
  have hcall : syscallHandler env m.cr3 m.calling r.frame = .ok (callExit m.calling) :=
    syscallHandler_exit hnum
  rcases hstep.of_entry hm with
    ⟨_, rfl⟩ | ⟨_, _, rfl⟩ | ⟨c, hc, _⟩ | ⟨s, hc, _, rfl⟩ | ⟨hc, _⟩ | ⟨_, _, hkill, _⟩
  · exact absurd rfl hne
  · exact absurd rfl hne
  · rw [hcall] at hc
    cases hc
  · obtain ⟨scr, rfl⟩ := syscall_spins hc
    exact ⟨rfl, rfl, rfl⟩
  · rw [hcall] at hc
    cases hc
  · rw [hnum] at hkill
    cases hkill

/-- The call is served. -/
theorem exit_served (env : Env) {m : Machine} {r : Regs} (hm : m.mode = .entry r)
    (hnum : r.eax = sysExit) : ∃ m1, Step env m .quiet m1 ∧ m1.mode = .spinning :=
  ⟨_, .callSpins hm (syscallHandler_exit hnum), rfl⟩

/-- One step of the loop: a tick in ring 0, or a key. -/
theorem spinning_step {env : Env} {m m' : Machine} {ev : Event} (hm : m.mode = .spinning)
    (hstep : Step env m ev m') : m'.mode = .spinning ∧ m'.kern.sched.cur = m.kern.sched.cur ∧
      m'.kern.nodePool = m.kern.nodePool ∧ ev.resumed = none := by
  cases hstep with
  | compute hm' => rw [hm] at hm'; cases hm'
  | write hm' => rw [hm] at hm'; cases hm'
  | fault hm' => rw [hm] at hm'; cases hm'
  | tick hm' => rw [hm] at hm'; cases hm'
  | tickFault hm' => rw [hm] at hm'; cases hm'
  | tickKernel _ h0 hs =>
    rw [doSwitch_ring0 h0] at hs
    cases hs
    exact ⟨hm, rfl, rfl, rfl⟩
  | @key scancode _ =>
    exact ⟨hm, keyed_cur m.kern scancode, rfl, keyEvent_resumed m.kern scancode⟩
  | int30 hm' => rw [hm] at hm'; cases hm'
  | call hm' => rw [hm] at hm'; cases hm'
  | callSpins hm' => rw [hm] at hm'; cases hm'
  | callFault hm' => rw [hm] at hm'; cases hm'
  | killLoad hm' => rw [hm] at hm'; cases hm'
  | killStore hm' => rw [hm] at hm'; cases hm'
  | iret hm' => rw [hm] at hm'; cases hm'

/-- **No run leaves it.** -/
theorem spinning_forever {env : Env} {m m' : Machine} {h : List Event} (hm : m.mode = .spinning)
    (hrun : Run (Step env) m h m') : m'.mode = .spinning ∧ m'.kern.sched.cur = m.kern.sched.cur ∧
      m'.kern.nodePool = m.kern.nodePool ∧ turns h = [] := by
  refine hrun.inv (fun h s => s.mode = .spinning ∧ s.kern.sched.cur = m.kern.sched.cur ∧
    s.kern.nodePool = m.kern.nodePool ∧ turns h = []) ⟨hm, rfl, rfl, rfl⟩ ?_
  rintro h s ev s' ⟨hs, hc, hn, ht⟩ hstep
  obtain ⟨hs', hc', hn', hev⟩ := spinning_step hs hstep
  exact ⟨hs', hc'.trans hc, hn'.trans hn, (List.filterMap_cons_none hev).trans ht⟩

/-- The next tick resumes nobody. -/
theorem exit_not_one {env : Env} {m : Machine} {r : Regs} {t : Fin 8} (hm : m.mode = .entry r)
    (hnum : r.eax = sysExit) : ¬ExitStopsOne env m t := by
  intro h
  obtain ⟨m1, hcall, hspin⟩ := exit_served env hm hnum
  have hring : doSwitch env.link m1.kern m1.cr3 m1.mem (fun _ => 0#32) = .ok _ :=
    doSwitch_ring0 rfl
  have htick : TickStep env m1 .quiet m1 := .kernel (by rw [hspin]; trivial) rfl hring
  obtain ⟨hlen, _⟩ := h.order _ m1 _ m1 hcall (by rw [hspin, hm]; nofun) (.step .start htick)
  cases hlen

/-- **`SYS_EXIT` stops the system.** Whatever the state in which task `t` calls it, it does
not do what it should: in every continuation, of ticks or any other steps, the processor stays
in the loop, task `t` stays the running one, no tick resumes a task, and the node pool is as
it was. -/
theorem exit_stops_all {env : Env} {m : Machine} {r : Regs} {t : Fin 8} (hm : m.mode = .entry r)
    (hnum : r.eax = sysExit) (hcur : m.kern.sched.cur = some t) :
    ¬ExitStopsOne env m t ∧
    ∀ ev m1 h m2, Step env m ev m1 → m1.mode ≠ m.mode → Run (Step env) m1 h m2 →
      m2.mode = .spinning ∧ m2.kern.sched.cur = some t ∧ turns h = [] ∧
        m2.kern.nodePool = m.kern.nodePool := by
  refine ⟨exit_not_one hm hnum, fun ev m1 h m2 hstep hne hrun => ?_⟩
  obtain ⟨hspin, hs, hn⟩ := exit_spins hm hnum hstep hne
  obtain ⟨hmode, hc, hpool, hturns⟩ := spinning_forever hspin hrun
  exact ⟨hmode, by rw [hc, hs, hcur], hturns, hpool.trans hn⟩

/-! ## Task A exits -/

/-- Task A at `int 0x30`, with `SYS_EXIT` in EAX. -/
theorem Demo.exit {e : Ext2} {m0 : Machine} (hd : Demo e m0) (env : Env) :
    ∃ m h r, Run (Step env) m0 h m ∧ m.mode = .entry r ∧ r.eax = sysExit ∧
      m.kern = m0.kern := by
  obtain ⟨r, hm, hr⟩ := hd.user
  have hload : Step env m0 .quiet { m0 with mode := .user { r with eax := sysExit } } :=
    .compute hm hr hr
  exact ⟨_, _, { r with eax := sysExit }, .step (.step .start hload) (.int30 rfl hr), rfl, rfl, rfl⟩

/-- Task A exits, and task B never gets the processor back. -/
theorem exit_stops_all_demo : ∃ env m0 m h m1, Started m0 ∧ m0.kern.sched.ntasks = 2 ∧
    Run (Step env) m0 h m ∧ Step env m .quiet m1 ∧
    ∀ h' m2, Run (Step env) m1 h' m2 → m2.mode = .spinning ∧ turns h' = [] := by
  obtain ⟨m0, hd⟩ := demo_exists (ext2Unmounted 0#32)
  obtain ⟨m, h, r, hrun, hm, hnum, hk⟩ := hd.exit (wildEnv fun _ _ => 0#8)
  obtain ⟨m1, hcall, hspin⟩ := exit_served (wildEnv fun _ _ => 0#8) hm hnum
  refine ⟨_, m0, m, h, m1, hd.booted.started, hd.ntasks, hrun, hcall, fun h' m2 hrun' => ?_⟩
  obtain ⟨hmode, _, hturns, _⟩ := (exit_stops_all hm hnum (t := 0) (by rw [hk]; exact hd.cur)).2
    _ _ _ _ hcall (by rw [hspin, hm]; nofun) hrun'
  exact ⟨hmode, hturns⟩

/-- **With two tasks running**, task A's exit is not an exit of one task. -/
theorem exit_not_one_demo : ∃ env m0 m h r, Started m0 ∧ m0.kern.sched.ntasks = 2 ∧
    Run (Step env) m0 h m ∧ m.mode = .entry r ∧ r.eax = sysExit ∧
    m.kern.sched.cur = some 0 ∧ ¬ExitStopsOne env m 0 := by
  obtain ⟨m0, hd⟩ := demo_exists (ext2Unmounted 0#32)
  obtain ⟨m, h, r, hrun, hm, hnum, hk⟩ := hd.exit (wildEnv fun _ _ => 0#8)
  exact ⟨_, m0, m, h, r, hd.booted.started, hd.ntasks, hrun, hm, hnum, by rw [hk]; exact hd.cur,
    exit_not_one hm hnum⟩

end PepinOS
