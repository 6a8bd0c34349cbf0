import PepinOS.Process.Signals

/-!
# What `SYS_SIGRETURN` gives back

An interrupted context goes from the frame of the timer interrupt into `regs`, from
there into `sig_saved_regs`, and at `SYS_SIGRETURN` into the frame of the system
call. The last layer drops registers: its first four words are the arguments of
`syscall_handler`, which the stub discards, and ESI, EDI and EBP have no place in
it. So the program goes on with EAX = 0, with ECX and EDX as the handler's
code left them, and with whatever the signal handler had in the other four.

`sigreturn_transparent_iff` is that account over every run; the interrupted context
itself, the layers before the last, is kept.
-/

namespace PepinOS

/-- The steps the processor takes in ring 0 before the `iret` of a call: a tick, a key. -/
def Waits (env : Env) (m : Machine) (ev : Event) (m' : Machine) : Prop :=
  Step env m ev m' ∧ m'.mode = m.mode

theorem waits_mode {env : Env} {m m' : Machine} {h : List Event} (hrun : Run (Waits env) m h m') :
    m'.mode = m.mode :=
  hrun.ind (fun s => s.mode = m.mode) rfl fun _ _ _ hi hs => hs.2.trans hi

/-- The registers `SYS_SIGRETURN`, called with the registers `r`, lets the program go on with:
`c` are the ECX and EDX of `syscall_handler`. -/
def Regs.sigreturned (r : Regs) (saved : Ctx) (c : U32 × U32) : Regs :=
  (r.clobbered c).resumed (savedFrame saved) 0#32

theorem syscallHandler_sigreturn {env : Env} {cr3 : U32} {s : Calling} {f : Frame}
    (h : f.eax = sysSigreturn) :
    syscallHandler env cr3 s f = .ok (.returns (callSigreturn s f)) := by
  unfold syscallHandler
  rw [h]
  rfl

/-- The step of a `SYS_SIGRETURN` that leaves a handler. -/
theorem sigreturn_step {env : Env} {m m' : Machine} {r : Regs} {t : Fin 8}
    (hm : m.mode = .entry r) (hnum : r.eax = sysSigreturn) (hstep : Step env m (.returned t) m') :
    m'.mode = .leave (r.clobbered (env.clobber m.kern m.ext2 m.mem r.frame))
      (savedFrame (m.kern.task t).sigSavedRegs) 0#32 := by
  rcases hstep.of_entry hm with
    ⟨hev, _⟩ | ⟨scancode, hev, _⟩ | ⟨c, hc, hev, rfl⟩ | ⟨_, _, hev, _⟩ | ⟨_, hev, _⟩ |
    ⟨_, _, _, hev, _⟩
  · cases hev
  · rcases keyed_cases m.kern scancode with ⟨he, _⟩ | ⟨i, _, he, _⟩ <;> rw [he] at hev <;> cases hev
  · rw [syscallHandler_sigreturn hnum] at hc
    cases hc
    unfold callSigreturn at hev ⊢
    split at hev
    next => cases hev
    next i hcur =>
      simp only at hev
      split at hev
      next => cases hev
      next hin =>
        cases hev
        simp only [if_neg hin]
        rfl
  · cases hev
  · cases hev
  · cases hev

/-- In a handler the call does return. -/
theorem sigreturn_returns (env : Env) {m : Machine} {r : Regs} {t : Fin 8} (hm : m.mode = .entry r)
    (hnum : r.eax = sysSigreturn) (hcur : m.kern.sched.cur = some t)
    (hin : (m.kern.task t).sigInHandler = true) : ∃ m1, Step env m (.returned t) m1 := by
  have hcall : callSigreturn m.calling r.frame =
      ⟨m.calling.setTask t { m.kern.task t with sigInHandler := false },
        savedFrame (m.kern.task t).sigSavedRegs, 0#32, .returned t⟩ := by
    unfold callSigreturn
    rw [show m.calling.kern.sched.cur = some t from hcur]
    exact if_neg (by rw [show (m.calling.kern.task t).sigInHandler = true from hin]; nofun)
  have hc : syscallHandler env m.cr3 m.calling r.frame = _ := syscallHandler_sigreturn hnum
  rw [hcall] at hc
  exact ⟨_, .call hm hc⟩

/-- When the registers are those of the interrupted context. -/
theorem sigreturned_eq_iff (r : Regs) (saved ctx : Ctx) (c : U32 × U32) :
    r.sigreturned saved c = Regs.popped ctx ↔
      (∀ i : Fin 13, 8 ≤ i.val → saved i = ctx i) ∧ ctx 7 = 0#32 ∧ r.ebx = ctx 4 ∧ r.esi = ctx 1 ∧
        r.edi = ctx 0 ∧ r.ebp = ctx 2 ∧ c = (ctx 6, ctx 5) := by
  unfold Regs.sigreturned Regs.resumed Regs.clobbered Regs.popped savedFrame
  simp only [Regs.mk.injEq]
  constructor
  · rintro ⟨h0, h1, h2, h4, h5, h6, h7, h8, h9, h10, h11, h12⟩
    refine ⟨fun i hi => ?_, h7.symm, h4, h1, h0, h2, Prod.ext h6 h5⟩
    rcases (show i = 8 ∨ i = 9 ∨ i = 10 ∨ i = 11 ∨ i = 12 by omega) with rfl | rfl | rfl | rfl | rfl
    · exact h8
    · exact h9
    · exact h10
    · exact h11
    · exact h12
  · rintro ⟨hs, h7, h4, h1, h0, h2, hc⟩
    rw [hc]
    exact ⟨h0, h1, h2, h4, rfl, rfl, h7.symm, hs 8 (by decide), hs 9 (by decide),
      hs 10 (by decide), hs 11 (by decide), hs 12 (by decide)⟩

/-- **When `SYS_SIGRETURN` is transparent.** In any run from the start, let task `t` call
`SYS_SIGRETURN` with the registers `r` in the handler of a delivery that interrupted
`ctx`. After the `iret` the program has the twelve registers of `ctx` exactly if EAX was 0,
the handler gives back EBX, ESI, EDI and EBP itself, the code of `syscall_handler`
happens to leave the interrupted ECX and EDX, and the five words of the return frame are
still as they were saved; and these always are while no store through a user pointer
lands in the kernel's own memory. -/
theorem sigreturn_transparent_iff {env : Env} {m0 m m1 m2 m3 : Machine} {h h' : List Event}
    {r : Regs} {t : Fin 8} {ctx : Ctx} (hstart : Started m0) (hrun : Run (Step env) m0 h m)
    (hm : m.mode = .entry r) (hnum : r.eax = sysSigreturn) (hctx : handling t h = some ctx)
    (hcall : Step env m (.returned t) m1) (hwait : Run (Waits env) m1 h' m2)
    (hiret : Step env m2 .quiet m3) (huser : ∃ r', m3.mode = .user r') :
    (m3.mode = .user (Regs.popped ctx) ↔
      (∀ i : Fin 13, 8 ≤ i.val → (m.kern.task t).sigSavedRegs i = ctx i) ∧ ctx 7 = 0#32 ∧
        r.ebx = ctx 4 ∧ r.esi = ctx 1 ∧ r.edi = ctx 0 ∧ r.ebp = ctx 2 ∧
        env.clobber m.kern m.ext2 m.mem r.frame = (ctx 6, ctx 5)) ∧
    ((∃ env0 : Env, env = env0.guarded) → t.val < m.kern.sched.ntasks →
      (m.kern.task t).sigSavedRegs = ctx) := by
  constructor
  · have hleave := sigreturn_step hm hnum hcall
    rw [← waits_mode hwait] at hleave
    have hmode : m3.mode = .user (r.sigreturned (m.kern.task t).sigSavedRegs
        (env.clobber m.kern m.ext2 m.mem r.frame)) := by
      obtain ⟨r', hr'⟩ := huser
      generalize hev : Event.quiet = ev at hiret
      cases hiret with
      | compute hm' => rw [hleave] at hm'; cases hm'
      | write hm' => rw [hleave] at hm'; cases hm'
      | fault hm' => rw [hleave] at hm'; cases hm'
      | tick hm' => rw [hleave] at hm'; cases hm'
      | tickFault hm' => rw [hleave] at hm'; cases hm'
      | tickKernel _ _ _ => rw [show _ = m2.mode from rfl, hleave] at hr'; cases hr'
      | key _ => rw [show _ = m2.mode from rfl, hleave] at hr'; cases hr'
      | int30 hm' => rw [hleave] at hm'; cases hm'
      | call hm' => rw [hleave] at hm'; cases hm'
      | callSpins hm' => rw [hleave] at hm'; cases hm'
      | callFault hm' => rw [hleave] at hm'; cases hm'
      | killLoad hm' => rw [hleave] at hm'; cases hm'
      | killStore => cases hev
      | iret hm' =>
        rw [hleave] at hm'
        cases hm'
        rfl
    rw [hmode, Mode.user.injEq]
    exact sigreturned_eq_iff ..
  · rintro ⟨env0, rfl⟩ ht
    have hinv : SignalInv False h m := hrun.inv (SignalInv False) hstart.signalInv
      fun _ _ _ _ hi hs => hi.step hs.done nofun
    exact (hinv.tasks t ht).saved ctx hctx

/-! ## Two returns -/

/-- Task A at the end of its handler, which has given back the registers of `stackRegs`. -/
def returnRegs : Regs := { stackRegs sysSigreturn with esp := 0x30FFE8#32 }

/-- Task A, interrupted with `eax` in EAX, to the end of its handler and through `SYS_SIGRETURN`. -/
theorem Demo.sigreturn {e : Ext2} {m0 : Machine} (hd : Demo e m0) (env : Env)
    (hl : ∀ pa, pa / 4096 = 0x30F → env.link.owns pa = false) (eax : U32) :
    ∃ m h m1, Run (Step env) m0 h m ∧ m.mode = .entry returnRegs ∧
      handling 0 h = some ((stackRegs eax).pushed m0.kern.esp0) ∧
      (m.kern.task 0).sigSavedRegs = (stackRegs eax).pushed m0.kern.esp0 ∧
      Step env m (.returned 0) m1 ∧
      m1.mode = .leave (returnRegs.clobbered (env.clobber m.kern m.ext2 m.mem returnRegs.frame))
        (savedFrame (m.kern.task 0).sigSavedRegs) 0#32 := by
  obtain ⟨mem, hrun⟩ := hd.stackDelivery env hl eax
  generalize hK : (m0.armed taskCodeVirt (stackRegs eax)).turned (stackRegs eax) = K at hrun
  have hsaved : (K.task 0).sigSavedRegs = (stackRegs eax).pushed m0.kern.esp0 := by
    rw [← hK, turned_task0]
    rfl
  have hcur : K.sched.cur = some 0 := by
    rw [← hK]
    rfl
  generalize ht : { K.task 0 with sigInHandler := true, sigPending := 32#32 } = u at hrun
  have hu : u.sigSavedRegs = (stackRegs eax).pushed m0.kern.esp0 ∧ u.sigInHandler = true := by
    subst ht
    exact ⟨hsaved, rfl⟩
  have huser : UserMode 0x23#32 0x202#32 := ⟨rfl, rfl, rfl⟩
  have hload := hrun.step (.compute rfl (by exact huser) (show returnRegs.User from huser))
  have hentry := hload.step (.int30 rfl huser)
  generalize hM : Machine.mk (K.setTask 0 u) m0.ext2 mem m0.cr3 (.entry returnRegs) = M
  have hentry : Run (Step env) m0 _ M := hM ▸ hentry
  have hmode : M.mode = .entry returnRegs := by rw [← hM]
  have htask : M.kern.task 0 = u := by
    rw [← hM]
    exact Kernel.setTask_task_self ..
  have hcurM : M.kern.sched.cur = some 0 := by
    rw [← hM]
    exact hcur
  obtain ⟨m1, hcall⟩ := sigreturn_returns env hmode rfl hcurM (by rw [htask]; exact hu.2)
  refine ⟨M, _, m1, hentry, hmode, rfl, ?_, hcall, sigreturn_step hmode rfl hcall⟩
  rw [htask]
  exact hu.1

/-- With EAX, ECX and EDX zero and the other four given back the return is transparent. -/
theorem sigreturn_transparent_given : ∃ env m0 m m' h h' ctx, Started m0 ∧
    Run (Step env) m0 h m ∧ handling 0 h = some ctx ∧ Run (Step env) m h' m' ∧
    m'.mode = .user (Regs.popped ctx) := by
  obtain ⟨m0, hd⟩ := demo_exists (ext2Unmounted 0#32)
  obtain ⟨m, h, m1, hrun, hm, hctx, hsaved, hcall, hleave⟩ :=
    hd.sigreturn (wildEnv fun _ _ => 0#8).guarded imageOwns_stack 0#32
  have hiret : Step (wildEnv fun _ _ => 0#8).guarded m1 _ _ := .iret hleave
  refine ⟨_, m0, m, _, h, _, _, hd.booted.started, hrun, hctx, .step (.step .start hcall) hiret,
    (sigreturn_transparent_iff hd.booted.started hrun hm rfl hctx hcall .start hiret
      ⟨_, rfl⟩).1.mpr ?_⟩
  exact ⟨fun i _ => congrFun hsaved i, rfl, rfl, rfl, rfl, rfl, rfl⟩

/-- **EAX is lost**: task A, interrupted with 5 in EAX, goes on with 0. -/
theorem sigreturn_not_transparent : ∃ env m0 m m1 m' h ctx r r', Started m0 ∧
    Run (Step env) m0 h m ∧ handling 0 h = some ctx ∧ m.mode = .entry r ∧
    r.eax = sysSigreturn ∧ Step env m (.returned 0) m1 ∧ Step env m1 .quiet m' ∧
    m'.mode = .user r' ∧ (Regs.popped ctx).eax = 5#32 ∧ r'.eax = 0#32 := by
  obtain ⟨m0, hd⟩ := demo_exists (ext2Unmounted 0#32)
  obtain ⟨m, h, m1, hrun, hm, hctx, hsaved, hcall, hleave⟩ :=
    hd.sigreturn (wildEnv fun _ _ => 0#8).guarded imageOwns_stack 5#32
  exact ⟨_, m0, m, m1, _, h, _, returnRegs, _, hd.booted.started, hrun, hctx, hm, rfl,
    hcall, .iret hleave, rfl, rfl, rfl⟩

end PepinOS
