import PepinOS.Lib.Run
import PepinOS.Process.Syscall

/-!
# The machine

The whole system as a step relation. The program runs in ring 3 and may do what
the processor lets it: compute, store, fault, `int 0x30`. A timer or keyboard
interrupt may come between any two steps. A system call is three steps (entry,
`syscall_handler`, `iret`), and since its gate leaves interrupts on, a tick or a
key may come between them; the tick then interrupts ring 0. Handlers of
interrupt gates and exceptions run with interrupts off, so they are one step; an
exception handler never returns.

A tick in ring 0 changes nothing, so of what comes between the instructions of
`syscall_handler` only a key can be seen, and only where the call and the keyboard
handler share a variable. In `SYS_KILL` that is the pending mask:
`t->sig_pending |= 1u << sig` reads it (`killLoad`) and writes it back (`killStore`),
and a `SIGINT` raised in between is overwritten. The screen and the ring buffer they
share as well; there a run interleaves whole calls.

A call that stores into memory the driver is not followed into (`Trap.untracked`: a
block larger than its buffer, a store into the kernel that `Link.poke` leaves out)
has no step. So runs stop there, and what is shown of runs says nothing about what
comes after.

`Step.done` sorts the steps of the guarded machine by what they do to the kernel;
every invariant is proved from it.
-/

namespace PepinOS

/-- What the processor is doing. -/
inductive Mode where
  /-- ring 3, with these registers -/
  | user (r : Regs)
  /-- `int 0x30` taken, `syscall_handler` not begun; `r` is the state at the instruction -/
  | entry (r : Regs)
  /-- `SYS_KILL` has read the running task's mask, `pending`, and will write it back with
  the bit of `sig` -/
  | killing (r : Regs) (sig : Fin 32) (pending : U32)
  /-- `syscall_handler` has returned with the registers `r`; `iret` will load from the frame -/
  | leave (r : Regs) (f : Frame) (res : U32)
  /-- a loop in ring 0 with interrupts on, as in `SYS_EXIT` -/
  | spinning
  /-- the loop of an exception handler, interrupts off -/
  | halted

/-- The processor is in ring 0 and takes interrupts. -/
def Mode.Kernel : Mode → Prop
  | .user _ => False
  | .entry _ => True
  | .killing _ _ _ => True
  | .leave _ _ _ => True
  | .spinning => True
  | .halted => False

structure Machine where
  kern : Kernel
  ext2 : Ext2
  mem : Mem
  cr3 : U32
  mode : Mode

def Machine.calling (m : Machine) : Calling := ⟨m.kern, m.ext2, m.mem⟩

/-- Ring 3 may store at `v`: both entries give the page to the user and for writing. -/
def userWritable (m : Mem) (cr3 v : U32) : Bool :=
  userAccess m cr3 v && writeBit (pde m cr3 v) && writeBit (pte m cr3 v)

/-- `_idt_irq1`. -/
def Kernel.keyed (k : Kernel) (scancode : U8) : Kernel :=
  let (kb, scr, sched) := keyboardHandler scancode k.keyboard k.screen k.sched
  { k with keyboard := kb, screen := scr, sched := sched }

def keyEvent (k : Kernel) (scancode : U8) : Event :=
  match k.sched.cur with
  | none => .quiet
  | some i => if keyInterrupts k.keyboard scancode then .raised i 2 else .quiet

/-- The write of `SYS_KILL` to the mask of task `i`, which was `pending` when it was read. -/
def Kernel.killed (k : Kernel) (i : Fin 8) (sig : Fin 32) (pending : U32) : Kernel :=
  k.setTask i { k.task i with sigPending := pending ||| (1#32 <<< sig.val) }

/-- With nothing in between, the read and the write are the whole call. -/
theorem callKill_killed {s : Calling} {f : Frame} {i : Fin 8} {sig : Fin 32}
    (hcur : s.kern.sched.cur = some i) (hsig : sigArg f.ebx = some sig) :
    callKill s f = ⟨{ s with kern := s.kern.killed i sig (s.kern.task i).sigPending }, f, 0#32,
      .raised i sig⟩ := by
  unfold callKill
  rw [hcur, hsig]
  rfl

/-- One step, and what it did. -/
inductive Step (env : Env) : Machine → Event → Machine → Prop where
  | compute {m : Machine} {r r' : Regs} : m.mode = .user r → r.User → r'.User →
      Step env m .quiet { m with mode := .user r' }
  | write {m : Machine} {r : Regs} {va : U32} {b : U8} {s : Store} : m.mode = .user r → r.User →
      userWritable m.mem m.cr3 va = true →
      userStore env.link m.cr3 (m.kern, m.mem) va b = .ok s →
      Step env m .quiet { m with kern := s.1, mem := s.2 }
  | fault {m : Machine} {r : Regs} : m.mode = .user r → r.User →
      Step env m .quiet { m with mode := .halted }
  | tick {m : Machine} {r : Regs} {s : Switched} : m.mode = .user r → r.User →
      doSwitch env.link m.kern m.cr3 m.mem (r.pushed m.kern.esp0) = .ok s →
      Step env m s.ev
        { m with kern := s.kern, cr3 := s.cr3, mem := s.mem, mode := .user (Regs.popped s.ctx) }
  | tickFault {m : Machine} {r : Regs} {s : Store} {cr3 : U32} : m.mode = .user r → r.User →
      doSwitch env.link m.kern m.cr3 m.mem (r.pushed m.kern.esp0) =
        .error (.exception, s, cr3) →
      Step env m .quiet { m with kern := s.1, cr3 := cr3, mem := s.2, mode := .halted }
  /-- a tick in ring 0: `ctx` is whatever lies above the frame on the kernel stack -/
  | tickKernel {m : Machine} {ctx : Ctx} {s : Switched} : m.mode.Kernel → rpl (ctx 9) = 0#32 →
      doSwitch env.link m.kern m.cr3 m.mem ctx = .ok s →
      Step env m s.ev { m with kern := s.kern, cr3 := s.cr3, mem := s.mem }
  | key {m : Machine} {scancode : U8} : m.mode ≠ .halted →
      Step env m (keyEvent m.kern scancode) { m with kern := m.kern.keyed scancode }
  | int30 {m : Machine} {r : Regs} : m.mode = .user r → r.User →
      Step env m .quiet { m with mode := .entry r }
  | call {m : Machine} {r : Regs} {c : Returned} : m.mode = .entry r →
      syscallHandler env m.cr3 m.calling r.frame = .ok (.returns c) →
      Step env m c.ev { m with
        kern := c.state.kern, ext2 := c.state.ext2, mem := c.state.mem
        mode := .leave (r.clobbered (env.clobber m.kern m.ext2 m.mem r.frame)) c.frame c.res }
  | callSpins {m : Machine} {r : Regs} {s : Calling} : m.mode = .entry r →
      syscallHandler env m.cr3 m.calling r.frame = .ok (.spins s) →
      Step env m .quiet { m with kern := s.kern, ext2 := s.ext2, mem := s.mem, mode := .spinning }
  | callFault {m : Machine} {r : Regs} : m.mode = .entry r →
      syscallHandler env m.cr3 m.calling r.frame = .error .exception →
      Step env m .quiet { m with mode := .halted }
  | killLoad {m : Machine} {r : Regs} {i : Fin 8} {sig : Fin 32} : m.mode = .entry r →
      r.eax = sysKill → m.kern.sched.cur = some i → sigArg r.ebx = some sig →
      Step env m .quiet { m with mode := .killing r sig (m.kern.task i).sigPending }
  /-- `t` is still the running task: nothing in ring 0 changes that -/
  | killStore {m : Machine} {r : Regs} {i : Fin 8} {sig : Fin 32} {pending : U32} :
      m.mode = .killing r sig pending → m.kern.sched.cur = some i →
      Step env m (.raised i sig) { m with
        kern := m.kern.killed i sig pending
        mode := .leave (r.clobbered (env.clobber m.kern m.ext2 m.mem r.frame)) r.frame 0#32 }
  | iret {m : Machine} {r : Regs} {f : Frame} {res : U32} : m.mode = .leave r f res →
      Step env m .quiet { m with mode := .user (r.resumed f res) }

/-! ## What a step does to the kernel -/

/-- The moves of the processor in a step that leaves the tasks alone. -/
inductive ModeStep (k : Kernel) : Mode → Mode → Prop where
  | same (d : Mode) : ModeStep k d d
  | compute {r r' : Regs} : r'.User → ModeStep k (.user r) (.user r')
  | int30 {r : Regs} : r.User → ModeStep k (.user r) (.entry r)
  | load (r : Regs) {i : Fin 8} {sig : Fin 32} : k.sched.cur = some i → sig ≠ 0 →
      ModeStep k (.entry r) (.killing r sig (k.task i).sigPending)
  | iret (r : Regs) (f : Frame) (res : U32) : ModeStep k (.leave r f res) (.user (r.resumed f res))
  | stop (d : Mode) : ModeStep k d .halted
  | spin (r : Regs) : ModeStep k (.entry r) .spinning

/-- The variables no step but a tick, a key or a call touches. -/
structure SameKernel (l : Link) (m m' : Machine) : Prop where
  sched : m'.kern.sched = m.kern.sched
  esp0 : m'.kern.esp0 = m.kern.esp0
  nodePool : m'.kern.nodePool = m.kern.nodePool
  vol : m'.ext2.vol = m.ext2.vol
  cr3 : m'.cr3 = m.cr3
  owned : SameOwned l m.mem m'.mem

/-- The steps of the guarded machine. -/
inductive StepDone (env : Env) (m : Machine) : Event → Machine → Prop where
  | still {m' : Machine} : SameKernel env.link m m' → ModeStep m.kern m.mode m'.mode →
      StepDone env m .quiet m'
  | keyed (scancode : U8) : m.mode ≠ .halted →
      StepDone env m (keyEvent m.kern scancode) { m with kern := m.kern.keyed scancode }
  | switched {r : Regs} {i j : Fin 8} {s : Switched} : m.mode = .user r → r.User →
      m.kern.sched.cur = some i → nextNode m.kern.sched i = .task j →
      SwitchDone env.link m.kern m.cr3 m.mem (r.pushed m.kern.esp0) i j s →
      StepDone env m s.ev
        { m with kern := s.kern, cr3 := s.cr3, mem := s.mem, mode := .user (Regs.popped s.ctx) }
  | switchFault {r : Regs} {i : Fin 8} {s : Store} {cr3 : U32} : m.mode = .user r → r.User →
      m.kern.sched.cur = some i →
      SwitchFault m.kern m.cr3 (r.pushed m.kern.esp0) i s.1 →
      StepDone env m .quiet { m with kern := s.1, cr3 := cr3, mem := s.2, mode := .halted }
  | called {r : Regs} {s : Calling} {f : Frame} {res : U32} {ev : Event} : m.mode = .entry r →
      CallKeeps env.link m.calling s →
      CallDone env.guarded m.cr3 m.calling r.frame s f res ev →
      StepDone env m ev { m with
        kern := s.kern, ext2 := s.ext2, mem := s.mem
        mode := .leave (r.clobbered (env.clobber m.kern m.ext2 m.mem r.frame)) f res }
  | killed {r : Regs} {i : Fin 8} {sig : Fin 32} {pending : U32} :
      m.mode = .killing r sig pending → m.kern.sched.cur = some i →
      StepDone env m (.raised i sig) { m with
        kern := m.kern.killed i sig pending
        mode := .leave (r.clobbered (env.clobber m.kern m.ext2 m.mem r.frame)) r.frame 0#32 }

/-- No step leads out of an exception handler. -/
theorem ModeStep.running {k : Kernel} {d d' : Mode} (h : ModeStep k d d') (hd' : d' ≠ .halted) :
    d ≠ .halted := by
  cases h with
  | same => exact hd'
  | stop => exact absurd rfl hd'
  | _ => nofun

/-- A ring-0 tick changes nothing. -/
theorem doSwitch_ring0 {l : Link} {k : Kernel} {cr3 : U32} {mem : Mem} {ctx : Ctx}
    (h : rpl (ctx 9) = 0#32) : doSwitch l k cr3 mem ctx = .ok ⟨k, cr3, mem, ctx, .quiet⟩ := by
  unfold doSwitch
  cases k.sched.cur with
  | none => rfl
  | some i => exact if_pos h

/-- From the entry of a call: an interrupt, which comes back to it, the call, or the read of
`SYS_KILL`. -/
theorem Step.of_entry {env : Env} {m m' : Machine} {r : Regs} {ev : Event} (hm : m.mode = .entry r)
    (h : Step env m ev m') :
    (ev = .quiet ∧ m' = m) ∨
    (∃ scancode, ev = keyEvent m.kern scancode ∧ m' = { m with kern := m.kern.keyed scancode }) ∨
    (∃ c, syscallHandler env m.cr3 m.calling r.frame = .ok (.returns c) ∧ ev = c.ev ∧
      m' = { m with
        kern := c.state.kern, ext2 := c.state.ext2, mem := c.state.mem
        mode := .leave (r.clobbered (env.clobber m.kern m.ext2 m.mem r.frame)) c.frame c.res }) ∨
    (∃ s, syscallHandler env m.cr3 m.calling r.frame = .ok (.spins s) ∧ ev = .quiet ∧
      m' = { m with kern := s.kern, ext2 := s.ext2, mem := s.mem, mode := .spinning }) ∨
    (syscallHandler env m.cr3 m.calling r.frame = .error .exception ∧ ev = .quiet ∧
      m' = { m with mode := .halted }) ∨
    (∃ sig pending, r.eax = sysKill ∧ ev = .quiet ∧
      m' = { m with mode := .killing r sig pending }) := by
  cases h with
  | compute hm' => rw [hm] at hm'; cases hm'
  | write hm' => rw [hm] at hm'; cases hm'
  | fault hm' => rw [hm] at hm'; cases hm'
  | tick hm' => rw [hm] at hm'; cases hm'
  | tickFault hm' => rw [hm] at hm'; cases hm'
  | tickKernel _ h0 hs =>
    rw [doSwitch_ring0 h0] at hs
    cases hs
    exact .inl ⟨rfl, rfl⟩
  | @key scancode _ => exact .inr (.inl ⟨scancode, rfl, rfl⟩)
  | int30 hm' => rw [hm] at hm'; cases hm'
  | call hm' hc =>
    rw [hm] at hm'
    cases hm'
    exact .inr (.inr (.inl ⟨_, hc, rfl, rfl⟩))
  | callSpins hm' hc =>
    rw [hm] at hm'
    cases hm'
    exact .inr (.inr (.inr (.inl ⟨_, hc, rfl, rfl⟩)))
  | callFault hm' hc =>
    rw [hm] at hm'
    cases hm'
    exact .inr (.inr (.inr (.inr (.inl ⟨hc, rfl, rfl⟩))))
  | @killLoad r' i sig hm' hnum _ _ =>
    rw [hm] at hm'
    cases hm'
    exact .inr (.inr (.inr (.inr (.inr ⟨sig, _, hnum, rfl, rfl⟩))))
  | killStore hm' => rw [hm] at hm'; cases hm'
  | iret hm' => rw [hm] at hm'; cases hm'

theorem SameKernel.refl (l : Link) (m : Machine) (d : Mode) : SameKernel l m { m with mode := d } :=
  ⟨rfl, rfl, rfl, rfl, rfl, SameOwned.refl l _⟩

/-- **Every step of the guarded machine is one of these.** -/
theorem Step.done {env : Env} {m m' : Machine} {ev : Event} (h : Step env.guarded m ev m') :
    StepDone env m ev m' := by
  cases h with
  | @compute r r' hm hr hr' =>
    exact .still (.refl _ _ _) (by rw [hm]; exact .compute hr')
  | @write r va b s hm hr _ hs =>
    obtain ⟨hk, ho⟩ := userStore_kept hs
    exact .still ⟨congrArg Kernel.sched hk, congrArg Kernel.esp0 hk, congrArg Kernel.nodePool hk,
      rfl, rfl, ho⟩ (.same _)
  | fault hm hr => exact .still (.refl _ _ _) (.stop _)
  | @tick r s hm hr hs =>
    rcases doSwitch_cases hs with ⟨_, rfl⟩ | ⟨i, j, hcur, hnext, hdone⟩
    · -- no task is registered: the frame goes back as it came
      refine .still (.refl _ _ _) ?_
      rw [hm]
      exact .compute hr
    · exact .switched hm hr hcur hnext hdone
  | @tickFault r s cr3 hm hr hs =>
    obtain ⟨i, hcur, hf⟩ := doSwitch_fault hs
    exact .switchFault hm hr hcur hf
  | @tickKernel ctx s hm h0 hs =>
    rw [doSwitch_ring0 h0] at hs
    cases hs
    exact .still (.refl _ _ _) (.same _)
  | key hm => exact .keyed _ hm
  | int30 hm hr => exact .still (.refl _ _ _) (by rw [hm]; exact .int30 hr)
  | @call r c hm hc =>
    obtain ⟨hkeep, hdone⟩ := syscall_done hc
    exact .called hm hkeep hdone
  | @callSpins r s hm hc =>
    obtain ⟨scr, rfl⟩ := syscall_spins hc
    exact .still ⟨rfl, rfl, rfl, rfl, rfl, SameOwned.refl _ _⟩ (by rw [hm]; exact .spin r)
  | callFault hm hc => exact .still (.refl _ _ _) (.stop _)
  | killLoad hm _ hcur hsig =>
    exact .still (.refl _ _ _) (by rw [hm]; exact .load _ hcur (sigArg_some hsig))
  | killStore hm hcur => exact .killed hm hcur
  | iret hm => exact .still (.refl _ _ _) (by rw [hm]; exact .iret _ _ _)

/-! ## The tasks after a step -/

/-- A key press raises `SIGINT` on the running task, or touches no task. -/
theorem keyed_cases (k : Kernel) (scancode : U8) :
    (keyEvent k scancode = .quiet ∧ (k.keyed scancode).sched = k.sched) ∨
    ∃ i, k.sched.cur = some i ∧ keyEvent k scancode = .raised i 2 ∧
      (k.keyed scancode).sched = k.sched.setTask i
        { k.task i with sigPending := (k.task i).sigPending ||| (1#32 <<< (2 : Fin 32).val) } := by
  have hsched : (k.keyed scancode).sched =
      if keyInterrupts k.keyboard scancode then schedSignal k.sched sigint else k.sched :=
    keyboardHandler_sched scancode k.keyboard k.screen k.sched
  rw [hsched]
  unfold keyEvent schedSignal
  cases hcur : k.sched.cur with
  | none =>
    refine .inl ⟨rfl, ?_⟩
    split <;> rfl
  | some i =>
    cases keyInterrupts k.keyboard scancode with
    | false => exact .inl ⟨rfl, rfl⟩
    | true => exact .inr ⟨i, rfl, rfl, rfl⟩

/-- Only a tick in ring 3 switches. -/
theorem StepDone.switch {env : Env} {m m' : Machine} {out into : Fin 8} {saved left : Ctx}
    {sig : Option (Fin 32 × Ctx)} (h : StepDone env m (.switched out into saved left sig) m') :
    ∃ r i j s, m.mode = .user r ∧
      SwitchDone env.link m.kern m.cr3 m.mem (r.pushed m.kern.esp0) i j s ∧
      s.ev = .switched out into saved left sig ∧ m' = { m with
        kern := s.kern, cr3 := s.cr3, mem := s.mem, mode := .user (Regs.popped s.ctx) } := by
  generalize hev : Event.switched out into saved left sig = ev at h
  cases h with
  | still => cases hev
  | keyed scancode =>
    rcases keyed_cases m.kern scancode with ⟨he, _⟩ | ⟨i, _, he, _⟩ <;> rw [he] at hev <;> cases hev
  | switchFault => cases hev
  | @switched r i j s hm _ _ _ hdone => exact ⟨r, i, j, s, hm, hdone, rfl, rfl⟩
  | called _ _ hdone => cases hdone <;> cases hev
  | killed => cases hev

theorem switchTo_task (k : Kernel) (i j : Fin 8) (ctx : Ctx) (cr3 : U32) (t : Fin 8) :
    (switchTo k i j ctx cr3).task t =
      if t = i then { k.task i with regs := ctx, cr3 := cr3 } else k.task t := by
  have hpool : (switchTo k i j ctx cr3).task t =
      (k.setTask i { k.task i with regs := ctx, cr3 := cr3 }).task t := rfl
  rw [hpool]
  split
  next h => rw [h, Kernel.setTask_task_self]
  next h => exact Kernel.setTask_task_ne _ _ h

theorem switchTo_esp0 (k : Kernel) (i j : Fin 8) (ctx : Ctx) (cr3 : U32) :
    (switchTo k i j ctx cr3).esp0 = ((switchTo k i j ctx cr3).task j).kstackTop := rfl

/-- What a switch leaves, with a signal delivered or without: task `j` runs, on its own
page directory and kernel stack. -/
theorem SwitchDone.spec {l : Link} {k : Kernel} {cr3 : U32} {mem : Mem} {ctx : Ctx} {i j : Fin 8}
    {s : Switched} (h : SwitchDone l k cr3 mem ctx i j s) :
    s.kern.sched.cur = some j ∧ s.kern.sched.links = k.sched.links ∧
      s.kern.sched.ntasks = k.sched.ntasks ∧ s.kern.nodePool = k.nodePool ∧
      s.cr3 = (s.kern.task j).cr3 ∧ s.kern.esp0 = (s.kern.task j).kstackTop ∧
      SameOwned l mem s.mem := by
  cases h with
  | plain t ht _ =>
    refine ⟨rfl, rfl, rfl, rfl, ?_, rfl, SameOwned.refl l mem⟩
    rw [ht]
  | signal t sig mem' ht _ hw =>
    refine ⟨rfl, rfl, rfl, rfl, ?_, ?_, hw.sameOwned⟩
    · simp only [Kernel.setTask_task_self]
      rfl
    · simp only [Kernel.setTask_task_self]
      rw [ht]
      rfl

/-- A switch changes the contexts, the mask and the handler flag; everything else of a task
but its CR3 stays. -/
theorem SwitchDone.frame {α : Type} (F : Task → α) {l : Link} {k : Kernel} {cr3 : U32} {mem : Mem}
    {ctx : Ctx} {i j : Fin 8} {s : Switched} (h : SwitchDone l k cr3 mem ctx i j s)
    (hsave : F { k.task i with regs := ctx, cr3 := cr3 } = F (k.task i))
    (hsig : ∀ t c sig, F (t.signalled c sig) = F t) (t : Fin 8) :
    F (s.kern.task t) = F (k.task t) := by
  have hto : ∀ t, F ((switchTo k i j ctx cr3).task t) = F (k.task t) := by
    intro t
    rw [switchTo_task]
    split
    next h => rw [hsave, h]
    next => rfl
  cases h with
  | plain u _ _ => exact hto t
  | signal u sig mem' hu _ _ =>
    refine (setTask_frame F (s := (switchTo k i j ctx cr3).sched) ?_ t).trans (hto t)
    rw [hsig, hu]
    rfl

theorem SwitchFault.frame {α : Type} (F : Task → α) {k k' : Kernel} {cr3 : U32} {ctx : Ctx}
    {i : Fin 8} (h : SwitchFault k cr3 ctx i k')
    (hsave : F { k.task i with regs := ctx, cr3 := cr3 } = F (k.task i))
    (hsig : ∀ t c, F { t with sigSavedRegs := c } = F t) (t : Fin 8) :
    F (k'.task t) = F (k.task t) := by
  cases h with
  | lost => exact setTask_frame F hsave t
  | stack j u hu _ _ =>
    refine (setTask_frame F (s := (switchTo k i j ctx cr3).sched) ?_ t).trans ?_
    · rw [hsig, hu]
      rfl
    · exact setTask_frame F hsave t

/-- The parts of a task that only the scheduler writes. -/
def Task.contexts (t : Task) : Ctx × U32 × U32 × Ctx := (t.regs, t.cr3, t.kstackTop, t.sigSavedRegs)

theorem CallDone.contexts {env : Env} {cr3 : U32} {s s' : Calling} {f f' : Frame} {res : U32}
    {ev : Event} (h : CallDone env cr3 s f s' f' res ev) (t : Fin 8) :
    (s'.kern.task t).contexts = (s.kern.task t).contexts := by
  unfold Kernel.task
  cases h with
  | quiet hs _ => rw [hs]
  | opened _ _ _ _ _ _ hs _ _ => rw [hs]; exact setTask_frame Task.contexts (by rfl) t
  | closed _ _ _ hs _ => rw [hs]; exact setTask_frame Task.contexts (by rfl) t
  | read _ _ _ _ _ _ hs _ => rw [hs]; exact setTask_frame Task.contexts (by rfl) t
  | sigaction _ _ hs _ => rw [hs]; exact setTask_frame Task.contexts (by rfl) t
  | raised _ _ hs _ => rw [hs]; exact setTask_frame Task.contexts (by rfl) t
  | returned _ _ hs _ => rw [hs]; exact setTask_frame Task.contexts (by rfl) t

/-- The write of `SYS_KILL` changes the mask of one task. -/
theorem killed_frame {α : Type} (F : Task → α) (k : Kernel) (i : Fin 8) (sig : Fin 32)
    (pending : U32) (hF : ∀ t w, F { t with sigPending := w } = F t) (t : Fin 8) :
    F ((k.killed i sig pending).task t) = F (k.task t) :=
  setTask_frame F (hF _ _) t

theorem keyed_cur (k : Kernel) (scancode : U8) : (k.keyed scancode).sched.cur = k.sched.cur := by
  rcases keyed_cases k scancode with ⟨_, hs⟩ | ⟨i, _, _, hs⟩
  · rw [hs]
  · rw [hs]
    rfl

theorem keyed_contexts (k : Kernel) (scancode : U8) (t : Fin 8) :
    ((k.keyed scancode).task t).contexts = (k.task t).contexts := by
  unfold Kernel.task
  rcases keyed_cases k scancode with ⟨_, hs⟩ | ⟨i, _, _, hs⟩
  · rw [hs]
  · rw [hs]
    exact setTask_frame Task.contexts (by rfl) t

/-! ## The list of tasks through a run -/

theorem CallDone.sched {env : Env} {cr3 : U32} {s s' : Calling} {f f' : Frame} {res : U32}
    {ev : Event} (h : CallDone env cr3 s f s' f' res ev) :
    s'.kern.sched.links = s.kern.sched.links ∧ s'.kern.sched.ntasks = s.kern.sched.ntasks ∧
      s'.kern.sched.cur = s.kern.sched.cur := by
  cases h with
  | quiet hs _ => rw [hs]; exact ⟨rfl, rfl, rfl⟩
  | opened _ _ _ _ _ _ hs _ _ => rw [hs]; exact ⟨rfl, rfl, rfl⟩
  | closed _ _ _ hs _ => rw [hs]; exact ⟨rfl, rfl, rfl⟩
  | read _ _ _ _ _ _ hs _ => rw [hs]; exact ⟨rfl, rfl, rfl⟩
  | sigaction _ _ hs _ => rw [hs]; exact ⟨rfl, rfl, rfl⟩
  | raised _ _ hs _ => rw [hs]; exact ⟨rfl, rfl, rfl⟩
  | returned _ _ hs _ => rw [hs]; exact ⟨rfl, rfl, rfl⟩

/-- The list of tasks is the same before and after a step, and a registered task runs. -/
theorem StepDone.schedInv {env : Env} {m m' : Machine} {ev : Event} (h : StepDone env m ev m')
    (hinv : SchedInv m.kern.sched) :
    SchedInv m'.kern.sched ∧ m'.kern.sched.ntasks = m.kern.sched.ntasks := by
  have hnext : ∀ {i j : Fin 8}, m.kern.sched.cur = some i → nextNode m.kern.sched i = .task j →
      j.val < m.kern.sched.ntasks := by
    intro i j hcur hj
    have hi := hinv.cur_lt i hcur
    obtain ⟨j', hj', hval⟩ := next_task hinv hi
    rw [hj] at hj'
    cases hj'
    rw [hval]
    exact Nat.mod_lt _ (by omega)
  cases h with
  | still hs _ =>
    rw [hs.sched]
    exact ⟨hinv, rfl⟩
  | keyed scancode _ =>
    show SchedInv (m.kern.keyed scancode).sched ∧
      (m.kern.keyed scancode).sched.ntasks = m.kern.sched.ntasks
    rcases keyed_cases m.kern scancode with ⟨_, hs⟩ | ⟨i, _, _, hs⟩
    · rw [hs]
      exact ⟨hinv, rfl⟩
    · rw [hs]
      exact ⟨hinv.setTask i _, rfl⟩
  | @switched r i j s _ _ hcur hj hdone =>
    obtain ⟨hc, hl, hn, _⟩ := hdone.spec
    refine ⟨hinv.congr hl hn ?_ fun _ => by rw [hc]; rfl, hn⟩
    intro i' hi'
    rw [hc] at hi'
    cases hi'
    exact hnext hcur hj
  | @switchFault r i s cr3 _ _ hcur hf =>
    obtain ⟨k, mem⟩ := s
    simp only at hf
    cases hf with
    | lost => exact ⟨hinv.setTask i _, rfl⟩
    | stack j t _ hj _ =>
      refine ⟨hinv.congr rfl rfl ?_ fun _ => rfl, rfl⟩
      intro i' hi'
      cases hi'
      exact hnext hcur hj
  | called _ _ hdone =>
    obtain ⟨hl, hn, hc⟩ := hdone.sched
    refine ⟨hinv.congr hl hn ?_ fun h => by rw [hc]; exact h, hn⟩
    intro i hi
    rw [hc] at hi
    exact hinv.cur_lt i hi
  | @killed r i sig pending _ _ => exact ⟨hinv.setTask i _, rfl⟩

theorem run_schedInv {env : Env} {m0 m : Machine} {h : List Event} (hinv : SchedInv m0.kern.sched)
    (hrun : Run (Step env.guarded) m0 h m) :
    SchedInv m.kern.sched ∧ m.kern.sched.ntasks = m0.kern.sched.ntasks := by
  refine hrun.ind (fun s => SchedInv s.kern.sched ∧ s.kern.sched.ntasks = m0.kern.sched.ntasks)
    ⟨hinv, rfl⟩ ?_
  rintro s ev s' ⟨hi, hn⟩ hstep
  obtain ⟨hi', hn'⟩ := hstep.done.schedInv hi
  exact ⟨hi', hn'.trans hn⟩

/-! ## One call, seen from the program -/

/-- Any registers the program likes, `int 0x30`, the call, and back. -/
theorem run_call (env : Env) {m : Machine} {r r' : Regs} {c : Returned} (hm : m.mode = .user r)
    (hr : r.User) (hr' : r'.User)
    (hc : syscallHandler env m.cr3 m.calling r'.frame = .ok (.returns c)) :
    Run (Step env) m [.quiet, c.ev, .quiet, .quiet]
      { m with
        kern := c.state.kern, ext2 := c.state.ext2, mem := c.state.mem
        mode := .user ((r'.clobbered (env.clobber m.kern m.ext2 m.mem r'.frame)).resumed
          c.frame c.res) } := by
  have h1 : Step env m .quiet { m with mode := .user r' } := .compute hm hr hr'
  have h2 : Step env { m with mode := .user r' } .quiet { m with mode := .entry r' } :=
    .int30 rfl hr'
  have h3 : Step env { m with mode := .entry r' } _ _ := .call rfl hc
  exact .step (.step (.step (.step .start h1) h2) h3) (.iret rfl)

section Calls

variable {m : Machine} {r r' : Regs} {i : Fin 8} {sig : Fin 32}

/-- `SYS_SIGACTION` with the registers `r'`. -/
theorem run_sigaction (env : Env) (hm : m.mode = .user r) (hr : r.User) (hr' : r'.User)
    (hnum : r'.eax = sysSigaction) (hcur : m.kern.sched.cur = some i)
    (hsig : sigArg r'.ebx = some sig) : ∃ r'' : Regs, r''.User ∧
    Run (Step env) m [.quiet, .quiet, .quiet, .quiet]
      { m with
        kern := m.kern.setTask i { m.kern.task i with
          sigHandlers := Function.update (m.kern.task i).sigHandlers sig r'.ecx }
        mode := .user r'' } := by
  have hdone : callSigaction m.calling r'.frame =
      ⟨m.calling.setTask i { m.kern.task i with
        sigHandlers := Function.update (m.kern.task i).sigHandlers sig r'.ecx }, r'.frame, 0#32,
        .quiet⟩ := by
    unfold callSigaction
    rw [show m.calling.kern.sched.cur = some i from hcur, show sigArg r'.frame.ebx = _ from hsig]
    rfl
  have hcall : syscallHandler env m.cr3 m.calling r'.frame = _ := syscallHandler_sigaction hnum
  rw [hdone] at hcall
  refine ⟨_, ?_, run_call env hm hr hr' hcall⟩
  exact hr'

/-- `SYS_KILL`, with nothing between its read and its write. -/
theorem run_kill (env : Env) (hm : m.mode = .user r) (hr : r.User) (hr' : r'.User)
    (hnum : r'.eax = sysKill) (hcur : m.kern.sched.cur = some i)
    (hsig : sigArg r'.ebx = some sig) : ∃ r'' : Regs, r''.User ∧
    Run (Step env) m [.quiet, .raised i sig, .quiet, .quiet]
      { m with
        kern := m.kern.killed i sig (m.kern.task i).sigPending
        mode := .user r'' } := by
  have hcall : syscallHandler env m.cr3 m.calling r'.frame = _ := syscallHandler_kill hnum
  have hdone : callKill m.calling r'.frame = _ :=
    callKill_killed (show m.calling.kern.sched.cur = some i from hcur)
      (show sigArg r'.frame.ebx = some sig from hsig)
  rw [hdone] at hcall
  refine ⟨_, ?_, run_call env hm hr hr' hcall⟩
  exact hr'

end Calls

end PepinOS
