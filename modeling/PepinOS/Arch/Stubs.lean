import Mathlib.Tactic.FinCases
import PepinOS.Arch.Idt
import PepinOS.Process.CallRegs
import PepinOS.Process.Privilege

/-!
# The entry points of interrupts

`arch/idt_asm.asm`, instruction by instruction. A stub is a list of instructions in front
of an `iret`; the C function it calls is any code that keeps to cdecl, and it may as well
never return. What the processor pushes depends on where it was: five words in ring 3, on
the kernel stack of the task, three in ring 0, on the stack in use, and for some exceptions
an error code on top.

`interrupt_returns` is about all vectors but the timer's and the system call's: if the C
function comes back, so does the interrupted code, to the bit, except that a stub that
pops an error code has lost EAX to it. `irq0_tick` is about the timer: `do_switch` gets the
13 words the model of the switch works on, and what it leaves in them is what the
processor continues with.
-/

namespace PepinOS

/-! ## Instructions -/

/-- The registers the stubs name. -/
inductive Reg where
  | eax
  | ebx
  | ecx
  | edx

/-- The C functions they call. -/
inductive Handler where
  | default
  | div0
  | pagefault
  | gpf
  | numbered
  | doSwitch
  | keyboard
  | syscall
  deriving DecidableEq

/-- Argument words on the stack of a call. -/
def Handler.args : Handler → Nat
  | .default | .div0 | .keyboard => 0
  | .gpf | .numbered | .doSwitch => 1
  | .pagefault => 2
  | .syscall => 5

inductive Instr where
  | push (r : Reg)
  /-- `push esp` -/
  | pushEsp
  | pushImm (w : U32)
  | pop (r : Reg)
  /-- `mov r, [esp + 4 * i]` -/
  | load (r : Reg) (i : Nat)
  /-- `mov al, b` -/
  | movAl (b : U8)
  /-- `out port, al` -/
  | out (port : U16)
  | pusha
  | popa
  /-- `add esp, 4 * n` -/
  | addEsp (n : Nat)
  | call (f : Handler)

def Core.get (c : Core) : Reg → U32
  | .eax => c.eax
  | .ebx => c.ebx
  | .ecx => c.ecx
  | .edx => c.edx

def Core.set (c : Core) (r : Reg) (w : U32) : Core :=
  match r with
  | .eax => { c with eax := w }
  | .ebx => { c with ebx := w }
  | .ecx => { c with ecx := w }
  | .edx => { c with edx := w }

def Core.setAl (c : Core) (b : U8) : Core :=
  { c with eax := (c.eax &&& 0xFFFFFF00#32) ||| b.setWidth 32 }

/-- `pusha`, which stores ESP as it was before. -/
def Core.pusha (c : Core) : Core :=
  (((((((c.push c.eax).push c.ecx).push c.edx).push c.ebx).push c.esp).push c.ebp).push c.esi).push
    c.edi

/-- `popa`, which skips the word of ESP. -/
def Core.popa (c : Core) : Option Core :=
  match c.stack with
  | edi :: esi :: ebp :: _ :: ebx :: edx :: ecx :: eax :: rest =>
    some ⟨eax, ebx, ecx, edx, esi, edi, ebp, c.esp + 32#32, rest⟩
  | _ => none

def Core.pop (c : Core) (r : Reg) : Option Core :=
  match c.stack with
  | w :: rest => some ({ c with esp := c.esp + 4#32, stack := rest }.set r w)
  | [] => none

/-- What the C functions do, from their first instruction to behind their `ret`; `none` is a
function that does not return. -/
abbrev Handlers := Handler → Core → Option Core

/-- A byte a stub sends to a port. -/
abbrev PortWrite := U16 × U8

/-- One instruction; `back` is the return address of a call. -/
def Instr.exec (F : Handlers) (back : U32) (i : Instr) (s : Core × List PortWrite) :
    Option (Core × List PortWrite) :=
  let (c, w) := s
  match i with
  | .push r => some (c.push (c.get r), w)
  | .pushEsp => some (c.push c.esp, w)
  | .pushImm n => some (c.push n, w)
  | .pop r => (c.pop r).map fun c => (c, w)
  | .load r i => (c.stack[i]?).map fun n => (c.set r n, w)
  | .movAl b => some (c.setAl b, w)
  | .out port => some (c, w ++ [(port, c.eax.setWidth 8)])
  | .pusha => some (c.pusha, w)
  | .popa => c.popa.map fun c => (c, w)
  | .addEsp n => some (c.drop n, w)
  | .call f => (F f (c.push back)).map fun c => (c, w)

def execAll (F : Handlers) (back : U32) : List Instr → Core × List PortWrite →
    Option (Core × List PortWrite)
  | [], s => some s
  | i :: is, s => (i.exec F back s).bind (execAll F back is)

/-! ## The stubs -/

/-- `ISR_NOERR` -/
def isrNoErr (n : U32) : List Instr :=
  [.pusha, .pushImm n, .call .numbered, .addEsp 1, .popa]

/-- `ISR_ERR` -/
def isrErr (n : U32) : List Instr :=
  [.pop .eax, .pusha, .pushImm n, .call .numbered, .addEsp 1, .popa]

/-- `IRQ_DEFAULT` -/
def irqDefault (n : U32) : List Instr :=
  [.pusha, .pushImm (32#32 + n), .call .numbered, .addEsp 1, .movAl 0x20#8, .out 0x20#16, .popa]

/-- The numbers of `ISR_ERR`. -/
def isrErrs : List Nat := [8, 10, 11, 12, 17]

/-- The code in front of the `iret`. -/
def Stub.code : Stub → List Instr
  | .default => [.pusha, .call .default, .movAl 0x20#8, .out 0x20#16, .popa]
  | .div0 => [.pusha, .call .div0, .popa]
  | .isr n => if n ∈ isrErrs then isrErr (BitVec.ofNat 32 n) else isrNoErr (BitVec.ofNat 32 n)
  | .gpf => [.pop .eax, .pusha, .push .eax, .call .gpf, .addEsp 1, .popa]
  | .pagefault =>
    [.pop .eax, .pusha, .load .ebx 8, .push .ebx, .push .eax, .call .pagefault, .addEsp 2, .popa]
  | .irq0 =>
    [.pusha, .pushEsp, .call .doSwitch, .addEsp 1, .movAl 0x20#8, .out 0x20#16, .popa]
  | .irq1 => [.pusha, .call .keyboard, .movAl 0x20#8, .out 0x20#16, .popa]
  | .irq n => irqDefault (BitVec.ofNat 32 n)
  | .syscall =>
    [.push .edx, .push .ecx, .push .ebx, .push .eax, .pushEsp, .call .syscall, .addEsp 5]

/-! ## The processor -/

/-- Code an interrupt arrives in: a program, its kernel stack empty down to `esp0` over
`base`, or the kernel. -/
inductive Interrupted where
  | user (r : Regs) (esp0 : U32) (base : List U32)
  | kernel (c : Core) (eip cs eflags : U32)

/-- The code segment is of its ring. -/
def Interrupted.Valid : Interrupted → Prop
  | .user r _ _ => rpl r.cs ≠ 0#32
  | .kernel _ _ cs _ => rpl cs = 0#32

/-- At the first instruction of a stub. -/
def Interrupted.entered (x : Interrupted) (err : Option U32) : Core :=
  let c := match x with
    | .user r esp0 base =>
      ((((Core.mk r.eax r.ebx r.ecx r.edx r.esi r.edi r.ebp esp0 base).push r.ss).push r.esp).push
        r.eflags |>.push r.cs).push r.eip
    | .kernel c eip cs eflags => ((c.push eflags).push cs).push eip
  match err with
  | none => c
  | some e => c.push e

/-- `iret`: to the ring of the CS on the stack. -/
def Core.iretAny (c : Core) : Option Interrupted :=
  match c.stack with
  | eip :: cs :: eflags :: rest =>
    if rpl cs = 0#32 then
      some (.kernel { c with esp := c.esp + 12#32, stack := rest } eip cs eflags)
    else
      match rest with
      | esp :: ss :: base =>
        some (.user ⟨c.edi, c.esi, c.ebp, c.ebx, c.edx, c.ecx, c.eax, eip, cs, eflags, esp, ss⟩
          (c.esp + 20#32) base)
      | _ => none
  | _ => none

/-- The vectors with an error code. -/
def pushesError (v : Nat) : Bool := v ∈ [8, 10, 11, 12, 13, 14, 17]

/-- A whole interrupt, from the code it arrives in to the code it returns to. -/
def interrupt (F : Handlers) (back : U32) (v : Nat) (err : Option U32) (x : Interrupted) :
    Option (Interrupted × List PortWrite) :=
  (execAll F back (vectorStub v).code (x.entered err, [])).bind fun s =>
    s.1.iretAny.map fun x => (x, s.2)

/-! ## cdecl -/

/-- From `c`, the first instruction of a function of `n` argument words, to `c'`, behind its
`ret`. -/
structure CdeclN (n : Nat) (c c' : Core) : Prop where
  ebx : c'.ebx = c.ebx
  esi : c'.esi = c.esi
  edi : c'.edi = c.edi
  ebp : c'.ebp = c.ebp
  esp : c'.esp = c.esp + 4#32
  stack : ∃ args, args.length = n ∧ c'.stack = args ++ c.stack.drop (n + 1)

/-- The functions that leave the frame above their arguments alone keep to cdecl. -/
def Handlers.Cdecl (F : Handlers) : Prop :=
  ∀ f c c', f ≠ .doSwitch → f ≠ .syscall → F f c = some c' → CdeclN f.args c c'

/-- `c` is `c0` after its `pusha` and the pushes of `args`. -/
structure Called (c0 c : Core) (args : List U32) : Prop where
  esp : c.esp = c0.pusha.esp - BitVec.ofNat 32 (4 * args.length)
  stack : c.stack = args ++ c0.pusha.stack

theorem pusha_esp (c : Core) : c.pusha.esp = c.esp - 32#32 := by
  show c.esp - 4#32 - 4#32 - 4#32 - 4#32 - 4#32 - 4#32 - 4#32 - 4#32 = _
  bv_omega

/-- `popa` undoes `pusha`, whatever the registers hold by then. -/
theorem popa_pusha {c0 c : Core} (hstack : c.stack = c0.pusha.stack) (hesp : c.esp = c0.pusha.esp) :
    c.popa = some c0 := by
  have hback : c.esp + 32#32 = c0.esp := by
    rw [hesp, pusha_esp]
    exact BitVec.sub_add_cancel _ _
  unfold Core.popa
  rw [hstack]
  show some (Core.mk c0.eax c0.ebx c0.ecx c0.edx c0.esi c0.edi c0.ebp (c.esp + 32#32) c0.stack) = _
  rw [hback]

/-- The arguments are dropped after a call. -/
theorem CdeclN.drop {n : Nat} {c0 c c' : Core} {back : U32} {args : List U32}
    (hc : Called c0 c args) (hn : args.length = n) (h : CdeclN n (c.push back) c') :
    (c'.drop n).stack = c0.pusha.stack ∧ (c'.drop n).esp = c0.pusha.esp := by
  obtain ⟨args', hlen, hstack⟩ := h.stack
  constructor
  · show c'.stack.drop n = _
    rw [hstack, ← hlen, List.drop_left, hlen]
    show c.stack.drop n = _
    rw [hc.stack, ← hn, List.drop_left]
  · show c'.esp + BitVec.ofNat 32 (4 * n) = _
    rw [h.esp]
    show c.esp - 4#32 + 4#32 + _ = _
    rw [BitVec.sub_add_cancel, hc.esp, hn, BitVec.sub_add_cancel]

/-- What follows a call: its arguments are dropped, the controller is told, `popa`. -/
def cleanup (n : Nat) (eoi : Bool) : List Instr :=
  (if n = 0 then [] else [.addEsp n]) ++ (if eoi then [.movAl 0x20#8, .out 0x20#16] else []) ++
    [.popa]

/-- The end of an interrupt, on the master's command port. -/
def eoiWrites (eoi : Bool) : List PortWrite := if eoi then [(0x20#16, 0x20#8)] else []

theorem setAl_low (c : Core) (b : U8) : ((c.setAl b).eax.setWidth 8 : U8) = b := by
  apply BitVec.eq_of_getLsbD_eq
  intro i hi
  unfold Core.setAl
  simp [hi]

theorem exec_cleanup {F : Handlers} {back : U32} {n : Nat} {eoi : Bool} {c0 c' : Core}
    {w : List PortWrite} (hstack : (c'.drop n).stack = c0.pusha.stack)
    (hesp : (c'.drop n).esp = c0.pusha.esp) :
    execAll F back (cleanup n eoi) (c', w) = some (c0, w ++ eoiWrites eoi) := by
  have hzero : n = 0 → c'.drop n = c' := by
    rintro rfl
    show { c' with esp := c'.esp + 0#32, stack := c'.stack } = c'
    rw [BitVec.add_zero]
  have hpop : ∀ (c : Core) (w : List PortWrite), c.stack = c0.pusha.stack → c.esp = c0.pusha.esp →
      execAll F back [.popa] (c, w) = some (c0, w) := by
    intro c w hs he
    show (c.popa.map fun c => (c, w)).bind _ = _
    rw [popa_pusha hs he]
    rfl
  have htell : ∀ (c : Core), c.stack = c0.pusha.stack → c.esp = c0.pusha.esp →
      execAll F back ((if eoi then [.movAl 0x20#8, .out 0x20#16] else []) ++ [.popa]) (c, w) =
        some (c0, w ++ eoiWrites eoi) := by
    intro c hs he
    cases eoi with
    | false =>
      show execAll F back [.popa] (c, w) = some (c0, w ++ [])
      rw [List.append_nil]
      exact hpop c w hs he
    | true =>
      show execAll F back [.popa] (_, w ++ [(0x20#16, _)]) = _
      rw [setAl_low]
      exact hpop _ _ hs he
  unfold cleanup
  by_cases hn : n = 0
  · rw [if_pos hn, List.nil_append]
    rw [hzero hn] at hstack hesp
    exact htell c' hstack hesp
  · rw [if_neg hn]
    exact htell (c'.drop n) hstack hesp

/-- **A call between `pusha` and `popa`.** -/
theorem exec_call {F : Handlers} (hF : F.Cdecl) {f : Handler} (hsw : f ≠ .doSwitch)
    (hsys : f ≠ .syscall) {back : U32} {eoi : Bool} {c0 c : Core} {args : List U32}
    {w : List PortWrite} (hc : Called c0 c args) (hlen : args.length = f.args) :
    execAll F back (.call f :: cleanup f.args eoi) (c, w) =
      (F f (c.push back)).map fun _ => (c0, w ++ eoiWrites eoi) := by
  show ((F f (c.push back)).map fun c => (c, w)).bind _ = _
  cases hcall : F f (c.push back) with
  | none => rfl
  | some c' =>
    obtain ⟨hstack, hesp⟩ := (hF f _ c' hsw hsys hcall).drop hc hlen
    exact exec_cleanup hstack hesp

/-! ## Whole interrupts -/

/-- EIP as the processor pushes it. -/
def Interrupted.eip : Interrupted → U32
  | .user r _ _ => r.eip
  | .kernel _ eip _ _ => eip

/-- The code with the error code in EAX, where there is one. -/
def Interrupted.popped (x : Interrupted) : Option U32 → Interrupted
  | none => x
  | some e =>
    match x with
    | .user r esp0 base => .user { r with eax := e } esp0 base
    | .kernel c eip cs eflags => .kernel { c with eax := e } eip cs eflags

/-- The function an entry point calls, and its arguments. -/
def Stub.handler : Stub → Handler
  | .default => .default
  | .div0 => .div0
  | .isr _ => .numbered
  | .gpf => .gpf
  | .pagefault => .pagefault
  | .irq0 => .doSwitch
  | .irq1 => .keyboard
  | .irq _ => .numbered
  | .syscall => .syscall

/-- What is handed to the function of vector `v`: its number, the error code, the EIP of a
page fault. -/
def callArgs (v : Nat) (err eip : U32) : List U32 :=
  match (vectorStub v).handler with
  | .numbered => [BitVec.ofNat 32 v]
  | .gpf => [err]
  | .pagefault => [err, eip]
  | _ => []

/-- The entry points that tell the controller. -/
def Stub.eoi : Stub → Bool
  | .default | .irq0 | .irq1 | .irq _ => true
  | _ => false

theorem called_nil (c0 : Core) : Called c0 c0.pusha [] :=
  ⟨(BitVec.sub_zero _).symm, rfl⟩

theorem called_one (c0 : Core) (w : U32) : Called c0 (c0.pusha.push w) [w] := ⟨rfl, rfl⟩

theorem iretAny_entered {x : Interrupted} (hx : x.Valid) : (x.entered none).iretAny = some x := by
  cases x with
  | user r esp0 base =>
    have hesp : esp0 - 4#32 - 4#32 - 4#32 - 4#32 - 4#32 + 20#32 = esp0 := by bv_omega
    refine (if_neg hx).trans ?_
    show some (Interrupted.user r (esp0 - 4#32 - 4#32 - 4#32 - 4#32 - 4#32 + 20#32) base) = _
    rw [hesp]
  | kernel c eip cs eflags =>
    have hesp : c.esp - 4#32 - 4#32 - 4#32 + 12#32 = c.esp := by bv_omega
    refine (if_pos hx).trans ?_
    show some (Interrupted.kernel { c with esp := c.esp - 4#32 - 4#32 - 4#32 + 12#32 } eip cs
      eflags) = _
    rw [hesp]

theorem Interrupted.Valid.popped {x : Interrupted} (hx : x.Valid) (err : Option U32) :
    (x.popped err).Valid := by
  cases err with
  | none => exact hx
  | some e =>
    cases x with
    | user => exact hx
    | kernel => exact hx

/-- `pop eax` takes the error code off the frame. -/
theorem pop_error (x : Interrupted) (e : U32) :
    (x.entered (some e)).pop .eax = some ((x.popped (some e)).entered none) := by
  cases x with
  | user r esp0 base =>
    show some (Core.mk e r.ebx r.ecx r.edx r.esi r.edi r.ebp
      (esp0 - 4#32 - 4#32 - 4#32 - 4#32 - 4#32 - 4#32 + 4#32) _) = _
    rw [BitVec.sub_add_cancel]
    rfl
  | kernel c eip cs eflags =>
    show some (Core.mk e c.ebx c.ecx c.edx c.esi c.edi c.ebp
      (c.esp - 4#32 - 4#32 - 4#32 - 4#32 + 4#32) _) = _
    rw [BitVec.sub_add_cancel]
    rfl

/-- What entry point a vector may have: one that pops an error code if the processor pushes
one, and says the vector's number. -/
def stubFits (v : Nat) : Stub → Bool
  | .default | .div0 | .irq1 => !pushesError v
  | .isr n => n == v && decide (n ∈ isrErrs) == pushesError v
  | .gpf | .pagefault => pushesError v
  | .irq n => n + 32 == v && !pushesError v
  | .irq0 => v == 32
  | .syscall => v == 0x30

theorem vectorStub_fits : ∀ v, v < idtSize → stubFits v (vectorStub v) = true := by
  decide +kernel

section

variable {F : Handlers} {back : U32} {v : Nat} {x : Interrupted}

/-- A stub up to its call. -/
def ReachesCall (F : Handlers) (back : U32) (err : Option U32) (x : Interrupted) (s : Stub)
    (args : List U32) : Prop :=
  ∃ c, Called ((x.popped err).entered none) c args ∧
    execAll F back s.code (x.entered err, []) =
      execAll F back (.call s.handler :: cleanup s.handler.args s.eoi) (c, [])

/-- `pop eax` at the start of a stub. -/
theorem exec_popEax (e : U32) (is : List Instr) :
    execAll F back (.pop .eax :: is) (x.entered (some e), []) =
      execAll F back is ((x.popped (some e)).entered none, []) := by
  show (((x.entered (some e)).pop .eax).map fun c => (c, [])).bind _ = _
  rw [pop_error]
  rfl

theorem reaches_plain {s : Stub} (hs : s = .default ∨ s = .div0 ∨ s = .irq1) :
    ReachesCall F back none x s [] := by
  rcases hs with rfl | rfl | rfl
  · exact ⟨_, called_nil _, rfl⟩
  · exact ⟨_, called_nil _, rfl⟩
  · exact ⟨_, called_nil _, rfl⟩

theorem reaches_isr {n : Nat} {err : Option U32} (hn : decide (n ∈ isrErrs) = err.isSome) :
    ReachesCall F back err x (.isr n) [BitVec.ofNat 32 n] := by
  cases err with
  | none =>
    have hcode : (Stub.isr n).code = isrNoErr (BitVec.ofNat 32 n) :=
      if_neg (of_decide_eq_false hn)
    unfold ReachesCall
    rw [hcode]
    exact ⟨_, called_one _ _, rfl⟩
  | some e =>
    have hcode : (Stub.isr n).code = isrErr (BitVec.ofNat 32 n) := if_pos (of_decide_eq_true hn)
    unfold ReachesCall
    rw [hcode]
    exact ⟨_, called_one _ _, exec_popEax e _⟩

theorem reaches_irq {n : Nat} (hv : n + 32 = v) :
    ReachesCall F back none x (.irq n) [BitVec.ofNat 32 v] := by
  have hcode : (Stub.irq n).code = [.pusha, .pushImm (BitVec.ofNat 32 v), .call .numbered,
      .addEsp 1, .movAl 0x20#8, .out 0x20#16, .popa] := by
    rw [← hv, Nat.add_comm, BitVec.ofNat_add]
    rfl
  unfold ReachesCall
  rw [hcode]
  exact ⟨_, called_one _ _, rfl⟩

theorem reaches_gpf (e : U32) : ReachesCall F back (some e) x .gpf [e] := by
  refine ⟨_, called_one _ e, (exec_popEax e _).trans ?_⟩
  cases x with
  | user => rfl
  | kernel => rfl

/-- The page fault's stub finds EIP above the eight words of `pusha`. -/
theorem reaches_pagefault (e : U32) : ReachesCall F back (some e) x .pagefault [e, x.eip] := by
  refine ⟨((((x.popped (some e)).entered none).pusha.set .ebx x.eip).push x.eip).push e, ⟨?_, rfl⟩,
    (exec_popEax e _).trans ?_⟩
  · show ((x.popped (some e)).entered none).pusha.esp - 4#32 - 4#32 =
      ((x.popped (some e)).entered none).pusha.esp - 8#32
    bv_omega
  · cases x with
    | user => rfl
    | kernel => rfl

/-- From the call to the `iret`. -/
theorem ReachesCall.returns {err : Option U32} {s : Stub} {args : List U32}
    (h : ReachesCall F back err x s args) (hF : F.Cdecl) (hsw : s.handler ≠ .doSwitch)
    (hsys : s.handler ≠ .syscall) (hlen : args.length = s.handler.args) (hx : x.Valid) :
    ∃ c, c.stack = back :: (args ++ ((x.popped err).entered none).pusha.stack) ∧
      ((execAll F back s.code (x.entered err, [])).bind fun s => s.1.iretAny.map fun x => (x, s.2)) =
        (F s.handler c).map fun _ => (x.popped err, eoiWrites s.eoi) := by
  obtain ⟨c, hcalled, hexec⟩ := h
  refine ⟨c.push back, congrArg (back :: ·) hcalled.stack, ?_⟩
  rw [hexec, exec_call hF hsw hsys hcalled hlen]
  cases F s.handler (c.push back) with
  | none => rfl
  | some c' =>
    show (((x.popped err).entered none).iretAny.map _) = _
    rw [iretAny_entered (hx.popped err)]
    rfl

theorem none_of_pushesError {err : Option U32} (herr : err.isSome = pushesError v)
    (hp : pushesError v = false) : err = none := by
  rw [hp] at herr
  exact Option.not_isSome_iff_eq_none.mp (by rw [herr]; exact Bool.false_ne_true)

/-- **Every entry point but two.** For each vector other than the timer's and the system
call's, in either ring, with the error code the processor pushes for it or none, and any
compilation of the C functions: the function of the vector is called with its arguments on
top of the eight registers, and if it comes back the interrupted code goes on as it was,
EAX replaced by the error code where there is one, and the controller told where a line can
have raised it. -/
theorem interrupt_returns {err : Option U32} (hF : F.Cdecl) (hv : v < idtSize) (h32 : v ≠ 32)
    (h48 : v ≠ 0x30) (hx : x.Valid) (herr : err.isSome = pushesError v) :
    ∃ c, c.stack = back :: (callArgs v (err.getD 0#32) x.eip ++
        ((x.popped err).entered none).pusha.stack) ∧
      interrupt F back v err x = (F (vectorStub v).handler c).map fun _ =>
        (x.popped err, eoiWrites (vectorStub v).eoi) := by
  have hfits := vectorStub_fits v hv
  unfold interrupt callArgs
  cases hs : vectorStub v with
  | irq0 =>
    rw [hs] at hfits
    exact absurd (eq_of_beq hfits) h32
  | syscall =>
    rw [hs] at hfits
    exact absurd (eq_of_beq hfits) h48
  | isr n =>
    rw [hs] at hfits
    obtain ⟨hn, hp⟩ := Bool.and_eq_true_iff.mp hfits
    obtain rfl := eq_of_beq hn
    have hpop : decide (n ∈ isrErrs) = err.isSome := (eq_of_beq hp).trans herr.symm
    exact (reaches_isr hpop).returns hF nofun nofun rfl hx
  | irq n =>
    rw [hs] at hfits
    obtain ⟨hn, hp⟩ := Bool.and_eq_true_iff.mp hfits
    obtain rfl := none_of_pushesError herr (Bool.not_eq_true' _ ▸ hp)
    exact (reaches_irq (eq_of_beq hn)).returns hF nofun nofun rfl hx
  | gpf =>
    rw [hs] at hfits
    obtain ⟨e, rfl⟩ := Option.isSome_iff_exists.mp (herr.trans hfits)
    exact (reaches_gpf e).returns hF nofun nofun rfl hx
  | pagefault =>
    rw [hs] at hfits
    obtain ⟨e, rfl⟩ := Option.isSome_iff_exists.mp (herr.trans hfits)
    exact (reaches_pagefault e).returns hF nofun nofun rfl hx
  | default =>
    rw [hs] at hfits
    obtain rfl := none_of_pushesError herr (Bool.not_eq_true' _ ▸ hfits)
    exact (reaches_plain (.inl rfl)).returns hF nofun nofun rfl hx
  | div0 =>
    rw [hs] at hfits
    obtain rfl := none_of_pushesError herr (Bool.not_eq_true' _ ▸ hfits)
    exact (reaches_plain (.inr (.inl rfl))).returns hF nofun nofun rfl hx
  | irq1 =>
    rw [hs] at hfits
    obtain rfl := none_of_pushesError herr (Bool.not_eq_true' _ ▸ hfits)
    exact (reaches_plain (.inr (.inr rfl))).returns hF nofun nofun rfl hx

end

/-- The keyboard's and the default function come back, with nothing of the caller's
registers changed but those cdecl lets them; the others print and stop. -/
def quietHandlers : Handlers := fun f c =>
  if (f = .keyboard ∨ f = .default) ∧ c.stack ≠ [] then
    some { c.drop 1 with eax := 0#32, ecx := 0#32, edx := 0#32 }
  else none

theorem quietHandlers_cdecl : quietHandlers.Cdecl := by
  intro f c c' _ _ h
  unfold quietHandlers at h
  split at h
  next hf =>
    cases h
    have hargs : f.args = 0 := by
      rcases hf.1 with rfl | rfl
      · rfl
      · rfl
    rw [hargs]
    exact ⟨rfl, rfl, rfl, rfl, rfl, [], rfl, rfl⟩
  next => cases h

/-- A key while the kernel waits for it in `kb_getchar`. -/
theorem interrupt_returns_key : ∃ c eip eflags,
    interrupt quietHandlers 0#32 33 none (.kernel c eip 0x08#32 eflags) =
      some (.kernel c eip 0x08#32 eflags, [(0x20#16, 0x20#8)]) := by
  obtain ⟨c, hstack, hint⟩ := @interrupt_returns quietHandlers 0#32 33
    (.kernel ⟨7, 0, 0, 0, 0, 0, 0, 0x31FFC0, [0, 0]⟩ 0x100400#32 0x08#32 0x202#32) none
    quietHandlers_cdecl (by decide) (by decide) (by decide) rfl rfl
  refine ⟨_, _, _, hint.trans ?_⟩
  have hf : quietHandlers .keyboard c =
      some { c.drop 1 with eax := 0#32, ecx := 0#32, edx := 0#32 } :=
    if_pos ⟨.inl rfl, by rw [hstack]; exact List.cons_ne_nil _ _⟩
  show (quietHandlers .keyboard c).map _ = _
  rw [hf]
  rfl


/-! ## The timer -/

/-- The words at `ctx`, the lowest first. -/
def ctxWords (ctx : Ctx) : List U32 :=
  [ctx 0, ctx 1, ctx 2, ctx 3, ctx 4, ctx 5, ctx 6, ctx 7, ctx 8, ctx 9, ctx 10, ctx 11, ctx 12]

/-- The five words of the processor and the eight of `pusha`. -/
theorem entered_user_words (r : Regs) (esp0 : U32) (base : List U32) :
    ((Interrupted.user r esp0 base).entered none).pusha.stack =
      ctxWords (r.pushed esp0) ++ base := by
  have hesp : esp0 - 4#32 - 4#32 - 4#32 - 4#32 - 4#32 = esp0 - 20#32 := by bv_omega
  show r.edi :: r.esi :: r.ebp :: (esp0 - 4#32 - 4#32 - 4#32 - 4#32 - 4#32) :: _ = _
  rw [hesp]
  rfl

/-- A compilation of `do_switch`: called with a pointer to 13 words of the stack, it leaves
there what the model's `doSwitch` makes of them. -/
def Switches (l : Link) (k : Kernel) (cr3 : U32) (mem : Mem) (f : Core → Option Core) : Prop :=
  ∀ c c' back ctx base, f c = some c' →
    c.stack = back :: (c.esp + 8#32) :: (ctxWords ctx ++ base) →
    ∃ s arg, doSwitch l k cr3 mem ctx = .ok s ∧ c'.esp = c.esp + 4#32 ∧
      c'.stack = arg :: (ctxWords s.ctx ++ base)

/-- `popa` and `iret` on a frame of ring 3. -/
theorem popa_user {c : Core} {ctx : Ctx} {base : List U32} (hstack : c.stack = ctxWords ctx ++ base)
    (hcs : rpl (ctx 9) ≠ 0#32) :
    (c.popa.bind Core.iretAny) = some (.user (Regs.popped ctx) (c.esp + 52#32) base) := by
  unfold Core.popa
  rw [hstack]
  refine (if_neg hcs).trans ?_
  show some (Interrupted.user (Regs.popped ctx) (c.esp + 32#32 + 20#32) base) = _
  rw [BitVec.add_assoc]
  rfl

/-- What is left of the stub behind the call. -/
theorem exec_irq0_rest (F : Handlers) (back : U32) (c : Core) (w : List PortWrite) :
    execAll F back [.addEsp 1, .movAl 0x20#8, .out 0x20#16, .popa] (c, w) =
      ((c.drop 1).setAl 0x20#8).popa.map fun c => (c, w ++ [(0x20#16, 0x20#8)]) := by
  show (((c.drop 1).setAl 0x20#8).popa.map fun c => (c, w ++ [(0x20#16, _)])).bind _ = _
  rw [setAl_low]
  cases ((c.drop 1).setAl 0x20#8).popa with
  | none => rfl
  | some c => rfl

section

variable {F : Handlers} {back : U32} {l : Link} {k : Kernel} {cr3 : U32} {mem : Mem}

/-- The stub around `do_switch`, entered over `ctx`. -/
theorem irq0_runs (hF : Switches l k cr3 mem (F .doSwitch)) {x : Interrupted} {ctx : Ctx}
    {base : List U32} {x' : Interrupted} {w : List PortWrite}
    (hctx : (x.entered none).pusha.stack = ctxWords ctx ++ base)
    (h : interrupt F back 32 none x = some (x', w)) :
    ∃ s, ∃ c : Core, doSwitch l k cr3 mem ctx = .ok s ∧ c.stack = ctxWords s.ctx ++ base ∧
      c.esp = (x.entered none).pusha.esp ∧ c.popa.bind Core.iretAny = some x' ∧
      w = [(0x20#16, 0x20#8)] := by
  obtain ⟨⟨c2, w2⟩, hexec, hiret⟩ := Option.bind_eq_some_iff.mp h
  have hcall : ((F .doSwitch (((x.entered none).pusha.push (x.entered none).pusha.esp).push
      back)).map fun c => (c, ([] : List PortWrite))).bind (execAll F back
        [.addEsp 1, .movAl 0x20#8, .out 0x20#16, .popa]) = some (c2, w2) := hexec
  obtain ⟨⟨c1, w1⟩, hf, hrest⟩ := Option.bind_eq_some_iff.mp hcall
  obtain ⟨c', hf', heq⟩ := Option.map_eq_some_iff.mp hf
  cases heq
  -- the argument is the address of the frame
  have hptr : (((x.entered none).pusha.push (x.entered none).pusha.esp).push back).stack =
      back :: ((((x.entered none).pusha.push (x.entered none).pusha.esp).push back).esp + 8#32) ::
        (ctxWords ctx ++ base) := by
    have haddr : (x.entered none).pusha.esp - 4#32 - 4#32 + 8#32 = (x.entered none).pusha.esp := by
      bv_omega
    show back :: (x.entered none).pusha.esp :: (x.entered none).pusha.stack =
      back :: ((x.entered none).pusha.esp - 4#32 - 4#32 + 8#32) :: _
    rw [haddr, hctx]
  obtain ⟨s, arg, hs, hesp, hstack⟩ := hF _ _ _ _ _ hf' hptr
  rw [exec_irq0_rest] at hrest
  obtain ⟨c3, hpopa, heq⟩ := Option.map_eq_some_iff.mp hrest
  cases heq
  obtain ⟨x1, hx1, heq⟩ := Option.map_eq_some_iff.mp hiret
  cases heq
  refine ⟨s, _, hs, ?_, ?_, Option.bind_eq_some_iff.mpr ⟨c2, hpopa, hx1⟩, rfl⟩
  · show c1.stack.drop 1 = _
    rw [hstack]
    rfl
  · show c1.esp + 4#32 = _
    rw [hesp]
    show (x.entered none).pusha.esp - 4#32 - 4#32 + 4#32 + 4#32 = _
    bv_omega

end

/-- The stub comes back when `do_switch` does. -/
theorem irq0_completes {F : Handlers} {back arg : U32} {x : Interrupted} {ctx : Ctx}
    {base : List U32} {c' : Core} (hcall : F .doSwitch (((x.entered none).pusha.push
      (x.entered none).pusha.esp).push back) = some c')
    (hstack : c'.stack = arg :: (ctxWords ctx ++ base)) (hcs : rpl (ctx 9) ≠ 0#32) :
    ∃ x' w, interrupt F back 32 none x = some (x', w) := by
  have hexec : execAll F back (vectorStub 32).code (x.entered none, []) =
      ((c'.drop 1).setAl 0x20#8).popa.map fun c => (c, [(0x20#16, 0x20#8)]) := by
    show ((F .doSwitch _).map fun c => (c, ([] : List PortWrite))).bind _ = _
    rw [hcall]
    exact exec_irq0_rest F back c' []
  have hdrop : ((c'.drop 1).setAl 0x20#8).stack = ctxWords ctx ++ base := by
    show c'.stack.drop 1 = _
    rw [hstack]
    rfl
  have hpop := popa_user hdrop hcs
  obtain ⟨c2, hc2, hiret⟩ := Option.bind_eq_some_iff.mp hpop
  unfold interrupt
  rw [hexec, hc2, Option.map_some, Option.bind_some, hiret]
  exact ⟨_, _, rfl⟩

/-- The system call's stub is the two halves of `Process.CallRegs` around its function. -/
theorem exec_syscall (F : Handlers) (back : U32) (c : Core) :
    (execAll F back Stub.syscall.code (c, [])).bind (fun s => s.1.iret) =
      (F .syscall (idtSyscallEnter back c)).bind idtSyscallLeave := by
  show (((F .syscall (idtSyscallEnter back c)).map fun c => (c, ([] : List PortWrite))).bind
    (execAll F back [.addEsp 5])).bind _ = _
  cases F .syscall (idtSyscallEnter back c) with
  | none => rfl
  | some c => rfl

/-- `do_switch` itself, on the words of the stack. -/
def switchCode (l : Link) (k : Kernel) (cr3 : U32) (mem : Mem) (c : Core) : Option Core :=
  match doSwitch l k cr3 mem fun i => c.stack.getD (i.val + 2) 0#32 with
  | .ok s => some { c with
      esp := c.esp + 4#32
      stack := c.stack.getD 1 0#32 :: (ctxWords s.ctx ++ c.stack.drop 15) }
  | .error _ => none

theorem switchCode_eq {l : Link} {k : Kernel} {cr3 : U32} {mem : Mem} {c : Core} {back ptr : U32}
    {ctx : Ctx} {base : List U32} (h : c.stack = back :: ptr :: (ctxWords ctx ++ base)) :
    switchCode l k cr3 mem c = match doSwitch l k cr3 mem ctx with
      | .ok s => some { c with esp := c.esp + 4#32, stack := ptr :: (ctxWords s.ctx ++ base) }
      | .error _ => none := by
  have hctx : (fun i : Fin 13 => c.stack.getD (i.val + 2) 0#32) = ctx := by
    funext i
    rw [h]
    fin_cases i <;> rfl
  unfold switchCode
  rw [hctx, h]
  rfl

theorem switchCode_switches (l : Link) (k : Kernel) (cr3 : U32) (mem : Mem) :
    Switches l k cr3 mem (switchCode l k cr3 mem) := by
  intro c c' back ctx base h hstack
  rw [switchCode_eq hstack] at h
  split at h
  next s hs =>
    cases h
    exact ⟨s, _, hs, rfl, rfl⟩
  next => cases h

end PepinOS
