import PepinOS.Process.Scheduler

/-!
# User registers and the frames they travel in

`arch/idt_asm.asm`. An interrupt taken in ring 3 pushes SS, ESP, EFLAGS, CS and
EIP on the kernel stack of the task. `_idt_irq0` adds the eight registers of
`pusha`, which gives the 13 words `do_switch` works on; `_idt_syscall` adds EDX,
ECX, EBX and EAX, which gives the nine words of `frame`. Both stubs end in
`iret`.
-/

namespace PepinOS

/-- The registers of a program in ring 3. -/
structure Regs where
  edi : U32
  esi : U32
  ebp : U32
  ebx : U32
  edx : U32
  ecx : U32
  eax : U32
  eip : U32
  cs : U32
  eflags : U32
  esp : U32
  ss : U32

/-- The frame under `_idt_irq0`, the kernel stack having been at `esp0`. Word 3 is
the ESP `pusha` stores: below the five words of the processor. -/
def Regs.pushed (r : Regs) (esp0 : U32) : Ctx := fun i =>
  match i with
  | 0 => r.edi
  | 1 => r.esi
  | 2 => r.ebp
  | 3 => esp0 - 20#32
  | 4 => r.ebx
  | 5 => r.edx
  | 6 => r.ecx
  | 7 => r.eax
  | 8 => r.eip
  | 9 => r.cs
  | 10 => r.eflags
  | 11 => r.esp
  | 12 => r.ss

/-- `popa` and `iret`. `popa` skips word 3. -/
def Regs.popped (ctx : Ctx) : Regs where
  edi := ctx 0
  esi := ctx 1
  ebp := ctx 2
  ebx := ctx 4
  edx := ctx 5
  ecx := ctx 6
  eax := ctx 7
  eip := ctx 8
  cs := ctx 9
  eflags := ctx 10
  esp := ctx 11
  ss := ctx 12

/-- `frame` of `syscall_handler`. -/
structure Frame where
  eax : U32
  ebx : U32
  ecx : U32
  edx : U32
  eip : U32
  cs : U32
  eflags : U32
  esp : U32
  ss : U32

/-- What `int 0x30`, a two-byte instruction at EIP, and the pushes of `_idt_syscall` leave. -/
def Regs.frame (r : Regs) : Frame where
  eax := r.eax
  ebx := r.ebx
  ecx := r.ecx
  edx := r.edx
  eip := r.eip + 2#32
  cs := r.cs
  eflags := r.eflags
  esp := r.esp
  ss := r.ss

/-- `syscall_handler` is an ordinary cdecl function: EBX, ESI, EDI and EBP come back as
they were, ECX and EDX with what it left there. -/
def Regs.clobbered (r : Regs) (c : U32 × U32) : Regs := { r with ecx := c.1, edx := c.2 }

/-- `add esp, 20` and `iret`, the result of `syscall_handler` in EAX. The first four words
of the frame are dropped. -/
def Regs.resumed (r : Regs) (f : Frame) (res : U32) : Regs :=
  { r with
    eax := res
    eip := f.eip
    cs := f.cs
    eflags := f.eflags
    esp := f.esp
    ss := f.ss }

/-- The privilege level in a selector. -/
def rpl (cs : U32) : U32 := cs &&& 0x3#32

/-- EFLAGS.IF -/
def flagIF (fl : U32) : Bool := fl.getLsbD 9

/-- EFLAGS.IOPL -/
def iopl (fl : U32) : U32 := (fl >>> 12) &&& 0x3#32

/-- A code segment and flags of ring 3: CPL 3, interrupts on, no I/O privilege. -/
def UserMode (cs eflags : U32) : Prop := rpl cs = 3#32 ∧ flagIF eflags = true ∧ iopl eflags = 0#32

instance (cs eflags : U32) : Decidable (UserMode cs eflags) := inferInstanceAs (Decidable (_ ∧ _))

/-- Registers the processor allows in ring 3. -/
def Regs.User (r : Regs) : Prop := UserMode r.cs r.eflags

/-- The same of a saved context. -/
def UserCtx (ctx : Ctx) : Prop := UserMode (ctx 9) (ctx 10)

@[simp] theorem pushed_cs (r : Regs) (esp0 : U32) : r.pushed esp0 9 = r.cs := rfl

@[simp] theorem pushed_eflags (r : Regs) (esp0 : U32) : r.pushed esp0 10 = r.eflags := rfl

/-- An interrupt that pushes user registers comes from ring 3. -/
theorem pushed_ring3 {r : Regs} (hr : r.User) (esp0 : U32) : rpl (r.pushed esp0 9) ≠ 0#32 := by
  rw [pushed_cs, hr.1]
  decide

/-- `popa` and `iret` undo the interrupt. -/
theorem popped_pushed (r : Regs) (esp0 : U32) : Regs.popped (r.pushed esp0) = r := rfl

end PepinOS
