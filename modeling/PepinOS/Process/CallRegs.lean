import PepinOS.Process.Launched
import PepinOS.Process.WildStore

/-!
# The registers of a caller

`_idt_syscall`, instruction by instruction. The four registers it pushes are the
arguments of `syscall_handler` and nothing else: it never pops them. The handler is any
code that keeps to cdecl (`Cdecl`): it may leave anything in ECX and EDX and in the words
of its own arguments. What it does to the arguments is dropped with them; what it does to
ECX and EDX reaches the program.

`idtSyscall_refines` says that the stub around such a handler is what `Regs.clobbered` and
`Regs.resumed` make of the registers in the steps of the machine.
-/

namespace PepinOS

/-- The registers in ring 0, and the words of the kernel stack from ESP up. -/
structure Core where
  eax : U32
  ebx : U32
  ecx : U32
  edx : U32
  esi : U32
  edi : U32
  ebp : U32
  esp : U32
  stack : List U32

def Core.push (c : Core) (w : U32) : Core :=
  { c with esp := c.esp - 4#32, stack := w :: c.stack }

/-- `add esp, 4 * n`. -/
def Core.drop (c : Core) (n : Nat) : Core :=
  { c with esp := c.esp + BitVec.ofNat 32 (4 * n), stack := c.stack.drop n }

/-- `iret` to ring 3. -/
def Core.iret (c : Core) : Option Regs :=
  match c.stack with
  | eip :: cs :: eflags :: esp :: ss :: _ =>
    some ⟨c.edi, c.esi, c.ebp, c.ebx, c.edx, c.ecx, c.eax, eip, cs, eflags, esp, ss⟩
  | _ => none

/-- `int 0x30` in ring 3: the processor pushes five words on the kernel stack at `esp0`. -/
def Regs.int30 (r : Regs) (esp0 : U32) (base : List U32) : Core :=
  let c : Core := ⟨r.eax, r.ebx, r.ecx, r.edx, r.esi, r.edi, r.ebp, esp0, base⟩
  let c := c.push r.ss
  let c := c.push r.esp
  let c := c.push r.eflags
  let c := c.push r.cs
  c.push (r.eip + 2#32)

/-- `_idt_syscall` up to the first instruction of `syscall_handler`; `back` is the address
behind the call. `push esp` pushes ESP as it was. -/
def idtSyscallEnter (back : U32) (c : Core) : Core :=
  let c := c.push c.edx
  let c := c.push c.ecx
  let c := c.push c.ebx
  let c := c.push c.eax
  let c := c.push c.esp
  c.push back

/-- `_idt_syscall` behind the call: `add esp, 20` and `iret`. -/
def idtSyscallLeave (c : Core) : Option Regs := (c.drop 5).iret

/-- From `c`, its first instruction, to `c'`, behind its `ret`: a function of five
arguments that keeps to cdecl and returns `res`. -/
structure Cdecl (c c' : Core) (res : U32) : Prop where
  eax : c'.eax = res
  ebx : c'.ebx = c.ebx
  esi : c'.esi = c.esi
  edi : c'.edi = c.edi
  ebp : c'.ebp = c.ebp
  esp : c'.esp = c.esp + 4#32
  stack : ∃ args, args.length = 5 ∧ c'.stack = args ++ c.stack.drop 6

/-- What the wrappers of `user/` rely on: the registers are those of the call, the program
goes on behind `int 0x30`, and EAX is the result. -/
structure Regs.Preserved (r r' : Regs) (res : U32) : Prop where
  ebx : r'.ebx = r.ebx
  ecx : r'.ecx = r.ecx
  edx : r'.edx = r.edx
  esi : r'.esi = r.esi
  edi : r'.edi = r.edi
  ebp : r'.ebp = r.ebp
  esp : r'.esp = r.esp
  eip : r'.eip = r.eip + 2#32
  eflags : r'.eflags = r.eflags
  eax : r'.eax = res

/-- The stub around any cdecl function: the argument words are dropped, whatever they hold
now, and `iret` takes the five words above them. -/
theorem idtSyscall_refines {r : Regs} {esp0 back res : U32} {base : List U32} {c : Core}
    (hc : Cdecl (idtSyscallEnter back (r.int30 esp0 base)) c res) :
    idtSyscallLeave c = some ((r.clobbered (c.ecx, c.edx)).resumed r.frame res) := by
  obtain ⟨args, hlen, hstack⟩ := hc.stack
  have hrest : (c.drop 5).stack = (r.eip + 2#32) :: r.cs :: r.eflags :: r.esp :: r.ss :: base := by
    show c.stack.drop 5 = _
    rw [hstack, ← hlen, List.drop_left]
    rfl
  unfold idtSyscallLeave Core.iret
  rw [hrest]
  show some (Regs.mk c.edi c.esi c.ebp c.ebx c.edx c.ecx c.eax _ _ _ _ _) = _
  rw [hc.edi, hc.esi, hc.ebp, hc.ebx, hc.eax]
  rfl

/-! ## The frame comes back -/

section

variable {env : Env} {cr3 : U32} {s : Calling} {f : Frame} {c : Returned}

theorem callPrint_frame (h : callPrint env cr3 s f = .ok (.returns c)) : c.frame = f := by
  obtain ⟨text, _, h⟩ := bind_ok h
  cases text with
  | none => cases h
  | some text =>
    cases h
    rfl

theorem callOpen_frame (h : callOpen env cr3 s f = .ok c) : c.frame = f := by
  obtain ⟨found, _, h⟩ := bind_ok h
  obtain ⟨pool, ext2, node⟩ := found
  cases node with
  | none =>
    cases h
    rfl
  | some n =>
    simp only at h
    split at h
    next => cases h
    next =>
      split at h
      next =>
        cases h
        rfl
      next =>
        cases h
        rfl

theorem callClose_frame (h : callClose s f = .ok c) : c.frame = f := by
  unfold callClose at h
  split at h
  next =>
    cases h
    rfl
  next =>
    split at h
    next => cases h
    next =>
      rcases ite_cases h with ⟨_, h⟩ | ⟨_, h⟩
      · cases h
        rfl
      · cases h
        rfl

theorem callRead_frame (h : callRead env cr3 s f = .ok c) : c.frame = f := by
  unfold callRead at h
  split at h
  next =>
    cases h
    rfl
  next =>
    split at h
    next => cases h
    next =>
      rcases ite_cases h with ⟨_, h⟩ | ⟨_, h⟩
      · cases h
        rfl
      · obtain ⟨read, _, h⟩ := bind_ok h
        cases h
        rfl

theorem callLs_frame (h : callLs env s f = .ok c) : c.frame = f := by
  obtain ⟨names, _, h⟩ := bind_ok h
  cases h
  rfl

theorem callSigaction_frame (s : Calling) (f : Frame) : (callSigaction s f).frame = f := by
  unfold callSigaction
  split
  next => rfl
  next => rfl

theorem callKill_frame (s : Calling) (f : Frame) : (callKill s f).frame = f := by
  unfold callKill
  split
  next => rfl
  next => rfl

/-- Only `SYS_SIGRETURN` writes to the frame. -/
theorem syscallHandler_frame (hnum : f.eax ≠ sysSigreturn)
    (h : syscallHandler env cr3 s f = .ok (.returns c)) : c.frame = f := by
  unfold syscallHandler at h
  rcases ite_cases h with ⟨_, h⟩ | ⟨_, h⟩
  · exact callPrint_frame h
  rcases ite_cases h with ⟨_, h⟩ | ⟨_, h⟩
  · cases h
  rcases ite_cases h with ⟨_, h⟩ | ⟨_, h⟩
  · cases h
    rfl
  rcases ite_cases h with ⟨_, h⟩ | ⟨_, h⟩
  · obtain ⟨c', hcall, h⟩ := bind_ok h
    cases h
    exact callOpen_frame hcall
  rcases ite_cases h with ⟨_, h⟩ | ⟨_, h⟩
  · obtain ⟨c', hcall, h⟩ := bind_ok h
    cases h
    exact callClose_frame hcall
  rcases ite_cases h with ⟨_, h⟩ | ⟨_, h⟩
  · obtain ⟨c', hcall, h⟩ := bind_ok h
    cases h
    exact callRead_frame hcall
  rcases ite_cases h with ⟨_, h⟩ | ⟨_, h⟩
  · cases h
    rfl
  rcases ite_cases h with ⟨_, h⟩ | ⟨_, h⟩
  · obtain ⟨c', hcall, h⟩ := bind_ok h
    cases h
    exact callLs_frame hcall
  rcases ite_cases h with ⟨_, h⟩ | ⟨_, h⟩
  · cases h
    exact callSigaction_frame s f
  rcases ite_cases h with ⟨_, h⟩ | ⟨_, h⟩
  · cases h
    exact callKill_frame s f
  rcases ite_cases h with ⟨he, _⟩ | ⟨_, h⟩
  · exact absurd he hnum
  · cases h
    rfl

end

/-- **When a call gives the registers back.** For every call but `SYS_SIGRETURN` that
returns, with any arguments, and any compilation of `syscall_handler` that keeps to cdecl
and returns what the call returns: the program goes on with its registers, and the result
in EAX, exactly if that code leaves ECX and EDX as the program had them. -/
theorem syscall_preserves_iff {env : Env} {cr3 esp0 back : U32} {base : List U32} {s : Calling}
    {r : Regs} {c : Returned} {k : Core} (hnum : r.eax ≠ sysSigreturn)
    (hcall : syscallHandler env cr3 s r.frame = .ok (.returns c))
    (hk : Cdecl (idtSyscallEnter back (r.int30 esp0 base)) k c.res) :
    ∃ r', idtSyscallLeave k = some r' ∧ r' = (r.clobbered (k.ecx, k.edx)).resumed c.frame c.res ∧
      (r.Preserved r' c.res ↔ k.ecx = r.ecx ∧ k.edx = r.edx) := by
  have hframe : c.frame = r.frame := syscallHandler_frame hnum hcall
  refine ⟨_, idtSyscall_refines hk, by rw [hframe], ?_⟩
  constructor
  · intro hp
    exact ⟨hp.ecx, hp.edx⟩
  · intro hsame
    exact ⟨rfl, hsame.1, hsame.2, rfl, rfl, rfl, rfl, rfl, rfl, rfl⟩

/-- A handler that leaves `ecx` and `edx`, and everything else as cdecl asks. -/
def cdeclReturn (c : Core) (res ecx edx : U32) : Core :=
  { c.drop 1 with eax := res, ecx := ecx, edx := edx }

theorem cdeclReturn_cdecl (back esp0 : U32) (base : List U32) (r : Regs) (res ecx edx : U32) :
    Cdecl (idtSyscallEnter back (r.int30 esp0 base))
      (cdeclReturn (idtSyscallEnter back (r.int30 esp0 base)) res ecx edx) res := by
  have hlen : (idtSyscallEnter back (r.int30 esp0 base)).stack.length = base.length + 11 := rfl
  generalize idtSyscallEnter back (r.int30 esp0 base) = c at hlen
  refine ⟨rfl, rfl, rfl, rfl, rfl, rfl, (c.stack.drop 1).take 5, ?_, ?_⟩
  · rw [List.length_take, List.length_drop, hlen]
    omega
  · show c.stack.drop 1 = _
    have hsplit : c.stack.drop 6 = (c.stack.drop 1).drop 5 := by rw [List.drop_drop]
    rw [hsplit, List.take_append_drop]

/-- A program that raises signal 2, a loop counter in ECX. -/
def countingRegs : Regs :=
  ⟨0, 0, 0, 2#32, 0, 5#32, sysKill, 0x40000000#32, 0x23#32, 0x202#32, 0x40100FF0#32, 0x33#32⟩

/-- `SYS_KILL`, from code that uses ECX, where the compiled shift has its count: the counter
is gone. -/
theorem kill_loses_ecx : ∃ env cr3 s c k r',
    syscallHandler env cr3 s countingRegs.frame = .ok (.returns c) ∧
    Cdecl (idtSyscallEnter 0x100200#32 (countingRegs.int30 0x320000#32 [])) k c.res ∧
    idtSyscallLeave k = some r' ∧ r'.ecx = 2#32 ∧ ¬countingRegs.Preserved r' c.res := by
  obtain ⟨m, _⟩ := demo_exists (ext2Unmounted 0#32)
  refine ⟨wildEnv fun _ _ => 0#8, 0#32, m.calling, _, _, _, syscallHandler_kill rfl,
    cdeclReturn_cdecl _ _ _ countingRegs _ 2#32 0#32, rfl, rfl, fun hp => ?_⟩
  have hecx : (2#32 : U32) = 5#32 := hp.ecx
  cases hecx

theorem syscall_preserves_kill : ∃ env cr3 s c k r',
    syscallHandler env cr3 s countingRegs.frame = .ok (.returns c) ∧
    idtSyscallLeave k = some r' ∧ countingRegs.Preserved r' c.res := by
  obtain ⟨m, _⟩ := demo_exists (ext2Unmounted 0#32)
  have hnum : countingRegs.eax ≠ sysSigreturn := by decide
  have hcall : syscallHandler (wildEnv fun _ _ => 0#8) 0#32 m.calling countingRegs.frame =
      .ok (.returns (callKill m.calling countingRegs.frame)) :=
    syscallHandler_kill rfl
  obtain ⟨r', hleave, _, hiff⟩ := syscall_preserves_iff hnum hcall
    (cdeclReturn_cdecl 0x100200#32 0x320000#32 [] countingRegs _
      countingRegs.ecx countingRegs.edx)
  exact ⟨_, _, _, _, _, r', hcall, hleave, hiff.mpr ⟨rfl, rfl⟩⟩

end PepinOS
