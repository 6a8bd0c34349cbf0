import PepinOS.Process.Switch

/-!
# The system calls

`process/syscall.c`: `syscall_handler`, one call at a time, for the running task.
The arguments are the words the stub has pushed, which are also the first four
words of `frame`. A call returns with the value for EAX and the frame that `iret`
will load from, or it never does: `SYS_EXIT` loops for ever with interrupts on.

One lemma per call that touches a task or the node pool says what it can do on the
guarded machine; the other calls are together in `syscall_quiet`.
-/

namespace PepinOS

def sysPrint : U32 := 0#32
def sysExit : U32 := 1#32
def sysSetcolor : U32 := 2#32
def sysOpen : U32 := 3#32
def sysClose : U32 := 4#32
def sysRead : U32 := 5#32
def sysGetchar : U32 := 6#32
def sysLs : U32 := 7#32
def sysSigaction : U32 := 8#32
def sysKill : U32 := 9#32
def sysSigreturn : U32 := 10#32

/-- -1 in EAX. -/
def minusOne : U32 := 0xFFFFFFFF#32

/-- What a call works on besides its arguments. -/
structure Calling where
  kern : Kernel
  ext2 : Ext2
  mem : Mem

/-- A call that returns: what it left, the frame `iret` loads from, the value for EAX. -/
structure Returned where
  state : Calling
  frame : Frame
  res : U32
  ev : Event

/-- How a call ends. -/
inductive Handled where
  | returns (r : Returned)
  | spins (s : Calling)

/-- Bytes of a text of the kernel. -/
def textBytes (s : String) : List U8 := s.toList.map fun c => BitVec.ofNat 8 c.toNat

def Kernel.printed (k : Kernel) (attr : U8) (text : List U8) : Kernel :=
  { k with screen := print text (setAttr attr k.screen) }

/-- The bytes the call reads through a user pointer. -/
def Calling.fetch (env : Env) (cr3 : U32) (s : Calling) (e : Ext2) (va : U32) : Except Trap U8 :=
  userLoad env.link cr3 s.kern s.mem e va

/-- A descriptor argument: an `int` with `fd >= 3 && fd < MAX_FD`. -/
def fdArg (ebx : U32) : Option (Fin 8) :=
  if h : 3 ≤ ebx.toNat ∧ ebx.toNat < 8 then some ⟨ebx.toNat, h.2⟩ else none

/-- A signal argument: an `int` with `sig > 0 && sig < NSIG`. -/
def sigArg (ebx : U32) : Option (Fin 32) :=
  if h : 0 < ebx.toNat ∧ ebx.toNat < 32 then some ⟨ebx.toNat, h.2⟩ else none

/-- `t->files[fd] = d`. -/
def Task.setFd (t : Task) (fd : Fin 8) (d : Fd) : Task :=
  { t with files := Function.update t.files fd d }

def Calling.setTask (s : Calling) (i : Fin 8) (t : Task) : Calling :=
  { s with kern := s.kern.setTask i t }

/-- The first free descriptor from 3 on. -/
def freeFd (files : Fin 8 → Fd) : Option (Fin 8) :=
  ((List.finRange 8).drop 3).find? fun fd => !(files fd).used

def closedFd : Fd := { node := none, offset := 0#32, used := false }

/-! ## The calls -/

/-- `SYS_PRINT`. A string without a NUL is printed for ever. It is read up to the NUL before it is
printed; the source prints as it reads, which comes to the same unless the string lies in video
memory or over `kX`, `kY` and `kattr`. -/
def callPrint (env : Env) (cr3 : U32) (s : Calling) (f : Frame) : Except Trap Handled := do
  match ← cString (s.fetch env cr3 s.ext2) (2 ^ 32) f.ebx with
  | none => return .spins s
  | some text => return .returns ⟨{ s with kern := s.kern.printed 0x0F#8 text }, f, 0#32, .quiet⟩

def callExit (s : Calling) : Handled :=
  .spins { s with kern := s.kern.printed 0x0C#8 (textBytes "\n[kernel] tarea terminada.\n") }

def callSetcolor (s : Calling) (f : Frame) : Returned :=
  ⟨{ s with kern := { s.kern with screen := setAttr (f.ebx.setWidth 8) s.kern.screen } }, f, 0#32,
    .quiet⟩

/-- `SYS_OPEN`. The node is taken from the pool first, and given back when the task
has no free descriptor. -/
def callOpen (env : Env) (cr3 : U32) (s : Calling) (f : Frame) : Except Trap Returned := do
  let (pool, ext2, node) ← vfsOpen env.disk (env.link.behind s.kern) (s.fetch env cr3)
    s.kern.nodePool s.ext2 f.ebx
  let s := { s with kern := { s.kern with nodePool := pool }, ext2 := ext2 }
  match node with
  | none => return ⟨s, f, minusOne, .quiet⟩
  | some n =>
    match s.kern.sched.cur with
    | none => throw .untracked
    | some i =>
      let t := s.kern.task i
      match freeFd t.files with
      | none =>
        return ⟨{ s with kern := { s.kern with nodePool := vfsClose pool (some n) } }, f, minusOne,
          .quiet⟩
      | some fd =>
        let d : Fd := { node := some n, offset := 0#32, used := true }
        return ⟨s.setTask i (t.setFd fd d), f, BitVec.ofNat 32 fd.val,
          .opened i fd (pool n).inode⟩

/-- `SYS_CLOSE`. -/
def callClose (s : Calling) (f : Frame) : Except Trap Returned :=
  match fdArg f.ebx with
  | none => return ⟨s, f, minusOne, .quiet⟩
  | some fd =>
    match s.kern.sched.cur with
    | none => throw .untracked
    | some i =>
      let t := s.kern.task i
      if (t.files fd).used = false then return ⟨s, f, minusOne, .quiet⟩
      else
        let pool := vfsClose s.kern.nodePool (t.files fd).node
        let s := { s with kern := { s.kern with nodePool := pool } }
        return ⟨s.setTask i (t.setFd fd closedFd), f, 0#32, .closed i fd⟩

/-- `SYS_READ`. The offset is advanced in the descriptor as it stands after the copy. -/
def callRead (env : Env) (cr3 : U32) (s : Calling) (f : Frame) : Except Trap Returned :=
  match fdArg f.ebx with
  | none => return ⟨s, f, minusOne, .quiet⟩
  | some fd =>
    match s.kern.sched.cur with
    | none => throw .untracked
    | some i => do
      let d := (s.kern.task i).files fd
      if d.used = false then return ⟨s, f, minusOne, .quiet⟩
      let (ext2, c) ← vfsRead env.disk (userStore env.link cr3) s.kern.nodePool s.ext2
        (s.kern, s.mem) d.node d.offset f.edx f.ecx
      let n := BitVec.ofNat 32 c.bytes.length
      let s : Calling := ⟨c.port.1, ext2, c.port.2⟩
      let t := s.kern.task i
      let d := t.files fd
      return ⟨s.setTask i (t.setFd fd { d with offset := d.offset + n }), f, n,
        .read i fd f.edx c.bytes⟩

def callGetchar (s : Calling) (f : Frame) : Returned :=
  let (kb, c) := kbGetchar s.kern.keyboard
  ⟨{ s with kern := { s.kern with keyboard := kb } }, f, c.setWidth 32, .quiet⟩

/-- `SYS_LS`: each name indented and on a line, up to the NUL it may contain. The walk is over
before the first name is printed, which comes to the same unless it runs out of its buffer and
over `kX`, `kY` and `kattr`. -/
def callLs (env : Env) (s : Calling) (f : Frame) : Except Trap Returned := do
  let (ext2, names) ← ext2Ls env.disk (env.link.behind s.kern) s.ext2 ext2RootInode
  let line := fun name => textBytes "    " ++ name.takeWhile (· != 0#8) ++ textBytes "\n"
  return ⟨{ s with kern := s.kern.printed 0x0E#8 (names.flatMap line), ext2 := ext2 }, f, 0#32,
    .quiet⟩

def callSigaction (s : Calling) (f : Frame) : Returned :=
  match s.kern.sched.cur, sigArg f.ebx with
  | some i, some sig =>
    let t := s.kern.task i
    ⟨s.setTask i { t with sigHandlers := Function.update t.sigHandlers sig f.ecx }, f, 0#32, .quiet⟩
  | _, _ => ⟨s, f, minusOne, .quiet⟩

def callKill (s : Calling) (f : Frame) : Returned :=
  match s.kern.sched.cur, sigArg f.ebx with
  | some i, some sig =>
    let t := s.kern.task i
    ⟨s.setTask i { t with sigPending := t.sigPending ||| (1#32 <<< sig.val) }, f, 0#32,
      .raised i sig⟩
  | _, _ => ⟨s, f, minusOne, .quiet⟩

/-- The frame `SYS_SIGRETURN` writes. Its first four words are the arguments, which
the stub discards. -/
def savedFrame (saved : Ctx) : Frame where
  eax := saved 7
  ebx := saved 4
  ecx := saved 6
  edx := saved 5
  eip := saved 8
  cs := saved 9
  eflags := saved 10
  esp := saved 11
  ss := saved 12

def callSigreturn (s : Calling) (f : Frame) : Returned :=
  match s.kern.sched.cur with
  | none => ⟨s, f, minusOne, .quiet⟩
  | some i =>
    let t := s.kern.task i
    if t.sigInHandler = false then ⟨s, f, minusOne, .quiet⟩
    else
      ⟨s.setTask i { t with sigInHandler := false }, savedFrame t.sigSavedRegs, 0#32, .returned i⟩

/-- `syscall_handler`. -/
def syscallHandler (env : Env) (cr3 : U32) (s : Calling) (f : Frame) : Except Trap Handled := do
  if f.eax = sysPrint then callPrint env cr3 s f
  else if f.eax = sysExit then return callExit s
  else if f.eax = sysSetcolor then return .returns (callSetcolor s f)
  else if f.eax = sysOpen then return .returns (← callOpen env cr3 s f)
  else if f.eax = sysClose then return .returns (← callClose s f)
  else if f.eax = sysRead then return .returns (← callRead env cr3 s f)
  else if f.eax = sysGetchar then return .returns (callGetchar s f)
  else if f.eax = sysLs then return .returns (← callLs env s f)
  else if f.eax = sysSigaction then return .returns (callSigaction s f)
  else if f.eax = sysKill then return .returns (callKill s f)
  else if f.eax = sysSigreturn then return .returns (callSigreturn s f)
  else return .returns ⟨s, f, minusOne, .quiet⟩

section Dispatch

variable {env : Env} {cr3 : U32} {s : Calling} {f : Frame} {c : Returned}

theorem syscallHandler_print {h : Handled} (he : f.eax = sysPrint)
    (hc : callPrint env cr3 s f = .ok h) : syscallHandler env cr3 s f = .ok h :=
  (if_pos he).trans hc

theorem syscallHandler_setcolor (h : f.eax = sysSetcolor) :
    syscallHandler env cr3 s f = .ok (.returns (callSetcolor s f)) := by
  unfold syscallHandler
  rw [h]
  rfl

theorem syscallHandler_open (h : f.eax = sysOpen) (hc : callOpen env cr3 s f = .ok c) :
    syscallHandler env cr3 s f = .ok (.returns c) := by
  unfold syscallHandler
  rw [h]
  show (callOpen env cr3 s f >>= _) = _
  rw [hc]
  rfl

theorem syscallHandler_close (h : f.eax = sysClose) (hc : callClose s f = .ok c) :
    syscallHandler env cr3 s f = .ok (.returns c) := by
  unfold syscallHandler
  rw [h]
  show (callClose s f >>= _) = _
  rw [hc]
  rfl

theorem syscallHandler_read (h : f.eax = sysRead) (hc : callRead env cr3 s f = .ok c) :
    syscallHandler env cr3 s f = .ok (.returns c) := by
  unfold syscallHandler
  rw [h]
  show (callRead env cr3 s f >>= _) = _
  rw [hc]
  rfl

theorem syscallHandler_sigaction (h : f.eax = sysSigaction) :
    syscallHandler env cr3 s f = .ok (.returns (callSigaction s f)) := by
  unfold syscallHandler
  rw [h]
  rfl

theorem syscallHandler_kill (h : f.eax = sysKill) :
    syscallHandler env cr3 s f = .ok (.returns (callKill s f)) := by
  unfold syscallHandler
  rw [h]
  rfl

end Dispatch

/-! ## What a call can do -/

/-- What no call changes: the kernel stack in the TSS, the mounted volume, the memory
the kernel owns. -/
structure CallKeeps (l : Link) (s s' : Calling) : Prop where
  esp0 : s'.kern.esp0 = s.kern.esp0
  vol : s'.ext2.vol = s.ext2.vol
  owned : SameOwned l s.mem s'.mem

/-- The pool as far as open files go: no entry changes hands, those in use stay. -/
def SameNodes (pool pool' : NodePool) : Prop :=
  ∀ n, (pool' n).used = (pool n).used ∧ ((pool n).used = true → pool' n = pool n)

theorem SameNodes.refl (pool : NodePool) : SameNodes pool pool := fun _ => ⟨rfl, fun _ => rfl⟩

/-- A descriptor on a node just taken from the pool. -/
def openedFd (n : Fin 8) : Fd := { node := some n, offset := 0#32, used := true }

/-- What a call can do that returns, from `s` with `frame` `f`. -/
inductive CallDone (env : Env) (cr3 : U32) (s : Calling) (f : Frame) :
    Calling → Frame → U32 → Event → Prop where
  | quiet {s' : Calling} {res : U32} : s'.kern.sched = s.kern.sched →
      SameNodes s.kern.nodePool s'.kern.nodePool → CallDone env cr3 s f s' f res .quiet
  | opened {s' : Calling} {i fd n : Fin 8} {node : FsNode} : s.kern.sched.cur = some i →
      (s.kern.nodePool n).used = false → node.used = true → node.read = some .ext2NodeRead →
      3 ≤ fd.val → ((s.kern.task i).files fd).used = false →
      s'.kern.sched = s.kern.sched.setTask i ((s.kern.task i).setFd fd (openedFd n)) →
      s'.kern.nodePool = Function.update s.kern.nodePool n node →
      Names env.disk (env.link.behind s.kern) (s.fetch env cr3) s.ext2 f.ebx node.inode →
      CallDone env cr3 s f s' f (BitVec.ofNat 32 fd.val) (.opened i fd node.inode)
  | closed {s' : Calling} {i fd : Fin 8} : s.kern.sched.cur = some i → 3 ≤ fd.val →
      ((s.kern.task i).files fd).used = true →
      s'.kern.sched = s.kern.sched.setTask i ((s.kern.task i).setFd fd closedFd) →
      s'.kern.nodePool = vfsClose s.kern.nodePool ((s.kern.task i).files fd).node →
      CallDone env cr3 s f s' f 0#32 (.closed i fd)
  | read {s' : Calling} {i fd : Fin 8} {d : Fd} {c : Copied Store} :
      s.kern.sched.cur = some i → 3 ≤ fd.val → (s.kern.task i).files fd = d → d.used = true →
      vfsRead env.disk (userStore env.link cr3) s.kern.nodePool s.ext2 (s.kern, s.mem) d.node
        d.offset f.edx f.ecx = .ok (s'.ext2, c) → c.bytes.length < 65536 →
      s'.kern.sched = s.kern.sched.setTask i ((s.kern.task i).setFd fd
        { d with offset := d.offset + BitVec.ofNat 32 c.bytes.length }) →
      s'.kern.nodePool = s.kern.nodePool →
      CallDone env cr3 s f s' f (BitVec.ofNat 32 c.bytes.length) (.read i fd f.edx c.bytes)
  | sigaction {s' : Calling} {i : Fin 8} {sig : Fin 32} : s.kern.sched.cur = some i → sig ≠ 0 →
      s'.kern.sched = s.kern.sched.setTask i { s.kern.task i with
        sigHandlers := Function.update (s.kern.task i).sigHandlers sig f.ecx } →
      s'.kern.nodePool = s.kern.nodePool → CallDone env cr3 s f s' f 0#32 .quiet
  | raised {s' : Calling} {i : Fin 8} {sig : Fin 32} : s.kern.sched.cur = some i → sig ≠ 0 →
      s'.kern.sched = s.kern.sched.setTask i { s.kern.task i with
        sigPending := (s.kern.task i).sigPending ||| (1#32 <<< sig.val) } →
      s'.kern.nodePool = s.kern.nodePool → CallDone env cr3 s f s' f 0#32 (.raised i sig)
  | returned {s' : Calling} {i : Fin 8} : s.kern.sched.cur = some i →
      (s.kern.task i).sigInHandler = true →
      s'.kern.sched = s.kern.sched.setTask i { s.kern.task i with sigInHandler := false } →
      s'.kern.nodePool = s.kern.nodePool →
      CallDone env cr3 s f s' (savedFrame (s.kern.task i).sigSavedRegs) 0#32 (.returned i)

theorem CallKeeps.refl (l : Link) (s : Calling) : CallKeeps l s s := ⟨rfl, rfl, SameOwned.refl l _⟩

section Cases

variable {env : Env} {cr3 : U32} {s s' : Calling} {f f' : Frame} {res : U32} {ev : Event}

theorem fdArg_some {ebx : U32} {fd : Fin 8} (h : fdArg ebx = some fd) : 3 ≤ fd.val := by
  unfold fdArg at h
  split at h
  next hb =>
    cases h
    exact hb.1
  next => cases h

theorem sigArg_some {ebx : U32} {sig : Fin 32} (h : sigArg ebx = some sig) : sig ≠ 0 := by
  unfold sigArg at h
  split at h
  next hb =>
    cases h
    intro e
    have he : ebx.toNat = 0 := congrArg Fin.val e
    omega
  next => cases h

theorem sigArg_lit {n : Nat} (h : 0 < n ∧ n < 32) : sigArg (BitVec.ofNat 32 n) = some ⟨n, h.2⟩ := by
  have hn : (BitVec.ofNat 32 n).toNat = n := by
    rw [BitVec.toNat_ofNat]
    omega
  unfold sigArg
  rw [dif_pos (by rw [hn]; exact h)]
  exact congrArg some (Fin.ext hn)

theorem freeFd_some {files : Fin 8 → Fd} {fd : Fin 8} (h : freeFd files = some fd) :
    3 ≤ fd.val ∧ (files fd).used = false := by
  have hb := List.find?_some h
  have hm := List.mem_of_find?_eq_some h
  refine ⟨?_, by simpa using hb⟩
  obtain ⟨j, hj, e⟩ := List.mem_drop_iff_getElem.mp hm
  rw [← e, List.getElem_finRange]
  exact Nat.le_add_right 3 j

theorem callPrint_done (h : callPrint env.guarded cr3 s f = .ok (.returns ⟨s', f', res, ev⟩)) :
    CallKeeps env.link s s' ∧ CallDone env.guarded cr3 s f s' f' res ev := by
  obtain ⟨text, _, h⟩ := bind_ok h
  cases text with
  | none => cases h
  | some text =>
    cases h
    exact ⟨⟨rfl, rfl, SameOwned.refl _ _⟩, .quiet rfl (SameNodes.refl _)⟩

theorem callLs_done (h : callLs env.guarded s f = .ok ⟨s', f', res, ev⟩) :
    CallKeeps env.link s s' ∧ CallDone env.guarded cr3 s f s' f' res ev := by
  obtain ⟨⟨ext2, names⟩, hls, h⟩ := bind_ok h
  cases h
  exact ⟨⟨rfl, ext2Ls_vol hls, SameOwned.refl _ _⟩, .quiet rfl (SameNodes.refl _)⟩

theorem callOpen_done (h : callOpen env.guarded cr3 s f = .ok ⟨s', f', res, ev⟩) :
    CallKeeps env.link s s' ∧ CallDone env.guarded cr3 s f s' f' res ev := by
  obtain ⟨⟨pool, ext2, node⟩, hopen, h⟩ := bind_ok h
  obtain ⟨hvol, hcase⟩ := vfsOpen_cases hopen
  rcases hcase with ⟨rfl, rfl⟩ | ⟨n, fsn, rfl, hfree, rfl, hused, hread, hnames⟩
  · cases h
    exact ⟨⟨rfl, hvol, SameOwned.refl _ _⟩, .quiet rfl (SameNodes.refl _)⟩
  · simp only at h
    split at h
    next => cases h
    next i hcur =>
      split at h
      next =>
        -- no descriptor left: the node goes back
        cases h
        refine ⟨⟨rfl, hvol, SameOwned.refl _ _⟩, .quiet rfl fun m => ?_⟩
        simp only [vfsClose, Function.update_self]
        by_cases hm : m = n
        · rw [hm, Function.update_self]
          exact ⟨hfree.symm, fun hu => absurd hu (by rw [hfree]; exact Bool.false_ne_true)⟩
        · rw [Function.update_of_ne hm, Function.update_of_ne hm]
          exact ⟨rfl, fun _ => rfl⟩
      next fd hfd =>
        cases h
        obtain ⟨h3, hfdfree⟩ := freeFd_some hfd
        refine ⟨⟨rfl, hvol, SameOwned.refl _ _⟩, ?_⟩
        have hino : (Function.update s.kern.nodePool n fsn n).inode = fsn.inode := by
          rw [Function.update_self]
        rw [hino]
        exact .opened hcur hfree hused hread h3 hfdfree rfl rfl hnames

theorem callClose_done (h : callClose s f = .ok ⟨s', f', res, ev⟩) :
    CallKeeps env.link s s' ∧ CallDone env.guarded cr3 s f s' f' res ev := by
  unfold callClose at h
  split at h
  next =>
    cases h
    exact ⟨CallKeeps.refl _ _, .quiet rfl (SameNodes.refl _)⟩
  next fd hfd =>
    split at h
    next => cases h
    next i hcur =>
      simp only at h
      split at h
      next =>
        cases h
        exact ⟨CallKeeps.refl _ _, .quiet rfl (SameNodes.refl _)⟩
      next hused =>
        cases h
        exact ⟨⟨rfl, rfl, SameOwned.refl _ _⟩,
          .closed hcur (fdArg_some hfd) (by simpa using hused) rfl rfl⟩

theorem callRead_done (h : callRead env.guarded cr3 s f = .ok ⟨s', f', res, ev⟩) :
    CallKeeps env.link s s' ∧ CallDone env.guarded cr3 s f s' f' res ev := by
  unfold callRead at h
  split at h
  next =>
    cases h
    exact ⟨CallKeeps.refl _ _, .quiet rfl (SameNodes.refl _)⟩
  next fd hfd =>
    split at h
    next => cases h
    next i hcur =>
      simp only at h
      split at h
      next =>
        cases h
        exact ⟨CallKeeps.refl _ _, .quiet rfl (SameNodes.refl _)⟩
      next hused =>
        obtain ⟨⟨ext2, c⟩, hread, h⟩ := bind_ok h
        obtain ⟨⟨hkern, hown⟩, hvol, hlen⟩ := vfsRead_keeps
          (P := fun m : Store => m.1 = s.kern ∧ SameOwned env.link s.mem m.2)
          (fun m va b m' hP hst => by
            obtain ⟨hk, ho⟩ := userStore_kept hst
            exact ⟨hk.trans hP.1, hP.2.trans ho⟩)
          hread ⟨rfl, SameOwned.refl _ _⟩
        cases h
        obtain ⟨⟨kern, mem⟩, bytes⟩ := c
        simp only at hkern
        subst hkern
        exact ⟨⟨rfl, hvol, hown⟩,
          .read hcur (fdArg_some hfd) rfl (by simpa using hused) hread hlen rfl rfl⟩

theorem callSigaction_done (h : callSigaction s f = ⟨s', f', res, ev⟩) :
    CallKeeps env.link s s' ∧ CallDone env.guarded cr3 s f s' f' res ev := by
  unfold callSigaction at h
  split at h
  next i sig hcur hsig =>
    cases h
    exact ⟨⟨rfl, rfl, SameOwned.refl _ _⟩, .sigaction hcur (sigArg_some hsig) rfl rfl⟩
  next =>
    cases h
    exact ⟨CallKeeps.refl _ _, .quiet rfl (SameNodes.refl _)⟩

theorem callKill_done (h : callKill s f = ⟨s', f', res, ev⟩) :
    CallKeeps env.link s s' ∧ CallDone env.guarded cr3 s f s' f' res ev := by
  unfold callKill at h
  split at h
  next i sig hcur hsig =>
    cases h
    exact ⟨⟨rfl, rfl, SameOwned.refl _ _⟩, .raised hcur (sigArg_some hsig) rfl rfl⟩
  next =>
    cases h
    exact ⟨CallKeeps.refl _ _, .quiet rfl (SameNodes.refl _)⟩

theorem callSigreturn_done (h : callSigreturn s f = ⟨s', f', res, ev⟩) :
    CallKeeps env.link s s' ∧ CallDone env.guarded cr3 s f s' f' res ev := by
  unfold callSigreturn at h
  split at h
  next =>
    cases h
    exact ⟨CallKeeps.refl _ _, .quiet rfl (SameNodes.refl _)⟩
  next i hcur =>
    simp only at h
    split at h
    next =>
      cases h
      exact ⟨CallKeeps.refl _ _, .quiet rfl (SameNodes.refl _)⟩
    next hin =>
      cases h
      exact ⟨⟨rfl, rfl, SameOwned.refl _ _⟩, .returned hcur (by simpa using hin) rfl rfl⟩

/-- **What a call that returns has done.** -/
theorem syscall_done
    (h : syscallHandler env.guarded cr3 s f = .ok (.returns ⟨s', f', res, ev⟩)) :
    CallKeeps env.link s s' ∧ CallDone env.guarded cr3 s f s' f' res ev := by
  unfold syscallHandler at h
  rcases ite_cases h with ⟨_, h⟩ | ⟨_, h⟩
  · exact callPrint_done h
  rcases ite_cases h with ⟨_, h⟩ | ⟨_, h⟩
  · cases h
  rcases ite_cases h with ⟨_, h⟩ | ⟨_, h⟩
  · cases h
    exact ⟨⟨rfl, rfl, SameOwned.refl _ _⟩, .quiet rfl (SameNodes.refl _)⟩
  rcases ite_cases h with ⟨_, h⟩ | ⟨_, h⟩
  · obtain ⟨r, hr, h⟩ := bind_ok h
    cases h
    exact callOpen_done hr
  rcases ite_cases h with ⟨_, h⟩ | ⟨_, h⟩
  · obtain ⟨r, hr, h⟩ := bind_ok h
    cases h
    exact callClose_done hr
  rcases ite_cases h with ⟨_, h⟩ | ⟨_, h⟩
  · obtain ⟨r, hr, h⟩ := bind_ok h
    cases h
    exact callRead_done hr
  rcases ite_cases h with ⟨_, h⟩ | ⟨_, h⟩
  · cases h
    exact ⟨⟨rfl, rfl, SameOwned.refl _ _⟩, .quiet rfl (SameNodes.refl _)⟩
  rcases ite_cases h with ⟨_, h⟩ | ⟨_, h⟩
  · obtain ⟨r, hr, h⟩ := bind_ok h
    cases h
    exact callLs_done hr
  rcases ite_cases h with ⟨_, h⟩ | ⟨_, h⟩
  · exact callSigaction_done (Handled.returns.inj (pure_ok h).symm)
  rcases ite_cases h with ⟨_, h⟩ | ⟨_, h⟩
  · exact callKill_done (Handled.returns.inj (pure_ok h).symm)
  rcases ite_cases h with ⟨_, h⟩ | ⟨_, h⟩
  · exact callSigreturn_done (Handled.returns.inj (pure_ok h).symm)
  · cases h
    exact ⟨CallKeeps.refl _ _, .quiet rfl (SameNodes.refl _)⟩

theorem returns_ne_spins (x : Except Trap Returned) :
    (do return Handled.returns (← x)) ≠ (.ok (.spins s) : Except Trap Handled) := by
  intro h
  obtain ⟨r, _, h⟩ := bind_ok h
  cases h

/-- A call that never returns has changed the screen at most. -/
theorem syscall_spins (h : syscallHandler env cr3 s f = .ok (.spins s')) :
    ∃ scr, s' = { s with kern := { s.kern with screen := scr } } := by
  unfold syscallHandler at h
  rcases ite_cases h with ⟨_, h⟩ | ⟨_, h⟩
  · obtain ⟨text, _, h⟩ := bind_ok h
    cases text with
    | none =>
      cases h
      exact ⟨_, rfl⟩
    | some text => cases h
  rcases ite_cases h with ⟨_, h⟩ | ⟨_, h⟩
  · cases h
    exact ⟨_, rfl⟩
  -- every other call returns
  rcases ite_cases h with ⟨_, h⟩ | ⟨_, h⟩
  · cases h
  rcases ite_cases h with ⟨_, h⟩ | ⟨_, h⟩
  · exact absurd h (returns_ne_spins _)
  rcases ite_cases h with ⟨_, h⟩ | ⟨_, h⟩
  · exact absurd h (returns_ne_spins _)
  rcases ite_cases h with ⟨_, h⟩ | ⟨_, h⟩
  · exact absurd h (returns_ne_spins _)
  rcases ite_cases h with ⟨_, h⟩ | ⟨_, h⟩
  · cases h
  rcases ite_cases h with ⟨_, h⟩ | ⟨_, h⟩
  · exact absurd h (returns_ne_spins _)
  rcases ite_cases h with ⟨_, h⟩ | ⟨_, h⟩
  · cases h
  rcases ite_cases h with ⟨_, h⟩ | ⟨_, h⟩
  · cases h
  rcases ite_cases h with ⟨_, h⟩ | ⟨_, h⟩
  · cases h
  · cases h

end Cases

end PepinOS
