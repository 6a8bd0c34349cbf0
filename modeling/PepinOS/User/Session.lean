import PepinOS.Fs.Lookup
import PepinOS.Process.Machine
import PepinOS.Process.UserMemory

/-!
# A program and its system calls

The wrappers at the top of `user/shell.c`, one `int 0x30` each, for a program that
runs by itself: nothing else runs between two of its instructions. Its own loads and
stores go through the same tables as the kernel's, and ask for the user bit too.

A session is what has come of the calls so far: the state they left, their events, and
the bytes handed to `SYS_PRINT`. Each wrapper has one lemma. `UserBuffer` is what a
static array of the program comes to: mapped, writable, nowhere in the kernel's own
memory. A file read into one is there byte by byte (`UserBuffer.pread`).
-/

namespace PepinOS

/-! ## Buffers -/

section Tables

variable {mem : Mem} {cr3 v : U32} {pa : Nat}

theorem pde_store8 (h : inTables mem cr3 pa = false) (b : U8) :
    pde (store8 mem pa b) cr3 v = pde mem cr3 v := by
  unfold pde
  rw [frameAddr_eq]
  refine word_page_congr (pdIndex_lt v) fun x hx => Function.update_of_ne (fun heq => ?_) ..
  exact inTables_dir h (heq ▸ hx)

theorem pte_store8 (h : inTables mem cr3 pa = false) (hp : present (pde mem cr3 v) = true) (b : U8) :
    pte (store8 mem pa b) cr3 v = pte mem cr3 v := by
  obtain ⟨hframe, hround⟩ := tableFrame_present hp
  generalize frameAddr (pde mem cr3 v) / 4096 = t at hframe hround
  have hword : word (store8 mem pa b) (t * 4096) (ptIndex v) = word mem (t * 4096) (ptIndex v) := by
    refine word_page_congr (ptIndex_lt v) fun x hx => Function.update_of_ne ?_ ..
    intro heq
    rw [heq] at hx
    exact inTables_table h (pdIndex_lt v) hframe hx
  unfold pte
  rw [pde_store8 h, ← hround, hword]

/-- A store outside the tables takes no permission away. -/
theorem userWritable_store8 (h : inTables mem cr3 pa = false) (b : U8) :
    userWritable (store8 mem pa b) cr3 v = userWritable mem cr3 v := by
  unfold userWritable userAccess
  rw [pde_store8 h]
  by_cases hp : present (pde mem cr3 v) = true
  · rw [pte_store8 h hp]
  · simp only [hp, Bool.false_and]

theorem userWritable_access (h : userWritable mem cr3 v = true) : userAccess mem cr3 v = true := by
  unfold userWritable at h
  rw [Bool.and_eq_true, Bool.and_eq_true] at h
  exact h.1.1

end Tables

/-- An array of the program, at most a page long. -/
structure UserBuffer (l : Link) (mem : Mem) (cr3 buf : U32) (size : Nat) : Prop where
  small : size ≤ 4096
  writable : ∀ j, j < size → userWritable mem cr3 (buf + BitVec.ofNat 32 j) = true
  ordinary : ∀ j, j < size → ∃ pa, translate mem cr3 (buf + BitVec.ofNat 32 j) = some pa ∧
    l.owns pa = false ∧ inTables mem cr3 pa = false

section Buffer

variable {l : Link} {mem : Mem} {cr3 buf : U32} {size : Nat}

/-- The first bytes of a buffer are one. -/
theorem UserBuffer.mono (h : UserBuffer l mem cr3 buf size) {size' : Nat} (hle : size' ≤ size) :
    UserBuffer l mem cr3 buf size' :=
  ⟨Nat.le_trans hle h.small, fun j hj => h.writable j (Nat.lt_of_lt_of_le hj hle),
    fun j hj => h.ordinary j (Nat.lt_of_lt_of_le hj hle)⟩

theorem UserBuffer.load (h : UserBuffer l mem cr3 buf size) (k : Kernel) (e : Ext2) {j : Nat}
    (hj : j < size) {b : U8} (hb : userByte mem cr3 (buf + BitVec.ofNat 32 j) = some b) :
    userLoad l cr3 k mem e (buf + BitVec.ofNat 32 j) = .ok b := by
  obtain ⟨pa, htr, hown, _⟩ := h.ordinary j hj
  unfold userByte at hb
  rw [htr] at hb
  cases hb
  unfold userLoad
  simp only [htr, hown, Bool.false_eq_true, if_false]

/-- A store to one byte of it. -/
theorem UserBuffer.store (h : UserBuffer l mem cr3 buf size) (k : Kernel) {j : Nat} (hj : j < size)
    (b : U8) : ∃ mem', userStore l cr3 (k, mem) (buf + BitVec.ofNat 32 j) b = .ok (k, mem') ∧
      UserBuffer l mem' cr3 buf size ∧
      userByte mem' cr3 (buf + BitVec.ofNat 32 j) = some b ∧
      ∀ i, i < size → i ≠ j → userByte mem' cr3 (buf + BitVec.ofNat 32 i) =
        userByte mem cr3 (buf + BitVec.ofNat 32 i) := by
  obtain ⟨pa, htr, hown, hin⟩ := h.ordinary j hj
  have hst : ∀ l : Link, l.owns pa = false → userStore l cr3 (k, mem) (buf + BitVec.ofNat 32 j) b =
      .ok (k, store8 mem pa b) := by
    intro l hown
    unfold userStore
    simp only [htr, hown, hin, Bool.or_self, Bool.false_eq_true, if_false]
  obtain ⟨hbyte, hother⟩ := userStore_byte (hst l.guarded hown)
  refine ⟨store8 mem pa b, hst l hown, ⟨h.small, fun i hi => ?_, fun i hi => ?_⟩, hbyte, ?_⟩
  · rw [userWritable_store8 hin]
    exact h.writable i hi
  · obtain ⟨pa', htr', hown', hin'⟩ := h.ordinary i hi
    refine ⟨pa', ?_, hown', ?_⟩
    · rw [translate_store8 hin]
      exact htr'
    · rw [inTables_store8 hin]
      exact hin'
  · intro i hi hne
    have := h.small
    exact hother _ (add_mod_ne (by omega) (by omega) hne)

/-- The copy loop has stored `c.bytes` from the start of the buffer on. -/
structure Filled (l : Link) (cr3 buf : U32) (size : Nat) (k : Kernel) (c : Copied Store) : Prop where
  kern : c.port.1 = k
  buffer : UserBuffer l c.port.2 cr3 buf size
  fits : c.bytes.length ≤ size
  bytes : ∀ j b, c.bytes[j]? = some b → userByte c.port.2 cr3 (buf + BitVec.ofNat 32 j) = some b

theorem Filled.store {k : Kernel} {c : Copied Store} (h : Filled l cr3 buf size k c) (b : U8)
    (hlt : c.bytes.length < size) :
    ∃ port, userStore l cr3 c.port (buf + BitVec.ofNat 32 c.bytes.length) b = .ok port ∧
      Filled l cr3 buf size k ⟨port, c.bytes ++ [b]⟩ := by
  obtain ⟨⟨kern, mem⟩, bytes⟩ := c
  obtain ⟨rfl, hbuf, hfits, hbytes⟩ := h
  obtain ⟨mem', hst, hbuf', hbyte, hother⟩ := hbuf.store kern hlt b
  refine ⟨(kern, mem'), hst, rfl, hbuf', ?_, fun j b' hj => ?_⟩
  · rw [List.length_append, List.length_singleton]
    exact hlt
  · have hj' : (bytes ++ [b])[j]? = some b' := hj
    by_cases hlast : j = bytes.length
    · rw [hlast, List.getElem?_concat_length] at hj'
      cases hj'
      rw [hlast]
      exact hbyte
    · have hlen : j < bytes.length := by
        have := (List.getElem?_eq_some_iff.mp hj').1
        rw [List.length_append, List.length_singleton] at this
        omega
      rw [List.getElem?_append_left hlen] at hj'
      exact (hother j (Nat.lt_trans hlen hlt) hlast).trans (hbytes j b' hj')

/-- A program stores a text into its buffer. -/
theorem UserBuffer.filled (h : UserBuffer l mem cr3 buf size) (k : Kernel) {text : List U8}
    (hlen : text.length ≤ size) : ∃ mem', Filled l cr3 buf size k ⟨(k, mem'), text⟩ := by
  induction text using List.reverseRecOn with
  | nil => exact ⟨mem, rfl, h, Nat.zero_le _, fun j b hj => by cases hj⟩
  | append_singleton text b ih =>
    rw [List.length_append, List.length_singleton] at hlen
    obtain ⟨mem1, h1⟩ := ih (by omega)
    obtain ⟨port, _, h2⟩ := h1.store b hlen
    obtain ⟨kern, mem2⟩ := port
    obtain rfl : kern = k := h2.kern
    exact ⟨mem2, h2⟩

/-- **A read into a buffer** returns, and the buffer holds what was delivered. -/
theorem UserBuffer.pread (h : UserBuffer l mem cr3 buf size) (disk : Disk) {e : Ext2}
    (hr : e.vol.Readable) (k : Kernel) (inum offset : U32) {count : U32} (hcount : count.toNat ≤ size) :
    ∃ e' c, ext2Pread disk (userStore l cr3) e (k, mem) inum buf offset count = .ok (e', c) ∧
      e'.vol = e.vol ∧ Filled l cr3 buf size k c := by
  apply ext2Pread_total disk hr inum offset
  · intro c b hfilled hlt
    exact hfilled.store b (Nat.lt_of_lt_of_le hlt hcount)
  · exact ⟨rfl, h, Nat.zero_le _, fun j b hj => by cases hj⟩

end Buffer

/-! ## Strings -/

/-- One byte on is one more from the start. -/
theorem add_ofNat_succ (p : U32) (n : Nat) :
    p + BitVec.ofNat 32 (n + 1) = p + 1#32 + BitVec.ofNat 32 n := by
  rw [Nat.add_comm, BitVec.ofNat_add, BitVec.add_assoc]

section Reads

variable {ε : Type} {load : U32 → Except ε U8}

/-- The loads from `p` on give the text and then the NUL. -/
def Reads (load : U32 → Except ε U8) : List U8 → U32 → Prop
  | [], p => load p = .ok 0#8
  | c :: s, p => c ≠ 0#8 ∧ load p = .ok c ∧ Reads load s (p + 1#32)

/-- The bytes one by one, and the NUL. -/
theorem Reads.of_bytes : ∀ {s : List U8} {p : U32},
    (∀ j b, s[j]? = some b → b ≠ 0#8 ∧ load (p + BitVec.ofNat 32 j) = .ok b) →
      load (p + BitVec.ofNat 32 s.length) = .ok 0#8 → Reads load s p := by
  intro s
  induction s with
  | nil =>
    intro p _ hnul
    rw [List.length_nil, BitVec.add_zero] at hnul
    exact hnul
  | cons c s ih =>
    intro p hbytes hnul
    have hfirst := hbytes 0 c rfl
    rw [BitVec.add_zero] at hfirst
    refine ⟨hfirst.1, hfirst.2, ih (fun j b hj => ?_) ?_⟩
    · rw [← add_ofNat_succ]
      exact hbytes (j + 1) b hj
    · rw [← add_ofNat_succ]
      exact hnul

/-- The end of a text is a text. -/
theorem Reads.drop : ∀ {xs ys : List U8} {p : U32}, Reads load (xs ++ ys) p →
    Reads load ys (p + BitVec.ofNat 32 xs.length) := by
  intro xs ys
  induction xs with
  | nil =>
    intro p h
    rw [List.length_nil, BitVec.add_zero]
    exact h
  | cons c xs ih =>
    intro p h
    rw [List.length_cons, add_ofNat_succ]
    exact ih h.2.2

end Reads

section Strings

variable {fetch : U32 → Except Trap U8}

/-- What the kernel reads is a string. -/
theorem Reads.stringAt : ∀ {s : List U8} {p : U32}, Reads fetch s p → StringAt fetch s p := by
  intro s
  induction s with
  | nil => exact fun h => h
  | cons c s ih => exact fun h => ⟨h.1, h.2.1, ih h.2.2⟩

/-- What `print` gets. -/
theorem StringAt.cString : ∀ {s : List U8} {p : U32} {n : Nat}, StringAt fetch s p → s.length < n →
    PepinOS.cString fetch n p = .ok (some s) := by
  intro s
  induction s with
  | nil =>
    intro p n hs hn
    obtain ⟨n, rfl⟩ := Nat.exists_eq_succ_of_ne_zero (Nat.ne_of_gt hn)
    have hnul : fetch p = .ok 0#8 := hs
    rw [PepinOS.cString, hnul]
    rfl
  | cons c s ih =>
    intro p n hs hn
    obtain ⟨n, rfl⟩ := Nat.exists_eq_succ_of_ne_zero (Nat.ne_of_gt (Nat.zero_lt_of_lt hn))
    obtain ⟨hc, hfetch, hs⟩ := hs
    rw [PepinOS.cString, hfetch, ok_bind, if_neg hc, ih hs (Nat.lt_of_succ_lt_succ hn)]
    rfl

/-- A string of the program can be copied. -/
theorem copyName_string : ∀ {s : List U8} {path : U32} {n i : Nat} {name : Nat → U8},
    StringAt fetch s (path + BitVec.ofNat 32 i) →
      ∃ name', copyName fetch path n i name = .ok name' := by
  intro s path n
  induction n generalizing s with
  | zero => exact fun _ => ⟨_, rfl⟩
  | succ n ih =>
    intro i name hs
    cases s with
    | nil =>
      have hnul : fetch (path + BitVec.ofNat 32 i) = .ok 0#8 := hs
      rw [copyName, hnul]
      exact ⟨_, rfl⟩
    | cons c s =>
      obtain ⟨hc, hfetch, hs⟩ := hs
      rw [copyName, hfetch, ok_bind, if_neg hc]
      apply ih (s := s)
      rw [BitVec.ofNat_add, ← BitVec.add_assoc]
      exact hs

end Strings

/-- `SYS_PRINT` of a string. -/
theorem callPrint_string {env : Env} {cr3 : U32} {s : Calling} {f : Frame} {text : List U8}
    (h : cString (s.fetch env cr3 s.ext2) (2 ^ 32) f.ebx = .ok (some text)) :
    callPrint env cr3 s f = .ok (.returns
      ⟨{ s with kern := s.kern.printed 0x0F#8 text }, f, 0#32, .quiet⟩) := by
  unfold callPrint
  rw [h]
  rfl

/-! ## Opening -/

section Open

variable {disk : Disk} {behind : Ext2 → Nat → U8} {fetch : Ext2 → U32 → Except Trap U8}
  {pool : NodePool} {e e1 : Ext2} {path ino : U32} {name : List U8} {n : Fin 8}

/-- `name` is the string at `path`, and no slash comes first. -/
structure PathTo (fetch : Ext2 → U32 → Except Trap U8) (path : U32) (name : List U8) : Prop where
  string : ∀ e, StringAt (fetch e) name path
  slash : name.head? ≠ some 0x2F#8
  nonempty : name ≠ []

/-- The first character. -/
theorem PathTo.first (h : PathTo fetch path name) (e : Ext2) :
    ∃ c, fetch e path = .ok c ∧ c ≠ 0#8 ∧ c ≠ 0x2F#8 := by
  obtain ⟨hs, hslash, hne⟩ := h
  cases name with
  | nil => exact absurd rfl hne
  | cons c name =>
    obtain ⟨hc, hfetch, _⟩ := hs e
    exact ⟨c, hfetch, hc, fun h => hslash (congrArg some h)⟩

/-- A name that is found gets the first free node. -/
theorem vfsOpen_found (h : PathTo fetch path name) (hr : e.vol.Readable) (hn : freeNode pool = some n)
    (hfind : ext2Find disk behind fetch e ext2RootInode path = .ok (e1, ino)) (hino : ino ≠ 0#32) :
    ∃ e2 node, vfsOpen disk behind fetch pool e path =
        .ok (Function.update pool n node, e2, some n) ∧
      e2.vol = e.vol ∧ node.inode = ino ∧ node.read = some .ext2NodeRead := by
  obtain ⟨c, hc, _, hslash⟩ := h.first e
  have hv1 := ext2Find_vol hfind
  obtain ⟨e2, inode, hread⟩ := (hv1.symm ▸ hr : e1.vol.Readable).readInode disk ino
  have hsize : ext2InodeSize disk e1 ino = .ok (e2, inode.iSize) := by
    unfold ext2InodeSize
    rw [hread]
    rfl
  have hstr : StringAt (fetch e2) name (path + BitVec.ofNat 32 0) := by
    rw [BitVec.add_zero]
    exact h.string e2
  obtain ⟨name', hname⟩ : ∃ name', copyName (fetch e2) path 63 0 (pool n).name = .ok name' :=
    copyName_string hstr
  refine ⟨e2, ⟨name', fsFile, ino, inode.iSize, some .ext2NodeRead, true⟩, ?_,
    (ext2ReadInode_vol hread).trans hv1, rfl, rfl⟩
  unfold vfsOpen
  simp only [hn, hc, ok_bind, if_neg hslash, hfind, if_neg hino, hsize, hname]
  rfl

/-- A name that is not leaves the pool. -/
theorem vfsOpen_missing (h : PathTo fetch path name) (hn : freeNode pool = some n)
    (hfind : ext2Find disk behind fetch e ext2RootInode path = .ok (e1, 0#32)) :
    vfsOpen disk behind fetch pool e path = .ok (pool, e1, none) := by
  obtain ⟨c, hc, _, hslash⟩ := h.first e
  unfold vfsOpen
  simp only [hn, hc, ok_bind, if_neg hslash, hfind]
  rfl

end Open

/-! ## The calls -/

/-- A program: its directory, and what `int 0x30` pushes besides the arguments of a call. -/
structure Program where
  env : Env
  cr3 : U32
  frame : Frame

/-- Why a program does not go on: a fault, or a call that never returns. -/
inductive Stop where
  | trap (t : Trap)
  | spins

/-- What has come of its calls: the state they left, what they did, the bytes handed to
`SYS_PRINT`. -/
structure Session where
  calling : Calling
  events : List Event
  shown : List U8

namespace Session

variable (p : Program) (u : Session)

/-- What the kernel reads through one of the program's pointers. -/
def fetch : U32 → Except Trap U8 := u.calling.fetch p.env p.cr3 u.calling.ext2

/-- A load in ring 3. -/
def load (va : U32) : Except Stop U8 :=
  if userAccess u.calling.mem p.cr3 va then (u.fetch p va).mapError .trap
  else .error (.trap .exception)

/-- A store in ring 3. -/
def store (va : U32) (b : U8) : Except Stop Session :=
  if userWritable u.calling.mem p.cr3 va then do
    let (kern, mem) ←
      (userStore p.env.link p.cr3 (u.calling.kern, u.calling.mem) va b).mapError .trap
    return { u with calling := { u.calling with kern := kern, mem := mem } }
  else .error (.trap .exception)

/-- `int 0x30`, with the value it leaves in EAX. -/
def int30 (f : Frame) : Except Stop (Session × U32) := do
  match ← (syscallHandler p.env p.cr3 u.calling f).mapError .trap with
  | .spins _ => throw .spins
  | .returns r => return ({ u with calling := r.state, events := u.events ++ [r.ev] }, r.res)

/-- `sys_print`: the string at `s` is handed over. -/
def sysPrint (s : U32) : Except Stop Session := do
  let text ← (cString (u.fetch p) (2 ^ 32) s).mapError .trap
  let (u, _) ← u.int30 p { p.frame with eax := PepinOS.sysPrint, ebx := s }
  return { u with shown := u.shown ++ text.getD [] }

/-- `sys_print` of a string literal, which is its characters wherever the linker puts it. -/
def printLiteral (text : String) : Session where
  calling := { u.calling with kern := u.calling.kern.printed 0x0F#8 (textBytes text) }
  events := u.events ++ [.quiet]
  shown := u.shown ++ textBytes text

def sysSetcolor (attr : U8) : Except Stop Session := do
  let (u, _) ← u.int30 p { p.frame with eax := PepinOS.sysSetcolor, ebx := attr.setWidth 32 }
  return u

def sysOpen (path : U32) : Except Stop (Session × U32) :=
  u.int30 p { p.frame with eax := PepinOS.sysOpen, ebx := path }

def sysClose (fd : U32) : Except Stop Session := do
  let (u, _) ← u.int30 p { p.frame with eax := PepinOS.sysClose, ebx := fd }
  return u

def sysRead (fd buf count : U32) : Except Stop (Session × U32) :=
  u.int30 p { p.frame with eax := PepinOS.sysRead, ebx := fd, ecx := buf, edx := count }

def sysLs : Except Stop Session := do
  let (u, _) ← u.int30 p { p.frame with eax := PepinOS.sysLs }
  return u

def sysKill (sig : U32) : Except Stop Session := do
  let (u, _) ← u.int30 p { p.frame with eax := PepinOS.sysKill, ebx := sig }
  return u

/-! ## What each call comes to -/

/-- The screen changed, and `text` was handed over for it. -/
def screened (scr : Screen) (text : List U8) : Session where
  calling := { u.calling with kern := { u.calling.kern with screen := scr } }
  events := u.events ++ [.quiet]
  shown := u.shown ++ text

@[simp] theorem screened_mem (scr : Screen) (text : List U8) :
    (u.screened scr text).calling.mem = u.calling.mem := rfl

@[simp] theorem screened_sched (scr : Screen) (text : List U8) :
    (u.screened scr text).calling.kern.sched = u.calling.kern.sched := rfl

@[simp] theorem screened_events (scr : Screen) (text : List U8) :
    (u.screened scr text).events = u.events ++ [.quiet] := rfl

@[simp] theorem printLiteral_mem (text : String) :
    (u.printLiteral text).calling.mem = u.calling.mem := rfl

@[simp] theorem printLiteral_sched (text : String) :
    (u.printLiteral text).calling.kern.sched = u.calling.kern.sched := rfl

@[simp] theorem printLiteral_events (text : String) :
    (u.printLiteral text).events = u.events ++ [.quiet] := rfl

variable {p u}

theorem int30_returns {f : Frame} {r : Returned}
    (h : syscallHandler p.env p.cr3 u.calling f = .ok (.returns r)) :
    u.int30 p f = .ok ({ u with calling := r.state, events := u.events ++ [r.ev] }, r.res) := by
  unfold int30
  rw [h]
  rfl

theorem sysSetcolor_returns (attr : U8) : ∃ scr, u.sysSetcolor p attr = .ok (u.screened scr []) := by
  have hcall := int30_returns (p := p) (u := u)
    (syscallHandler_setcolor (f := { p.frame with eax := PepinOS.sysSetcolor, ebx := attr.setWidth 32 })
      rfl)
  refine ⟨setAttr ((attr.setWidth 32).setWidth 8) u.calling.kern.screen, ?_⟩
  unfold sysSetcolor screened
  rw [hcall, ok_bind, List.append_nil]
  rfl

theorem sysPrint_string {text : List U8} {s : U32} (hs : StringAt (u.fetch p) text s)
    (hlen : text.length < 2 ^ 32) : ∃ scr, u.sysPrint p s = .ok (u.screened scr text) := by
  let f : Frame := { p.frame with eax := PepinOS.sysPrint, ebx := s }
  have hstr : cString (u.fetch p) (2 ^ 32) s = .ok (some text) := hs.cString hlen
  have hcall := callPrint_string (f := f) hstr
  refine ⟨print text (setAttr 0x0F#8 u.calling.kern.screen), ?_⟩
  unfold sysPrint
  rw [hstr, show u.int30 p { p.frame with eax := PepinOS.sysPrint, ebx := s } = _ from
    int30_returns (syscallHandler_print rfl hcall)]
  rfl

/-- Whatever is printed, the histories do not count it. -/
theorem sysPrint_events {u' : Session} {s : U32} (h : u.sysPrint p s = .ok u') :
    u'.events = u.events ++ [.quiet] := by
  obtain ⟨text, hstr, h⟩ := bind_ok h
  obtain ⟨⟨u1, res⟩, hcall, h⟩ := bind_ok h
  cases h
  obtain ⟨handled, hhandled, hcall⟩ := bind_ok hcall
  have hprint : (callPrint p.env p.cr3 u.calling
      { p.frame with eax := PepinOS.sysPrint, ebx := s }).mapError Stop.trap = .ok handled := hhandled
  unfold callPrint at hprint
  cases hc : cString (u.fetch p) (2 ^ 32) s with
  | error t =>
    rw [hc] at hstr
    cases hstr
  | ok found =>
    rw [show cString (u.calling.fetch p.env p.cr3 u.calling.ext2) (2 ^ 32) s = .ok found from hc,
      ok_bind] at hprint
    cases found with
    | none =>
      cases hprint
      cases hcall
    | some text' =>
      cases hprint
      cases hcall
      rfl

section Files

variable {i fd n : Fin 8} {name : List U8} {path ino : U32} {e1 : Ext2}

theorem fdArg_ofNat (h : 3 ≤ fd.val) : fdArg (BitVec.ofNat 32 fd.val) = some fd := by
  have hfd : (BitVec.ofNat 32 fd.val).toNat = fd.val := by
    rw [BitVec.toNat_ofNat]
    exact Nat.mod_eq_of_lt (by omega)
  unfold fdArg
  rw [dif_pos (by rw [hfd]; omega)]
  exact congrArg some (Fin.ext hfd)

/-- The name is found: a node and a descriptor are taken. -/
theorem sysOpen_found (h : PathTo (u.calling.fetch p.env p.cr3) path name)
    (hr : u.calling.ext2.vol.Readable) (hcur : u.calling.kern.sched.cur = some i)
    (hn : freeNode u.calling.kern.nodePool = some n)
    (hfd : freeFd (u.calling.kern.task i).files = some fd)
    (hfind : ext2Find p.env.disk (p.env.link.behind u.calling.kern) (u.calling.fetch p.env p.cr3)
      u.calling.ext2 ext2RootInode path = .ok (e1, ino)) (hino : ino ≠ 0#32) :
    ∃ e2 node, e2.vol = u.calling.ext2.vol ∧ node.inode = ino ∧ node.read = some .ext2NodeRead ∧
      u.sysOpen p path = .ok
        ({ u with
          calling := ⟨{ u.calling.kern with nodePool := Function.update u.calling.kern.nodePool n node
            }.setTask i ((u.calling.kern.task i).setFd fd (openedFd n)), e2, u.calling.mem⟩
          events := u.events ++ [.opened i fd ino] }, BitVec.ofNat 32 fd.val) := by
  obtain ⟨e2, node, hopen, hvol, hnode, hread⟩ := vfsOpen_found h hr hn hfind hino
  have hcall : ∀ f : Frame, f.ebx = path → callOpen p.env p.cr3 u.calling f = .ok
      ⟨⟨{ u.calling.kern with nodePool := Function.update u.calling.kern.nodePool n node
        }.setTask i ((u.calling.kern.task i).setFd fd (openedFd n)), e2, u.calling.mem⟩, f,
        BitVec.ofNat 32 fd.val, .opened i fd ino⟩ := by
    intro f hf
    unfold callOpen
    simp only [hf, hopen, ok_bind, hcur]
    split
    next hnone => cases hfd.symm.trans hnone
    next fd' hsome =>
      cases hfd.symm.trans hsome
      rw [Function.update_self, hnode]
      rfl
  refine ⟨e2, node, hvol, hnode, hread, ?_⟩
  unfold sysOpen
  rw [int30_returns (syscallHandler_open rfl (hcall _ rfl))]

/-- The name is not found. -/
theorem sysOpen_missing (h : PathTo (u.calling.fetch p.env p.cr3) path name)
    (hn : freeNode u.calling.kern.nodePool = some n)
    (hfind : ext2Find p.env.disk (p.env.link.behind u.calling.kern) (u.calling.fetch p.env p.cr3)
      u.calling.ext2 ext2RootInode path = .ok (e1, 0#32)) :
    u.sysOpen p path = .ok ({ u with
      calling := { u.calling with ext2 := e1 }, events := u.events ++ [.quiet] }, minusOne) := by
  have hopen := vfsOpen_missing h hn hfind
  have hcall : ∀ f : Frame, f.ebx = path → callOpen p.env p.cr3 u.calling f = .ok
      ⟨{ u.calling with ext2 := e1 }, f, minusOne, .quiet⟩ := by
    intro f hf
    unfold callOpen
    simp only [hf, hopen, ok_bind]
    rfl
  unfold sysOpen
  rw [int30_returns (syscallHandler_open rfl (hcall _ rfl))]

/-- A read into a buffer of the program, from a descriptor on node `n`. -/
theorem sysRead_buffer {buf offset : U32} {size : Nat} (count : U32)
    (hbuf : UserBuffer p.env.link u.calling.mem p.cr3 buf size) (hcount : count.toNat ≤ size)
    (hr : u.calling.ext2.vol.Readable) (hcur : u.calling.kern.sched.cur = some i) (h3 : 3 ≤ fd.val)
    (hfd : (u.calling.kern.task i).files fd = { node := some n, offset := offset, used := true })
    (hread : (u.calling.kern.nodePool n).read = some .ext2NodeRead) :
    ∃ e' c t, ext2Pread p.env.disk (userStore p.env.link p.cr3) u.calling.ext2
        (u.calling.kern, u.calling.mem) (u.calling.kern.nodePool n).inode buf offset count =
          .ok (e', c) ∧
      Filled p.env.link p.cr3 buf size u.calling.kern c ∧ (t.files fd).used = true ∧
      u.sysRead p (BitVec.ofNat 32 fd.val) buf count = .ok
        ({ u with
          calling := ⟨u.calling.kern.setTask i t, e', c.port.2⟩
          events := u.events ++ [.read i fd count c.bytes] }, BitVec.ofNat 32 c.bytes.length) := by
  obtain ⟨e', c, hpread, _, hfilled⟩ :=
    hbuf.pread p.env.disk hr u.calling.kern (u.calling.kern.nodePool n).inode offset hcount
  let d : Fd := { node := some n, offset := offset, used := true }
  let t := (u.calling.kern.task i).setFd fd
    { d with offset := offset + BitVec.ofNat 32 c.bytes.length }
  have hcall : ∀ f : Frame, f.ebx = BitVec.ofNat 32 fd.val → f.ecx = buf → f.edx = count →
      callRead p.env p.cr3 u.calling f = .ok ⟨⟨u.calling.kern.setTask i t, e', c.port.2⟩, f,
        BitVec.ofNat 32 c.bytes.length, .read i fd count c.bytes⟩ := by
    intro f hb hc hd
    have hvfs : vfsRead p.env.disk (userStore p.env.link p.cr3) u.calling.kern.nodePool
        u.calling.ext2 (u.calling.kern, u.calling.mem) (some n) offset count buf = .ok (e', c) := by
      unfold vfsRead
      simp only [hread]
      exact hpread
    unfold callRead
    simp only [hb, hc, hd, fdArg_ofNat h3, hcur, hfd, Bool.true_eq_false, if_false, hvfs, ok_bind]
    rw [hfilled.kern, hfd]
    rfl
  refine ⟨e', c, t, hpread, hfilled, ?_, ?_⟩
  · show (Function.update (u.calling.kern.task i).files fd _ fd).used = true
    rw [Function.update_self]
  · unfold sysRead
    rw [int30_returns (syscallHandler_read rfl (hcall _ rfl rfl rfl))]

/-- A descriptor in use is closed. -/
theorem sysClose_used (hcur : u.calling.kern.sched.cur = some i) (h3 : 3 ≤ fd.val)
    (hfd : ((u.calling.kern.task i).files fd).used = true) :
    ∃ s, u.sysClose p (BitVec.ofNat 32 fd.val) =
        .ok { u with calling := s, events := u.events ++ [.closed i fd] } ∧
      ((s.kern.task i).files fd).used = false := by
  let pool := vfsClose u.calling.kern.nodePool ((u.calling.kern.task i).files fd).node
  let k : Kernel := { u.calling.kern with nodePool := pool }
  let s : Calling :=
    ⟨k.setTask i ((u.calling.kern.task i).setFd fd closedFd), u.calling.ext2, u.calling.mem⟩
  have hcall : ∀ f : Frame, f.ebx = BitVec.ofNat 32 fd.val →
      callClose u.calling f = .ok ⟨s, f, 0#32, .closed i fd⟩ := by
    intro f hf
    unfold callClose
    simp only [hf, fdArg_ofNat h3, hcur, hfd, Bool.true_eq_false, if_false]
    rfl
  refine ⟨s, ?_, ?_⟩
  · unfold sysClose
    rw [int30_returns (syscallHandler_close rfl (hcall _ rfl))]
    rfl
  · show (((k.setTask i ((u.calling.kern.task i).setFd fd closedFd)).task i).files fd).used = false
    rw [Kernel.setTask_task_self]
    show (Function.update (u.calling.kern.task i).files fd closedFd fd).used = false
    rw [Function.update_self]
    rfl

end Files

end Session

section Accesses

variable {p : Program} {buf : U32} {u : Session}

/-- The program's own accesses to its buffer. -/
theorem UserBuffer.userStore {size : Nat} (h : UserBuffer p.env.link u.calling.mem p.cr3 buf size)
    {j : Nat} (hj : j < size) (b : U8) :
    ∃ mem', u.store p (buf + BitVec.ofNat 32 j) b =
        .ok { u with calling := { u.calling with mem := mem' } } ∧
      UserBuffer p.env.link mem' p.cr3 buf size ∧
      userByte mem' p.cr3 (buf + BitVec.ofNat 32 j) = some b ∧
      ∀ i, i < size → i ≠ j → userByte mem' p.cr3 (buf + BitVec.ofNat 32 i) =
        userByte u.calling.mem p.cr3 (buf + BitVec.ofNat 32 i) := by
  obtain ⟨mem', hst, hrest⟩ := h.store u.calling.kern hj b
  refine ⟨mem', ?_, hrest⟩
  unfold Session.store
  rw [if_pos (h.writable j hj), hst]
  rfl

theorem UserBuffer.userLoad {size : Nat} (h : UserBuffer p.env.link u.calling.mem p.cr3 buf size)
    {j : Nat} (hj : j < size) {b : U8}
    (hb : userByte u.calling.mem p.cr3 (buf + BitVec.ofNat 32 j) = some b) :
    u.load p (buf + BitVec.ofNat 32 j) = .ok b := by
  have hfetch : u.fetch p (buf + BitVec.ofNat 32 j) = .ok b := h.load _ _ hj hb
  unfold Session.load
  rw [if_pos (userWritable_access (h.writable j hj)), hfetch]
  rfl

end Accesses

end PepinOS
