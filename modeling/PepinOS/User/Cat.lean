import PepinOS.Process.WildStore
import PepinOS.User.Readline
import PepinOS.User.Session

/-!
# `cat`

`cmd_cat` of `user/shell.c`: open, one read of 511 bytes into a static buffer, a NUL
behind them, print, close. What is printed is the text up to there, with a newline when
it does not end in one. So a longer file is cut, and the newline then comes after the cut
(`catFile_shown`).

`cat_whole_iff` is what that means for the files of a directory: whole are those that the
driver finds and that have at most 511 bytes, and by accident one kind of file of 512.
-/

namespace PepinOS

/-- A text with a newline at its end. -/
def withNewline (text : List U8) : List U8 :=
  if text = [] ∨ text.getLast? = some newline then text else text ++ [newline]

/-- What `cmd_cat` does with the `n` bytes read. -/
def catText (p : Program) (buf n : U32) (u : Session) : Except Stop Session :=
  if 0 < n.toInt then do
    let u ← u.store p (buf + n) 0#8
    let u ← u.sysPrint p buf
    let c ← u.load p (buf + (n - 1#32))
    return if c ≠ newline then u.printLiteral "\n" else u
  else return u

/-- What `cmd_cat` does with a descriptor. -/
def catFile (p : Program) (buf fd : U32) (u : Session) : Except Stop Session := do
  let u ← u.sysSetcolor p 0x0F#8
  let (u, n) ← u.sysRead p fd buf 511#32
  let u ← catText p buf n u
  u.sysClose p fd

/-- `cmd_cat`, its static buffer at `buf`. -/
def cmdCat (p : Program) (buf filename : U32) (u : Session) : Except Stop Session := do
  let c ← u.load p filename
  if c = 0#8 then
    let u ← u.sysSetcolor p 0x0C#8
    return u.printLiteral "uso: cat <archivo>\n"
  let (u, fd) ← u.sysOpen p filename
  if fd.toInt < 0 then
    let u ← u.sysSetcolor p 0x0C#8
    let u ← (u.printLiteral "cat: no encontrado: ").sysPrint p filename
    return u.printLiteral "\n"
  catFile p buf fd u

/-- Where `cat` is called with a file name: a mounted volume with a proper root directory,
a descriptor and a node to be had, and the program's own memory in order. -/
structure CatReady (p : Program) (buf filename : U32) (s : Calling) (i : Fin 8) (name : List U8) :
    Prop where
  sound : s.ext2.vol.Sound
  dir : WellFormedDir p.env.disk s.ext2.vol (s.ext2.vol.inodeAt p.env.disk ext2RootInode)
  cur : s.kern.sched.cur = some i
  node : freeNode s.kern.nodePool ≠ none
  fd : freeFd (s.kern.task i).files ≠ none
  buffer : UserBuffer p.env.link s.mem p.cr3 buf 512
  name : PathTo (s.fetch p.env p.cr3) filename name
  access : userAccess s.mem p.cr3 filename = true

/-- `cat` opens file `ino`, prints its content and a newline at the end, and closes it. -/
def CatPrints (p : Program) (buf filename : U32) (s : Calling) (i : Fin 8) (ino : U32) : Prop :=
  ∃ u fd, cmdCat p buf filename ⟨s, [], []⟩ = .ok u ∧ .opened i fd ino ∈ u.events ∧
    u.shown = withNewline (s.ext2.vol.content p.env.disk ino) ∧
    ((u.calling.kern.task i).files fd).used = false

/-! ## One read, printed -/

theorem toInt_ofNat {n : Nat} (h : n < 2 ^ 31) : (BitVec.ofNat 32 n).toInt = n := by
  rw [BitVec.toInt_eq_toNat_of_lt] <;> rw [BitVec.toNat_ofNat] <;> omega

section Text

variable {p : Program} {buf : U32} {u : Session} {k : Kernel} {text : List U8}

/-- The buffer holds `text` and there is room for the NUL: the text is printed. -/
theorem catText_shown (hf : Filled p.env.link p.cr3 buf 512 k ⟨(k, u.calling.mem), text⟩)
    (hlen : text.length < 512) (hnul : 0#8 ∉ text) :
    ∃ u', catText p buf (BitVec.ofNat 32 text.length) u = .ok u' ∧ u.events ⊆ u'.events ∧
      u'.shown = u.shown ++ withNewline text ∧
      u'.calling.kern.sched = u.calling.kern.sched := by
  by_cases hne : text = []
  · subst hne
    exact ⟨u, rfl, List.Subset.refl _, (List.append_nil _).symm, rfl⟩
  have hpos := List.length_pos_iff.mpr hne
  obtain ⟨mem', hst, hbuf, hzero, hother⟩ := hf.buffer.userStore hlen 0#8
  have hbytes : ∀ j b, text[j]? = some b → j < text.length ∧
      userByte mem' p.cr3 (buf + BitVec.ofNat 32 j) = some b := by
    intro j b hj
    have hlt := (List.getElem?_eq_some_iff.mp hj).1
    exact ⟨hlt, (hother j (by omega) (by omega)).trans (hf.bytes j b hj)⟩
  -- what `SYS_PRINT` finds in the buffer
  let u1 : Session := { u with calling := { u.calling with mem := mem' } }
  have hstr : StringAt (u1.fetch p) text buf := by
    refine (Reads.of_bytes (fun j b hj => ⟨?_, ?_⟩) (hbuf.load _ _ hlen hzero)).stringAt
    · intro h0
      exact hnul (h0 ▸ List.mem_of_getElem? hj)
    · exact hbuf.load _ _ (Nat.lt_trans (hbytes j b hj).1 hlen) (hbytes j b hj).2
  obtain ⟨scr, hprint⟩ := Session.sysPrint_string hstr (by omega)
  -- the last character
  obtain ⟨last, hlast⟩ : ∃ last, text.getLast? = some last :=
    ⟨_, List.getLast?_eq_some_getLast hne⟩
  rw [List.getLast?_eq_getElem?] at hlast
  have haddr : BitVec.ofNat 32 text.length - 1#32 = BitVec.ofNat 32 (text.length - 1) := by
    rw [show text.length = text.length - 1 + 1 by omega, BitVec.ofNat_add, BitVec.add_sub_cancel]
    rfl
  have hload : (u1.screened scr text).load p (buf + BitVec.ofNat 32 (text.length - 1)) = .ok last :=
    UserBuffer.userLoad (u := u1.screened scr text) hbuf (by omega) (hbytes _ _ hlast).2
  have hcat : catText p buf (BitVec.ofNat 32 text.length) u =
      .ok (if last ≠ newline then (u1.screened scr text).printLiteral "\n"
        else u1.screened scr text) := by
    unfold catText
    rw [if_pos (by rw [toInt_ofNat (by omega)]; omega), hst, ok_bind, hprint, ok_bind, haddr, hload]
    rfl
  refine ⟨_, hcat, ?_⟩
  rw [← List.getLast?_eq_getElem?] at hlast
  unfold withNewline
  rw [hlast]
  by_cases hnl : last = newline
  · rw [if_neg (not_not.mpr hnl), hnl, if_pos (.inr rfl)]
    exact ⟨List.subset_append_left .., rfl, rfl⟩
  · rw [if_pos hnl, if_neg (by
      rintro (h | h)
      · exact hne h
      · exact hnl (Option.some.inj h))]
    refine ⟨?_, ?_, rfl⟩
    · exact List.Subset.trans (List.subset_append_left ..) (List.subset_append_left ..)
    · exact List.append_assoc ..

/-- **What `cat` prints of an open file**: the first 511 bytes. -/
theorem catFile_shown {i fd n : Fin 8} {ino : U32} (hv : u.calling.ext2.vol.Sound)
    (hcur : u.calling.kern.sched.cur = some i) (h3 : 3 ≤ fd.val)
    (hfd : (u.calling.kern.task i).files fd = openedFd n)
    (hino : (u.calling.kern.nodePool n).inode = ino)
    (hread : (u.calling.kern.nodePool n).read = some .ext2NodeRead)
    (hbuf : UserBuffer p.env.link u.calling.mem p.cr3 buf 512)
    (hnul : 0#8 ∉ u.calling.ext2.vol.content p.env.disk ino) :
    ∃ u', catFile p buf (BitVec.ofNat 32 fd.val) u = .ok u' ∧ u.events ⊆ u'.events ∧
      u'.shown = u.shown ++ withNewline ((u.calling.ext2.vol.content p.env.disk ino).take 511) ∧
      ((u'.calling.kern.task i).files fd).used = false := by
  obtain ⟨scr, hcolor⟩ : ∃ scr, u.sysSetcolor p 0x0F#8 = .ok (u.screened scr []) :=
    Session.sysSetcolor_returns _
  obtain ⟨e', c, t, hpread, hfilled, hused, hcall⟩ := Session.sysRead_buffer (p := p)
    (u := u.screened scr []) 511#32 hbuf (Nat.le_succ 511) hv.readable hcur h3 hfd hread
  have htext : c.bytes = (u.calling.ext2.vol.content p.env.disk ino).take 511 := by
    rw [← hino]
    exact ext2Pread_content hv hpread (Nat.le_of_ble_eq_true rfl)
  have hlen : c.bytes.length < 512 := by
    rw [htext, List.length_take]
    omega
  rw [← htext]
  have hnul' : 0#8 ∉ c.bytes := by
    rw [htext]
    exact fun h => hnul (List.mem_of_mem_take h)
  let u2 : Session := { u.screened scr [] with
    calling := ⟨(u.screened scr []).calling.kern.setTask i t, e', c.port.2⟩
    events := (u.screened scr []).events ++ [.read i fd 511#32 c.bytes] }
  have hf : Filled p.env.link p.cr3 buf 512 _ ⟨((u.screened scr []).calling.kern, u2.calling.mem),
      c.bytes⟩ :=
    ⟨rfl, hfilled.buffer, hfilled.fits, hfilled.bytes⟩
  obtain ⟨u3, hprint, hev, hshown, hsched⟩ := catText_shown hf hlen hnul'
  have htask : u3.calling.kern.task i = t := by
    unfold Kernel.task
    rw [hsched]
    exact Kernel.setTask_task_self ..
  have hcur3 : u3.calling.kern.sched.cur = some i := by
    rw [hsched]
    exact hcur
  obtain ⟨s, hclose, hfree⟩ := Session.sysClose_used (p := p) hcur3 h3 (by rw [htask]; exact hused)
  refine ⟨{ u3 with calling := s, events := u3.events ++ [.closed i fd] }, ?_, ?_, ?_, hfree⟩
  · unfold catFile
    rw [hcolor, ok_bind, hcall, ok_bind]
    show (catText p buf (BitVec.ofNat 32 c.bytes.length) u2 >>= _) = _
    rw [hprint, ok_bind, hclose]
  · intro ev hmem
    apply List.mem_append_left
    apply hev
    apply List.mem_append_left
    exact List.mem_append_left _ hmem
  · rw [hshown]
    show u.shown ++ [] ++ _ = _
    rw [List.append_nil]

end Text

/-! ## Which files are whole -/

theorem withNewline_ended {text : List U8} (h : text.getLast? = some newline) :
    withNewline text = text := if_pos (.inr h)

theorem withNewline_open {text : List U8} (hne : text ≠ []) (h : text.getLast? ≠ some newline) :
    withNewline text = text ++ [newline] := if_neg (not_or.mpr ⟨hne, h⟩)

/-- Where the cut does not show. -/
theorem withNewline_take (text : List U8) :
    withNewline (text.take 511) = withNewline text ↔
      text.length ≤ 511 ∨
      text.length = 512 ∧ text[510]? ≠ some newline ∧ text[511]? = some newline := by
  rcases Nat.lt_or_ge 511 text.length with hlong | hshort
  · have hlen : (text.take 511).length = 511 := by
      rw [List.length_take, Nat.min_eq_left hlong.le]
    have hlast : (text.take 511).getLast? = text[510]? := by
      rw [List.getLast?_eq_getElem?, hlen, List.getElem?_take]
      rfl
    have hne : text.take 511 ≠ [] := List.length_pos_iff.mp (by rw [hlen]; omega)
    have hne' : text ≠ [] := List.length_pos_iff.mp (by omega)
    constructor
    · intro h
      right
      by_cases hcut : text[510]? = some newline
      · -- nothing is put after the cut, and the text is longer
        rw [withNewline_ended (hlast.trans hcut)] at h
        have hcutlen := congrArg List.length h
        by_cases hend : text.getLast? = some newline
        · rw [withNewline_ended hend, hlen] at hcutlen
          omega
        · rw [withNewline_open hne' hend, hlen, List.length_append] at hcutlen
          omega
      · rw [withNewline_open hne (by rw [hlast]; exact hcut)] at h
        have hcutlen := congrArg List.length h
        rw [List.length_append, hlen, List.length_singleton] at hcutlen
        by_cases hend : text.getLast? = some newline
        · rw [withNewline_ended hend] at hcutlen
          rw [List.getLast?_eq_getElem?, ← hcutlen] at hend
          exact ⟨hcutlen.symm, hcut, hend⟩
        · rw [withNewline_open hne' hend, List.length_append, List.length_singleton] at hcutlen
          omega
    · rintro (h | ⟨hlen', hcut, hend⟩)
      · omega
      · have htext : text = text.take 511 ++ [newline] := by
          conv_lhs => rw [← List.take_of_length_le hlen'.le, List.take_add_one, hend]
          rfl
        rw [withNewline_open hne (by rw [hlast]; exact hcut), ← htext, withNewline_ended]
        rw [List.getLast?_eq_getElem?, hlen']
        exact hend
  · rw [List.take_of_length_le hshort]
    exact ⟨fun _ => .inl hshort, fun _ => rfl⟩

section Command

variable {p : Program} {buf filename : U32} {s : Calling} {i : Fin 8} {name : List U8} {k off : Nat}

theorem CatReady.load (h : CatReady p buf filename s i name) :
    ∃ c, (⟨s, [], []⟩ : Session).load p filename = .ok c ∧ c ≠ 0#8 := by
  obtain ⟨c, hc, hne, _⟩ := h.name.first s.ext2
  refine ⟨c, ?_, hne⟩
  unfold Session.load Session.fetch
  rw [if_pos h.access, hc]
  rfl

/-- A file named in the first block is opened, printed as far as the buffer goes, and closed. -/
theorem CatReady.found (h : CatReady p buf filename s i name)
    (hhas : s.ext2.vol.HasEntry p.env.disk (s.ext2.vol.inodeAt p.env.disk ext2RootInode) name 0 off)
    {ino : U32}
    (hino : deInode (s.ext2.vol.dirBlock p.env.disk (s.ext2.vol.inodeAt p.env.disk ext2RootInode) 0)
      off = ino) (hnul : 0#8 ∉ s.ext2.vol.content p.env.disk ino) :
    ∃ u fd, cmdCat p buf filename ⟨s, [], []⟩ = .ok u ∧ .opened i fd ino ∈ u.events ∧
      u.shown = withNewline ((s.ext2.vol.content p.env.disk ino).take 511) ∧
      ((u.calling.kern.task i).files fd).used = false := by
  obtain ⟨c, hload, hc⟩ := h.load
  obtain ⟨n, hn⟩ := Option.ne_none_iff_exists'.mp h.node
  obtain ⟨fd, hfd⟩ := Option.ne_none_iff_exists'.mp h.fd
  have h3 := (freeFd_some hfd).1
  -- the names are distinct, so the lookup is complete
  have hfind : FindComplete p.env.disk (p.env.link.behind s.kern) (s.fetch p.env p.cr3) s.ext2
      ext2RootInode filename name := by
    refine FindComplete.of_first h.sound h.dir h.name.string fun k' off' hk hhas' => ?_
    have hsame := h.dir.distinct name 0 off k' off' hhas hhas'
    omega
  obtain ⟨e1, ino', hfind, hentry, _⟩ := hfind
  obtain rfl : ino' = ino := (hentry 0 off hhas).trans hino
  have hne : ino' ≠ 0#32 := hino ▸ dirEntries_inode hhas
  obtain ⟨e2, node, hvol, hnode, hread, hopen⟩ := Session.sysOpen_found (p := p)
    (u := ⟨s, [], []⟩) h.name h.sound.readable h.cur hn hfd hfind hne
  let k1 : Kernel := { s.kern with nodePool := Function.update s.kern.nodePool n node }
  let u1 : Session := ⟨⟨k1.setTask i ((s.kern.task i).setFd fd (openedFd n)), e2, s.mem⟩,
    [] ++ [.opened i fd ino'], []⟩
  have hfile : (u1.calling.kern.task i).files fd = openedFd n := by
    show ((k1.setTask i ((s.kern.task i).setFd fd (openedFd n))).task i).files fd = _
    rw [Kernel.setTask_task_self]
    exact Function.update_self ..
  have hpool : u1.calling.kern.nodePool n = node := Function.update_self ..
  have hvol1 : u1.calling.ext2.vol = s.ext2.vol := hvol
  obtain ⟨u', hcat, hev, hshown, hclosed⟩ := catFile_shown (p := p) (u := u1) (hvol1 ▸ h.sound) h.cur
    h3 hfile (by rw [hpool, hnode]) (by rw [hpool, hread]) h.buffer (by rw [hvol1]; exact hnul)
  rw [hvol1] at hshown
  refine ⟨u', fd, ?_, hev (List.mem_append_right _ (List.mem_singleton_self _)), hshown, hclosed⟩
  unfold cmdCat
  rw [hload, ok_bind, if_neg hc, hopen, ok_bind]
  show (if (BitVec.ofNat 32 fd.val).toInt < 0 then _ else catFile p buf _ u1) = _
  rw [if_neg (by rw [toInt_ofNat (by omega)]; omega)]
  exact hcat

/-- One named in a later block is not opened. -/
theorem CatReady.missing (h : CatReady p buf filename s i name) (hk : 1 ≤ k)
    (hhas : s.ext2.vol.HasEntry p.env.disk (s.ext2.vol.inodeAt p.env.disk ext2RootInode) name k off)
    {u : Session} (hcat : cmdCat p buf filename ⟨s, [], []⟩ = .ok u) (fd : Fin 8) (ino : U32) :
    .opened i fd ino ∉ u.events := by
  obtain ⟨c, hload, hc⟩ := h.load
  obtain ⟨n, hn⟩ := Option.ne_none_iff_exists'.mp h.node
  obtain ⟨e1, hfind⟩ : ∃ e1, ext2Find p.env.disk (p.env.link.behind s.kern) (s.fetch p.env p.cr3)
      s.ext2 ext2RootInode filename = .ok (e1, 0#32) :=
    ext2Find_later h.sound h.dir h.name.string hk hhas
  have hopen := Session.sysOpen_missing (p := p) (u := ⟨s, [], []⟩) h.name hn hfind
  unfold cmdCat at hcat
  rw [hload, ok_bind, if_neg hc, hopen, ok_bind] at hcat
  obtain ⟨_, hcat⟩ | ⟨hfd, _⟩ := ite_cases hcat
  · obtain ⟨u1, hcolor, hcat⟩ := bind_ok hcat
    obtain ⟨u2, hprint, hcat⟩ := bind_ok hcat
    cases hcat
    obtain ⟨scr, hscreen⟩ : ∃ scr, _ = Except.ok (Session.screened _ scr []) :=
      Session.sysSetcolor_returns (p := p) (u := ⟨{ s with ext2 := e1 }, [.quiet], []⟩) 0x0C#8
    cases hcolor.symm.trans hscreen
    have hev : u2.events = [.quiet, .quiet, .quiet, .quiet] := Session.sysPrint_events hprint
    show Event.opened i fd ino ∉ u2.events ++ [.quiet]
    rw [hev]
    intro hmem
    simp at hmem
  · exact absurd (show (minusOne : U32).toInt < 0 from by decide) hfd

/-- What it takes to print a whole file. -/
theorem CatReady.whole (h : CatReady p buf filename s i name) {ino : U32}
    (hhas : s.ext2.vol.HasEntry p.env.disk (s.ext2.vol.inodeAt p.env.disk ext2RootInode) name k off)
    (hino : deInode (s.ext2.vol.dirBlock p.env.disk (s.ext2.vol.inodeAt p.env.disk ext2RootInode) k)
      off = ino) (hnul : 0#8 ∉ s.ext2.vol.content p.env.disk ino)
    (hprints : CatPrints p buf filename s i ino) :
    k = 0 ∧ ((s.ext2.vol.content p.env.disk ino).length ≤ 511 ∨
      (s.ext2.vol.content p.env.disk ino).length = 512 ∧
      (s.ext2.vol.content p.env.disk ino)[510]? ≠ some newline ∧
      (s.ext2.vol.content p.env.disk ino)[511]? = some newline) := by
  obtain ⟨u, fd, hcat, hopened, hshown, _⟩ := hprints
  have hk : k = 0 := by
    by_contra hk
    exact h.missing (Nat.pos_of_ne_zero hk) hhas hcat fd ino hopened
  subst hk
  obtain ⟨u', _, hcat', _, hshown', _⟩ := h.found hhas hino hnul
  rw [hcat] at hcat'
  cases hcat'
  exact ⟨rfl, (withNewline_take _).mp (hshown'.symm.trans hshown)⟩

/-- **`cat` prints a whole file** exactly when the lookup gets to it and it fits the buffer,
or its one byte too many is the newline that `cat` adds. -/
theorem cat_whole_iff {p : Program} {buf filename : U32} {s : Calling} {i : Fin 8} {name : List U8}
    (h : CatReady p buf filename s i name) {k off : Nat} {ino : U32}
    (hhas : s.ext2.vol.HasEntry p.env.disk (s.ext2.vol.inodeAt p.env.disk ext2RootInode) name k off)
    (hino : deInode (s.ext2.vol.dirBlock p.env.disk (s.ext2.vol.inodeAt p.env.disk ext2RootInode) k)
      off = ino) (hnul : 0#8 ∉ s.ext2.vol.content p.env.disk ino) :
    CatPrints p buf filename s i ino ↔
      k = 0 ∧ ((s.ext2.vol.content p.env.disk ino).length ≤ 511 ∨
        (s.ext2.vol.content p.env.disk ino).length = 512 ∧
        (s.ext2.vol.content p.env.disk ino)[510]? ≠ some newline ∧
        (s.ext2.vol.content p.env.disk ino)[511]? = some newline) := by
  constructor
  · exact h.whole hhas hino hnul
  · intro hwhole
    obtain ⟨hk, hfits⟩ := hwhole
    subst hk
    obtain ⟨u, fd, hcat, hopened, hshown, hclosed⟩ := h.found hhas hino hnul
    exact ⟨u, fd, hcat, hopened, hshown.trans ((withNewline_take _).mpr hfits), hclosed⟩

end Command

/-! ## A file of 600 bytes -/

/-- The root directory with the file `a`, full of the letter A. -/
def catBlocks (a : Nat) : U8 := if a < 2048 then twoRecords a else 0x41#8

section Demo

variable {e : Ext2} {m : Machine}

theorem Demo.userBuffer (hd : Demo e m) {l : Link}
    (hl : ∀ pa, pa / 4096 = 0x30F → l.owns pa = false) :
    UserBuffer l m.mem taskAPdAddr 0x30F000#32 1024 := by
  have haddr : ∀ j, 0x30F000#32 + BitVec.ofNat 32 j = BitVec.ofNat 32 (0x30F000 + j) := by
    intro j
    rw [BitVec.ofNat_add]
  refine ⟨by omega, fun j hj => ?_, fun j hj => ?_⟩
  · obtain ⟨s, hs, _, hmem⟩ := hd.loader
    rw [hmem, haddr]
    refine hs.dirA.writable hs.tables ?_
    rw [BitVec.toNat_ofNat]
    unfold identityTop
    omega
  · have hord := hd.stack hl (X := 0x30F000 + j) (by omega) (by omega)
    have hmap := hord.mapped 0 (by omega)
    rw [BitVec.add_zero] at hmap
    rw [haddr]
    exact ⟨_, hmap, hord.notOwned 0 (by omega), hord.outside 0 (by omega)⟩

/-- Its memory with the string `a` behind the first 512 bytes of the stack page. -/
theorem Demo.named (hd : Demo e m) {l : Link} (hl : ∀ pa, pa / 4096 = 0x30F → l.owns pa = false) :
    ∃ mem, UserBuffer l mem taskAPdAddr 0x30F000#32 1024 ∧
      ∀ k e', userLoad l taskAPdAddr k mem e' 0x30F200#32 = .ok 0x61#8 ∧
        userLoad l taskAPdAddr k mem e' 0x30F201#32 = .ok 0#8 := by
  have h512 : 512 < 1024 := by omega
  have h513 : 513 < 1024 := by omega
  obtain ⟨mem1, _, hbuf1, hbyte1, _⟩ := (hd.userBuffer hl).store m.kern h512 0x61#8
  obtain ⟨mem2, _, hbuf2, hbyte2, hother⟩ := hbuf1.store m.kern h513 0#8
  refine ⟨mem2, hbuf2, fun k e' => ⟨?_, ?_⟩⟩
  · exact hbuf2.load k e' h512 ((hother 512 h512 (by omega)).trans hbyte1)
  · exact hbuf2.load k e' h513 hbyte2

end Demo

theorem RootVolume.catContent {vol : Volume} (hv : RootVolume vol) :
    vol.content (rootImage catBlocks).disk 12#32 = List.replicate 600 0x41#8 := by
  have hlen : vol.fileLen (vol.inodeAt (rootImage catBlocks).disk 12#32) = 600 := by
    unfold Volume.fileLen
    rw [hv.fileSize, hv.blockSize_toNat]
    exact Nat.min_eq_left (Nat.le_of_ble_eq_true rfl)
  unfold Volume.content
  rw [hlen]
  apply List.eq_replicate_iff.mpr
  refine ⟨by rw [List.length_map, List.length_range], fun b hb => ?_⟩
  obtain ⟨off, hoff, rfl⟩ := List.mem_map.mp hb
  rw [List.mem_range] at hoff
  unfold Volume.fileByte
  rw [hv.blockSize_toNat, show off / 1024 = 0 by omega, hv.fileBlock]
  have hbyte : vol.blockByte (rootImage catBlocks).disk 12#32 (off % 1024) =
      catBlocks (2 * 1024 + off % 1024) :=
    hv.blockByte rfl (by omega) (Nat.mod_lt _ (by omega))
  have hne : ¬(12#32 : U32) = 0#32 := by decide
  simp only [if_neg hne, hbyte]
  unfold catBlocks
  exact if_neg (by omega)

/-- Task A of the demo calls `cat` with the name of that file. -/
theorem catDemo : ∃ p filename s, CatReady p 0x30F000#32 filename s 0 [0x61#8] ∧
    s.ext2.vol.HasEntry p.env.disk (s.ext2.vol.inodeAt p.env.disk ext2RootInode) [0x61#8] 0 0 ∧
    deInode (s.ext2.vol.dirBlock p.env.disk (s.ext2.vol.inodeAt p.env.disk ext2RootInode) 0) 0 =
      12#32 ∧
    (s.ext2.vol.inodeAt p.env.disk 12#32).iSize.toNat ≤ 12 * s.ext2.vol.blockSize.toNat ∧
    s.ext2.vol.content p.env.disk 12#32 = List.replicate 600 0x41#8 := by
  obtain ⟨e, _, _, hv⟩ := rootImage_mounted catBlocks
  obtain ⟨m, hd⟩ := demo_exists e
  obtain ⟨mem, hbuf, hname⟩ := hd.named (l := wildLink) imageOwns_stack
  have hblocks : ∀ a, a < 2048 → catBlocks a = twoRecords a := fun a ha => if_pos ha
  have hk : 0 < 2 := by omega
  refine ⟨⟨wildEnv (rootImage catBlocks).disk, taskAPdAddr, zeroRegs.frame⟩, 0x30F200#32,
    ⟨m.kern, e, mem⟩, ?_, (hv.hasEntry hblocks _ 0 0).mpr ⟨hk, rfl, rfl⟩,
    (hv.record hblocks hk).2.1, ?_, hv.catContent⟩
  · constructor
    · exact hv.sound
    · exact hv.wellFormedDir hblocks
    · exact hd.cur
    · have hfree : freeNode m.kern.nodePool = some 0 := by
        unfold freeNode
        simp only [hd.nodes]
        rfl
      show freeNode m.kern.nodePool ≠ none
      rw [hfree]
      exact Option.some_ne_none 0
    · have hfree : freeFd (m.kern.task 0).files = some 3 := by
        rw [hd.taskA]
        rfl
      show freeFd (m.kern.task 0).files ≠ none
      rw [hfree]
      exact Option.some_ne_none 3
    · exact hbuf.mono (by omega)
    · refine ⟨fun e' => ⟨?_, (hname m.kern e').1, (hname m.kern e').2⟩, ?_, List.cons_ne_nil _ _⟩
      · decide
      · decide
    · exact userWritable_access (hbuf.writable 512 (by omega))
  · show (e.vol.inodeAt (rootImage catBlocks).disk 12#32).iSize.toNat ≤ 12 * e.vol.blockSize.toNat
    rw [hv.fileSize, hv.blockSize_toNat]
    exact Nat.le_of_ble_eq_true rfl

/-- No NUL in it, and too long. -/
theorem catDemo_content {vol : Volume} {disk : Disk} {ino : U32}
    (h : vol.content disk ino = List.replicate 600 0x41#8) :
    0#8 ∉ vol.content disk ino ∧ (vol.content disk ino).length = 600 := by
  rw [h, List.length_replicate]
  refine ⟨fun hmem => ?_, rfl⟩
  cases List.eq_of_mem_replicate hmem

theorem cat_whole_iff_long : ∃ p filename s, CatReady p 0x30F000#32 filename s 0 [0x61#8] ∧
    ¬CatPrints p 0x30F000#32 filename s 0 12#32 := by
  obtain ⟨p, filename, s, h, hhas, hino, _, hcontent⟩ := catDemo
  obtain ⟨hnul, hlen⟩ := catDemo_content hcontent
  refine ⟨p, filename, s, h, fun hcat => ?_⟩
  obtain ⟨_, hwhole⟩ := (cat_whole_iff h hhas hino hnul).mp hcat
  omega

/-- A file of 600 bytes is cut. -/
theorem cat_truncates : ¬∀ (p : Program) (buf filename : U32) (s : Calling) (i : Fin 8)
    (name : List U8), CatReady p buf filename s i name → ∀ (k off : Nat) (ino : U32),
      s.ext2.vol.HasEntry p.env.disk (s.ext2.vol.inodeAt p.env.disk ext2RootInode) name k off →
      deInode (s.ext2.vol.dirBlock p.env.disk (s.ext2.vol.inodeAt p.env.disk ext2RootInode) k)
        off = ino →
      (s.ext2.vol.inodeAt p.env.disk ino).iSize.toNat ≤ 12 * s.ext2.vol.blockSize.toNat →
      0#8 ∉ s.ext2.vol.content p.env.disk ino → CatPrints p buf filename s i ino := by
  intro hall
  obtain ⟨p, filename, s, h, hhas, hino, hsize, hcontent⟩ := catDemo
  obtain ⟨hnul, hlen⟩ := catDemo_content hcontent
  have hcat := hall p _ filename s 0 [0x61#8] h 0 0 12#32 hhas hino hsize hnul
  obtain ⟨_, hwhole⟩ := h.whole hhas hino hnul hcat
  omega

end PepinOS
