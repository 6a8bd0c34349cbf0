import PepinOS.Fs.Content
import PepinOS.Process.Descriptors

/-!
# A descriptor is a stream

What a program gets from a descriptor over many reads: the content of one file, from
its start, each byte once and in order. `delivered` and `openedOn` read the bytes and
the file off the events of a run; `SlotStream` ties them to one slot, whose offset is
the length of what was delivered. Two facts carry it. A read delivers the content
from the offset on and moves the offset by as much (`SlotStream.read`), and whatever
is about another slot leaves this one and its entry of the pool (`FilesDone.other`).
-/

namespace PepinOS

/-- The bytes delivered on descriptor `fd` of task `t` since it was last opened. -/
def delivered (t fd : Fin 8) : List Event → List U8
  | [] => []
  | .opened t' fd' _ :: h => if t' = t ∧ fd' = fd then [] else delivered t fd h
  | .read t' fd' _ bytes :: h =>
    if t' = t ∧ fd' = fd then delivered t fd h ++ bytes else delivered t fd h
  | _ :: h => delivered t fd h

/-- The inode descriptor `fd` of task `t` was opened on, while it is open. -/
def openedOn (t fd : Fin 8) : List Event → Option U32
  | [] => none
  | .opened t' fd' ino :: h => if t' = t ∧ fd' = fd then some ino else openedOn t fd h
  | .closed t' fd' :: h => if t' = t ∧ fd' = fd then none else openedOn t fd h
  | _ :: h => openedOn t fd h

theorem slot_ne {i fd' t fd : Fin 8} (h : some (i, fd') ≠ some (t, fd)) : ¬(i = t ∧ fd' = fd) := by
  rintro ⟨rfl, rfl⟩
  exact h rfl

theorem delivered_other {ev : Event} {t fd : Fin 8} (hev : ev.slot ≠ some (t, fd))
    (h : List Event) : delivered t fd (ev :: h) = delivered t fd h := by
  cases ev with
  | opened => exact if_neg (slot_ne hev)
  | read => exact if_neg (slot_ne hev)
  | _ => rfl

theorem openedOn_other {ev : Event} {t fd : Fin 8} (hev : ev.slot ≠ some (t, fd))
    (h : List Event) : openedOn t fd (ev :: h) = openedOn t fd h := by
  cases ev with
  | opened => exact if_neg (slot_ne hev)
  | closed => exact if_neg (slot_ne hev)
  | _ => rfl

/-! ## One slot -/

/-- Slot `fd` of task `t` is where the history says, on contents `content`. -/
structure SlotStream (content : U32 → List U8) (h : List Event) (k : Kernel) (t fd : Fin 8) :
    Prop where
  inode : openedOn t fd h = (heldNode k (t, fd)).map fun n => (k.nodePool n).inode
  bytes : ∀ ino, openedOn t fd h = some ino →
    delivered t fd h = (content ino).take ((k.task t).files fd).offset.toNat ∧
      ((k.task t).files fd).offset.toNat ≤ (content ino).length

section Slot

variable {content : U32 → List U8} {h : List Event} {k k' : Kernel} {t fd : Fin 8} {ev : Event}

/-- What is about another slot is none of this one's affair. -/
theorem SlotStream.other (hs : SlotStream content h k t fd) (hev : ev.slot ≠ some (t, fd))
    (hn : k'.sched.ntasks = k.sched.ntasks) (hf : (k'.task t).files fd = (k.task t).files fd)
    (hp : ∀ n, heldNode k (t, fd) = some n → k'.nodePool n = k.nodePool n) :
    SlotStream content (ev :: h) k' t fd := by
  have hheld : heldNode k' (t, fd) = heldNode k (t, fd) := by
    unfold heldNode
    rw [hf, hn]
  refine ⟨?_, fun ino hino => ?_⟩
  · rw [openedOn_other hev, hs.inode, hheld]
    refine Option.map_congr fun n hn => ?_
    rw [hp n hn]
  · rw [openedOn_other hev] at hino
    rw [delivered_other hev, hf]
    exact hs.bytes ino hino

theorem SlotStream.opened {n : Fin 8} {node : FsNode}
    (hheld : heldNode k' (t, fd) = some n) (hf : (k'.task t).files fd = openedFd n)
    (hp : k'.nodePool n = node) :
    SlotStream content (.opened t fd node.inode :: h) k' t fd := by
  have hon : openedOn t fd (.opened t fd node.inode :: h) = some node.inode := if_pos ⟨rfl, rfl⟩
  refine ⟨?_, fun ino hino => ?_⟩
  · rw [hon, hheld, Option.map_some, hp]
  · have hnil : delivered t fd (.opened t fd node.inode :: h) = [] := if_pos ⟨rfl, rfl⟩
    rw [hnil, hf]
    exact ⟨rfl, Nat.zero_le _⟩

theorem SlotStream.closed (hheld : heldNode k' (t, fd) = none) :
    SlotStream content (.closed t fd :: h) k' t fd := by
  have hon : openedOn t fd (.closed t fd :: h) = none := if_pos ⟨rfl, rfl⟩
  refine ⟨?_, fun ino hino => ?_⟩
  · rw [hon, hheld]
    rfl
  · rw [hon] at hino
    cases hino

/-- **A read goes on where the last one ended.** -/
theorem SlotStream.read (hs : SlotStream content h k t fd) {count : U32} {bytes : List U8}
    {n : Fin 8} (hheld : heldNode k (t, fd) = some n) (hheld' : heldNode k' (t, fd) = some n)
    (hp : k'.nodePool = k.nodePool)
    (hbytes : bytes = ((content (k.nodePool n).inode).drop
      ((k.task t).files fd).offset.toNat).take count.toNat)
    (hf : ((k'.task t).files fd).offset.toNat =
      ((k.task t).files fd).offset.toNat + bytes.length) :
    SlotStream content (.read t fd count bytes :: h) k' t fd := by
  have hon : openedOn t fd (.read t fd count bytes :: h) = openedOn t fd h := rfl
  have hdel : delivered t fd (.read t fd count bytes :: h) = delivered t fd h ++ bytes :=
    if_pos ⟨rfl, rfl⟩
  have hino := hs.inode
  rw [hheld, Option.map_some] at hino
  refine ⟨by rw [hon, hino, hheld', Option.map_some, hp], fun ino hi => ?_⟩
  rw [hon, hino] at hi
  cases hi
  obtain ⟨hd, hle⟩ := hs.bytes _ hino
  rw [hdel, hd, hf, hbytes]
  generalize content (k.nodePool n).inode = l at hle ⊢
  generalize ((k.task t).files fd).offset.toNat = off at hle ⊢
  refine ⟨?_, ?_⟩
  · rw [List.take_add, List.length_take, ← List.take_eq_take_min]
  · rw [List.length_take, List.length_drop]
    omega

end Slot

/-! ## Every slot -/

/-- Every slot is where the history says. -/
structure StreamInv (disk : Disk) (vol : Volume) (h : List Event) (m : Machine) : Prop where
  mounted : m.ext2.vol = vol
  files : FileInv m.kern
  sched : SchedInv m.kern.sched
  slots : ∀ t fd, SlotStream (vol.content disk) h m.kern t fd

section Steps

variable {env : Env} {vol : Volume} {m m' : Machine} {ev : Event} {h : List Event}

theorem StepDone.mounted (hd : StepDone env m ev m') : m'.ext2.vol = m.ext2.vol := by
  cases hd with
  | still hs _ => exact hs.vol
  | keyed => rfl
  | switched => rfl
  | switchFault => rfl
  | called _ hk _ => exact hk.vol
  | killed => rfl

/-- What a read of an open descriptor delivers. -/
theorem read_content (hsound : vol.Sound) (hinv : StreamInv env.disk vol h m) {i fd n : Fin 8}
    {d : Fd} {count buf : U32} {e' : Ext2} {c : Copied Store}
    (hheld : heldNode m.kern (i, fd) = some n) (hd : (m.kern.task i).files fd = d)
    (hnode : d.node = some n) (hr : (m.kern.nodePool n).read = some .ext2NodeRead)
    (hcount : count.toNat ≤ 2 ^ 31)
    (hread : vfsRead env.guarded.disk (userStore env.guarded.link m.cr3) m.kern.nodePool m.ext2
      (m.kern, m.mem) d.node d.offset count buf = .ok (e', c)) :
    c.bytes = ((vol.content env.disk (m.kern.nodePool n).inode).drop d.offset.toNat).take
        count.toNat ∧
      d.offset.toNat + c.bytes.length ≤ (vol.content env.disk (m.kern.nodePool n).inode).length ∧
      (vol.content env.disk (m.kern.nodePool n).inode).length ≤ 12 * blkSize := by
  have hlen := content_length env.disk vol (m.kern.nodePool n).inode
  have hmax : vol.fileLen (vol.inodeAt env.disk (m.kern.nodePool n).inode) ≤ 12 * blkSize :=
    (Nat.min_le_right ..).trans (Nat.mul_le_mul_left 12 hsound.fits)
  have hoff : d.offset.toNat ≤ (vol.content env.disk (m.kern.nodePool n).inode).length := by
    have hslot := hinv.slots i fd
    have hino := hslot.inode
    rw [hheld, Option.map_some] at hino
    rw [← hd]
    exact (hslot.bytes _ hino).2
  have hpread : ext2Pread env.disk (userStore env.guarded.link m.cr3) m.ext2 (m.kern, m.mem)
      (m.kern.nodePool n).inode buf d.offset count = .ok (e', c) := by
    unfold vfsRead at hread
    rw [hnode] at hread
    simp only [hr] at hread
    exact hread
  have hbytes := ext2Pread_content (by rw [hinv.mounted]; exact hsound) hpread (by
    unfold blkSize at hmax
    omega)
  rw [hinv.mounted] at hbytes
  refine ⟨hbytes, ?_, by omega⟩
  rw [hbytes, List.length_take, List.length_drop]
  omega

/-- **Every step keeps the streams.** -/
theorem StreamInv.step (hsound : vol.Sound) (hinv : StreamInv env.disk vol h m)
    (hstep : StepDone env m ev m')
    (hcount : ∀ t fd count bytes, ev = .read t fd count bytes → count.toNat ≤ 2 ^ 31) :
    StreamInv env.disk vol (ev :: h) m' := by
  obtain ⟨hsched, hn⟩ := hstep.schedInv hinv.sched
  have hfiles := hstep.files.inv hinv.files hinv.sched hn
  refine ⟨hstep.mounted.trans hinv.mounted, hfiles, hsched, fun t fd => ?_⟩
  by_cases hev : ev.slot = some (t, fd)
  · have hd := hstep.files
    cases hd with
    | same h0 _ _ =>
      rw [h0] at hev
      cases hev
    | @opened _ r i fd' n node _ hcur hfree hu hr h3 hfd hs hp _ =>
      cases hev
      have hheld := heldNode_setFd hs (hinv.sched.cur_lt t hcur)
      refine .opened (n := n) ?_ (by rw [setFd_slot hs, if_pos ⟨rfl, rfl⟩]) ?_
      · rw [hheld, Function.update_self]
        rfl
      · rw [hp, Function.update_self]
    | @closed _ i fd' hcur h3 hu hs hp =>
      cases hev
      refine .closed ?_
      rw [heldNode_setFd hs (hinv.sched.cur_lt t hcur), Function.update_self]
      rfl
    | @read _ r i fd' d c _ hcur h3 hd hu hread hlen hs hp _ =>
      cases hev
      have ht := hinv.sched.cur_lt t hcur
      obtain ⟨n, hnode, hheld, _, hr⟩ := hinv.files.node ht (hd ▸ hu)
      rw [hd] at hnode
      obtain ⟨hbytes, hle, hmax⟩ := read_content hsound hinv hheld hd hnode hr
        (hcount _ _ _ _ rfl) hread
      refine (hinv.slots t fd).read hheld ?_ hp (by rw [hd]; exact hbytes) ?_
      · rw [heldNode_setFd hs ht, Function.update_self, if_pos hu]
        exact hnode
      · rw [setFd_slot hs, if_pos ⟨rfl, rfl⟩, hd, BitVec.toNat_add, BitVec.toNat_ofNat]
        unfold blkSize at hmax
        omega
  · obtain ⟨hf, hp⟩ := hstep.files.other hinv.files hinv.sched hev
    exact (hinv.slots t fd).other hev hn hf hp

/-- A read that delivers nothing has reached the end. -/
theorem StreamInv.read_end (hsound : vol.Sound) (hinv : StreamInv env.disk vol h m) {t fd : Fin 8}
    {count : U32} {bytes : List U8} (hstep : StepDone env m (.read t fd count bytes) m')
    {r : Regs} {f : Frame} (hres : m'.mode = .leave r f 0#32) (hpos : 0 < count.toNat)
    (hcount : count.toNat ≤ 2 ^ 31) : ∃ ino, openedOn t fd h = some ino ∧
      vol.fileLen (vol.inodeAt env.disk ino) ≤ ((m.kern.task t).files fd).offset.toNat := by
  have hfd := hstep.files
  generalize hev : Event.read t fd count bytes = ev at hfd
  cases hfd with
  | same h0 _ _ =>
    rw [← hev] at h0
    cases h0
  | opened => cases hev
  | closed => cases hev
  | @read _ r i fd' d c _ hcur h3 hd hu hread hlen hs hp hmode =>
    cases hev
    obtain ⟨n, hnode, hheld, _, hr⟩ := hinv.files.node (hinv.sched.cur_lt t hcur) (hd ▸ hu)
    rw [hd] at hnode ⊢
    obtain ⟨hbytes, hle, _⟩ := read_content hsound hinv hheld hd hnode hr hcount hread
    obtain ⟨r', f', hleave⟩ := hmode
    rw [hres, Mode.leave.injEq] at hleave
    have hnone := congrArg BitVec.toNat hleave.2.2
    rw [BitVec.toNat_ofNat, BitVec.toNat_ofNat] at hnone
    have hlength := congrArg List.length hbytes
    rw [List.length_take, List.length_drop] at hlength
    have hino := (hinv.slots t fd).inode
    rw [hheld, Option.map_some] at hino
    refine ⟨_, hino, ?_⟩
    rw [← content_length]
    omega

theorem FilesDone.names (hd : FilesDone env m ev m') {t fd : Fin 8} {ino : U32}
    (hev : ev = .opened t fd ino) : ∃ r, m.mode = .entry r ∧
      Names env.disk (env.link.behind m.kern) (m.calling.fetch env m.cr3) m.ext2 r.ebx ino := by
  cases hd with
  | same h0 _ _ =>
    rw [hev] at h0
    cases h0
  | opened hm _ _ _ _ _ _ _ _ hnames =>
    cases hev
    exact ⟨_, hm, hnames⟩
  | closed => cases hev
  | read => cases hev

end Steps

/-- **A descriptor is a sequential stream**, on every run in which no store through a user
pointer lands in the kernel's own memory and no read asks for more than 2^31 bytes,
whatever the other descriptors and tasks do. What an open descriptor has delivered is
the start of the content of the file it was opened on, up to its offset, which lies in
the content; that file is the one the path named; and a read of at least one byte
returns 0 only at the end. The content is what the volume holds as the drive presents it:
its blocks lie where `Volume.blockByte` finds them. -/
theorem streams_sequential {env : Env} {e0 : Ext2} {m0 m : Machine} {h : List Event}
    (hmount : Mountable env.disk) (hboot : ext2Boot env.disk = .ok e0)
    (hvol : m0.ext2.vol = e0.vol) (hstart : Started m0) (hrun : Run (Step env.guarded) m0 h m)
    (hcount : ∀ t fd count bytes, Event.read t fd count bytes ∈ h → count.toNat ≤ 2 ^ 31) :
    (∀ t fd : Fin 8, t.val < m.kern.sched.ntasks → ((m.kern.task t).files fd).used = true →
      ∃ ino, openedOn t fd h = some ino ∧
        delivered t fd h =
          (e0.vol.content env.disk ino).take ((m.kern.task t).files fd).offset.toNat ∧
        ((m.kern.task t).files fd).offset.toNat ≤ (e0.vol.content env.disk ino).length) ∧
    (∀ t fd ino m', Step env.guarded m (.opened t fd ino) m' → ∃ r, m.mode = .entry r ∧
      Names env.disk (env.link.behind m.kern) (m.calling.fetch env m.cr3) m.ext2 r.ebx ino) ∧
    ∀ t fd count bytes m' r f, Step env.guarded m (.read t fd count bytes) m' →
      m'.mode = .leave r f 0#32 → 0 < count.toNat → count.toNat ≤ 2 ^ 31 →
      ∃ ino, openedOn t fd h = some ino ∧
        e0.vol.fileLen (e0.vol.inodeAt env.disk ino) ≤ ((m.kern.task t).files fd).offset.toNat := by
  have hsound := hmount.sound hboot
  have hinv : StreamInv env.disk e0.vol h m := by
    revert hcount
    refine hrun.inv (fun h m => (∀ t fd count bytes, Event.read t fd count bytes ∈ h →
      count.toNat ≤ 2 ^ 31) → StreamInv env.disk e0.vol h m) (fun _ => ?_) ?_
    · refine ⟨hvol, hstart.fileInv, hstart.tasks.inv, fun t fd => ⟨?_, nofun⟩⟩
      have hnone : heldNode m0.kern (t, fd) = none := by
        by_contra hne
        obtain ⟨n, hn⟩ := Option.ne_none_iff_exists'.mp hne
        have hused := (hstart.fileInv.owned.held n).mpr ⟨_, hn⟩
        rw [hstart.nodes n] at hused
        cases hused
      rw [hnone]
      rfl
    · intro h m ev m' hI hstep hc
      refine (hI fun t fd count bytes hmem => hc t fd count bytes (List.mem_cons_of_mem _ hmem)).step
        hsound hstep.done fun t fd count bytes hev => ?_
      exact hc t fd count bytes (hev ▸ List.mem_cons_self)
  refine ⟨fun t fd ht hu => ?_, fun t fd ino m' hstep => hstep.done.files.names rfl,
    fun t fd count bytes m' r f hstep hres hpos hle =>
      hinv.read_end hsound hstep.done hres hpos hle⟩
  obtain ⟨n, _, hheld, _, _⟩ := hinv.files.node ht hu
  have hino := (hinv.slots t fd).inode
  rw [hheld, Option.map_some] at hino
  exact ⟨_, hino, (hinv.slots t fd).bytes _ hino⟩

/-- Task A has read the first word of a file to its stack. -/
theorem streams_sequential_word : ∃ env e0 m0 m, ext2Boot env.disk = .ok e0 ∧ Started m0 ∧
    Run (Step (Env.guarded env)) m0 openReadEvents m ∧
    ((m.kern.task 0).files 3).offset = 4#32 ∧
    delivered 0 3 openReadEvents = (e0.vol.content env.disk 3#32).take 4 := by
  obtain ⟨e, he, hr, hs, hb, hi⟩ := demoDisk_boot
  obtain ⟨m0, hd⟩ := demo_exists e
  have hlink : ∀ e' va, userLoad (wildEnv demoDisk).guarded.link m0.cr3 m0.kern m0.mem e' va =
      userLoad wildLink m0.cr3 m0.kern m0.mem e' va := fun _ _ => rfl
  have hstack := hd.stack (l := (wildEnv demoDisk).guarded.link) imageOwns_stack (X := 0x30FF00)
    (by omega) (by omega)
  have hst : ∀ k, ∃ mem, userStore32 (wildEnv demoDisk).guarded.link taskAPdAddr (k, m0.mem)
      (BitVec.ofNat 32 0x30FF00) 3#32 = .ok (id k, mem) := by
    intro k
    obtain ⟨mem, hmem, _⟩ := userStore32_ordinary k hstack 3#32
    exact ⟨mem, hmem⟩
  obtain ⟨m, node, hrun, hk⟩ := hd.openRead ⟨hr, hs, hb, hi⟩ rfl hlink hst
  have hslot : (m.kern.task 0).files 3 = { openedFd 0 with offset := 4#32 } := by
    rw [hk, readOn_slot, if_pos rfl, id, opened_slot, if_pos rfl]
    rfl
  have hn : (0 : Fin 8).val < m.kern.sched.ntasks := by
    rw [hk]
    show 0 < m0.kern.sched.ntasks
    rw [hd.ntasks]
    exact Nat.zero_lt_two
  have hcount : ∀ t fd count bytes, Event.read t fd count bytes ∈ openReadEvents →
      count.toNat ≤ 2 ^ 31 := by
    intro t fd count bytes hmem
    simp only [openReadEvents, List.mem_cons, List.not_mem_nil, reduceCtorEq, false_or, or_false,
      Event.read.injEq] at hmem
    rw [hmem.2.2.1]
    exact Nat.le_of_ble_eq_true rfl
  have hmount : Mountable (wildEnv demoDisk).disk := demoDisk_mountable
  have hboot : ext2Boot (wildEnv demoDisk).disk = .ok e := he
  have hvol : m0.ext2.vol = e.vol := by rw [hd.ext2]
  have hused : ((m.kern.task 0).files 3).used = true := by
    rw [hslot]
    rfl
  obtain ⟨ino, hon, hdel, _⟩ :=
    (streams_sequential hmount hboot hvol hd.booted.started hrun hcount).1 0 3 hn hused
  have hthree : openedOn 0 3 openReadEvents = some 3#32 := rfl
  rw [hthree] at hon
  cases hon
  rw [hslot, show ({ openedFd 0 with offset := 4#32 } : Fd).offset.toNat = 4 from rfl] at hdel
  exact ⟨wildEnv demoDisk, e, m0, m, he, hd.booted.started, hrun, by rw [hslot], hdel⟩

/-- **A read into its own offset**: four bytes are delivered, and the offset is seven. -/
theorem stream_overwritten : ∃ env e0 m0 m, Mountable env.disk ∧ ext2Boot env.disk = .ok e0 ∧
    m0.ext2 = e0 ∧ Started m0 ∧ Run (Step env) m0 openReadEvents m ∧
    ((m.kern.task 0).files 3).used = true ∧ openedOn 0 3 openReadEvents = some 3#32 ∧
    delivered 0 3 openReadEvents ≠
      (e0.vol.content env.disk 3#32).take ((m.kern.task 0).files 3).offset.toNat := by
  obtain ⟨e, he, hr, hs, hb, hi⟩ := demoDisk_boot
  obtain ⟨m0, hd⟩ := demo_exists e
  have hfield : fieldAt 0x110068 = some (.offset 0 3) := rfl
  have hlink : ∀ e' va, userLoad (wildEnv demoDisk).link m0.cr3 m0.kern m0.mem e' va =
      userLoad wildLink m0.cr3 m0.kern m0.mem e' va := fun _ _ => rfl
  obtain ⟨m, node, hrun, hk⟩ := hd.openRead ⟨hr, hs, hb, hi⟩ rfl hlink
    (hd.storeField rfl (by omega) (by omega) hfield)
  have hslot : (m.kern.task 0).files 3 = { openedFd 0 with offset := 7#32 } := by
    rw [hk, readOn_slot, if_pos rfl, putOffset_slot, if_pos rfl, opened_slot, if_pos rfl]
    rfl
  have hv : DemoVolume e.vol := ⟨hr, hs, hb, hi⟩
  refine ⟨wildEnv demoDisk, e, m0, m, demoDisk_mountable, he, hd.ext2, hd.booted.started, hrun,
    by rw [hslot]; rfl, rfl, fun heq => ?_⟩
  have hlen := congrArg List.length heq
  rw [hslot, List.length_take] at hlen
  have hfour : (delivered 0 3 openReadEvents).length = 4 := rfl
  have hseven : ({ openedFd 0 with offset := 7#32 } : Fd).offset.toNat = 7 := rfl
  have height : (e.vol.content (wildEnv demoDisk).disk 3#32).length = 8 := hv.content_length
  omega

end PepinOS
