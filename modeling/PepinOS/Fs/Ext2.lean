import PepinOS.Lib.Mem
import PepinOS.Lib.Fault
import PepinOS.Drivers.Ide

/-!
# The ext2 driver

`fs/ext2.c`: mounting, block and inode reads, the walk through a directory block
and the positioned read behind `SYS_READ`. The variables `ext2_init` sets
(`Volume`) are apart from the two block buffers, which every call uses again.

A computation can end without a result. `exception` is a processor exception in
the kernel: a division by zero here, a page fault where a user pointer is
followed; its handler never returns. `untracked` is where the model stops: a
block of more than 4096 bytes, which runs over the end of the buffer into
whatever the linker put there. A call that comes to it is no step of the machine, so
of a volume with such blocks a run says nothing from there on.

A path is read through `fetch`, a byte of user memory or a fault, and the bytes
that come after `blk_b` in memory, which a record at the end of a directory
block makes the walk look at, through `behind`; both may depend on the buffers.
-/

namespace PepinOS

/-- How a computation of the kernel ends when it has no result. -/
inductive Trap where
  | exception
  | untracked
  deriving DecidableEq

/-- What mounting sets. `bgd` is the first block group descriptor, as bytes. -/
structure Volume where
  blockSize : U32
  inodeSize : U32
  inodesPerGroup : U32
  bgd : Nat → U8
  partLba : U32

/-- The static variables of `ext2.c`. -/
structure Ext2 where
  vol : Volume
  blkA : Nat → U8
  blkB : Nat → U8

def ext2Magic : U16 := 0xEF53#16
def ext2RootInode : U32 := 2#32

/-- `sizeof blk_a`, `sizeof blk_b`. -/
def blkSize : Nat := 4096

def Volume.bgInodeTable (vol : Volume) : U32 := load32 vol.bgd 8

/-- `ext2_inode_t`: the 128 bytes. -/
abbrev Inode := Nat → U8

def Inode.iSize (i : Inode) : U32 := load32 i 4
def Inode.iBlock (i : Inode) (k : Nat) : U32 := load32 i (40 + 4 * k)

/-! ## Blocks and inodes -/

def Volume.sects (vol : Volume) : Nat := (vol.blockSize / 512#32).toNat

theorem Volume.sects_eq (vol : Volume) : vol.sects = vol.blockSize.toNat / 512 := by
  unfold Volume.sects
  rw [BitVec.toNat_udiv]
  rfl

/-- `ext2_read_block`. -/
def ext2ReadBlock (disk : Disk) (vol : Volume) (block : U32) (buf : Nat → U8) :
    Except Trap (Nat → U8) :=
  let lba := vol.partLba + block * BitVec.ofNat 32 vol.sects
  if vol.sects * 512 ≤ blkSize then
    .ok (forRange 0 vol.sects (fun i b =>
      patch b (i * 512) 512 (ideReadSector disk (lba + BitVec.ofNat 32 i))) buf)
  else .error .untracked

/-- The static variables before mounting, `part_lba` set by `ext2_set_partition`. -/
def ext2Unmounted (partLba : U32) : Ext2 where
  vol := ⟨0#32, 0#32, 0#32, fun _ => 0#8, partLba⟩
  blkA := fun _ => 0#8
  blkB := fun _ => 0#8

/-- `ext2_init`, its messages apart. -/
def ext2Init (disk : Disk) (e : Ext2) : Except Trap Ext2 := do
  let sb := ideReadSector disk (e.vol.partLba + 2#32)
  let magic := load16 sb 56
  let logBsz := load32 sb 24
  let rev := load32 sb 76
  let firstData := load32 sb 20
  let sbInodeSz := load16 sb 88
  let vol := { e.vol with inodesPerGroup := load32 sb 40 }
  if magic ≠ ext2Magic then return { e with vol := vol }
  let vol := { vol with
    -- the processor takes a shift count modulo 32
    blockSize := 1024#32 <<< (logBsz.toNat % 32)
    inodeSize := if 1#32 ≤ rev ∧ 128#16 ≤ sbInodeSz then sbInodeSz.setWidth 32 else 128#32 }
  let blkA ← ext2ReadBlock disk vol (firstData + 1#32) e.blkA
  return { e with
    vol := { vol with bgd := fun i => if i < 32 then blkA i else vol.bgd i }
    blkA := blkA }

/-- `ext2_read_inode`. It leaves the block in `blk_a`. -/
def ext2ReadInode (disk : Disk) (e : Ext2) (inum : U32) : Except Trap (Ext2 × Inode) := do
  let idx := inum - 1#32
  if e.vol.inodeSize = 0#32 then throw .exception
  let ipb := e.vol.blockSize / e.vol.inodeSize
  if ipb = 0#32 then throw .exception
  let block := e.vol.bgInodeTable + idx / ipb
  let offset := (idx % ipb) * e.vol.inodeSize
  let blkA ← ext2ReadBlock disk e.vol block e.blkA
  return ({ e with blkA := blkA }, fun i => blkA (offset.toNat + i))

/-- `ext2_inode_size`. -/
def ext2InodeSize (disk : Disk) (e : Ext2) (inum : U32) : Except Trap (Ext2 × U32) := do
  let (e, inode) ← ext2ReadInode disk e inum
  return (e, inode.iSize)

/-! ## Directories -/

/-- The bytes the walk sees from `blk_b` on. -/
def dirBytes (behind : Ext2 → Nat → U8) (e : Ext2) (i : Nat) : U8 :=
  if i < blkSize then e.blkB i else behind e i

/-- `ext2_dirent_t` at an offset of the block. -/
def deInode (b : Nat → U8) (off : Nat) : U32 := load32 b off
def deRecLen (b : Nat → U8) (off : Nat) : Nat := (load16 b (off + 4)).toNat
def deName (b : Nat → U8) (off : Nat) : List U8 :=
  (List.range (b (off + 6)).toNat).map fun j => b (off + 8 + j)

/-- The comparison loop of `ext2_find`: the entry's name against the string at `p`. -/
def dirMatch (fetch : U32 → Except Trap U8) : List U8 → U32 → Except Trap Bool
  | [], p => do return (← fetch p) == 0#8
  | b :: name, p => do
    let c ← fetch p
    if c == 0#8 || c != b then return false
    dirMatch fetch name (p + 1#32)

/-- The loop of `ext2_find` from offset `off` on. Each turn moves on by at least one
byte, so `block_size` turns are enough. -/
def findLoop (fetch : U32 → Except Trap U8) (b : Nat → U8) (iSize blockSize : Nat) (name : U32) :
    Nat → Nat → Except Trap U32
  | 0, _ => return 0#32
  | n + 1, off =>
    if off < iSize ∧ off < blockSize then do
      if deRecLen b off = 0 then return 0#32
      if deInode b off ≠ 0#32 then
        if ← dirMatch fetch (deName b off) name then return deInode b off
      findLoop fetch b iSize blockSize name n (off + deRecLen b off)
    else return 0#32

/-- The two reads both directory functions begin with. -/
def ext2ReadDir (disk : Disk) (e : Ext2) (dirIno : U32) : Except Trap (Ext2 × Inode) := do
  let (e, inode) ← ext2ReadInode disk e dirIno
  let blkB ← ext2ReadBlock disk e.vol (inode.iBlock 0) e.blkB
  return ({ e with blkB := blkB }, inode)

/-- `ext2_find`: the inode number, 0 when there is no such entry. -/
def ext2Find (disk : Disk) (behind : Ext2 → Nat → U8) (fetch : Ext2 → U32 → Except Trap U8)
    (e : Ext2) (dirIno name : U32) : Except Trap (Ext2 × U32) := do
  let (e, inode) ← ext2ReadDir disk e dirIno
  let ino ← findLoop (fetch e) (dirBytes behind e) inode.iSize.toNat e.vol.blockSize.toNat name
    e.vol.blockSize.toNat 0
  return (e, ino)

/-- The names `ext2_ls` prints. -/
def lsLoop (b : Nat → U8) (iSize blockSize : Nat) : Nat → Nat → List (List U8)
  | 0, _ => []
  | n + 1, off =>
    if off < iSize ∧ off < blockSize then
      if deRecLen b off = 0 then []
      else
        (if deInode b off ≠ 0#32 then [deName b off] else []) ++
          lsLoop b iSize blockSize n (off + deRecLen b off)
    else []

def ext2Ls (disk : Disk) (behind : Ext2 → Nat → U8) (e : Ext2) (dirIno : U32) :
    Except Trap (Ext2 × List (List U8)) := do
  let (e, inode) ← ext2ReadDir disk e dirIno
  return (e, lsLoop (dirBytes behind e) inode.iSize.toNat e.vol.blockSize.toNat
    e.vol.blockSize.toNat 0)

/-! ## The positioned read

Where `buf` lies is the caller's affair: `store` puts a byte at an address of a
state `M`, and may fault. -/

section Pread

variable {M : Type}

/-- The caller's state and the bytes stored so far, `copied` of them. -/
structure Copied (M : Type) where
  port : M
  bytes : List U8

/-- The inner loop: `for (j = ...; j < block_size && copied < size; j++)`, `n` turns left. -/
def copyBlock (store : M → U32 → U8 → Except Trap M) (buf : U32) (size : Nat) (src : Nat → U8) :
    Nat → Nat → Copied M → Except Trap (Copied M)
  | 0, _, s => .ok s
  | n + 1, j, s =>
    if s.bytes.length < size then do
      let port ← store s.port (buf + BitVec.ofNat 32 s.bytes.length) (src j)
      copyBlock store buf size src n (j + 1) ⟨port, s.bytes ++ [src j]⟩
    else .ok s

/-- The outer loop from block `blk` on, `n` direct blocks left. -/
def preadLoop (disk : Disk) (store : M → U32 → U8 → Except Trap M) (inode : Inode) (buf : U32)
    (size : Nat) : Nat → Nat → Nat → Ext2 → Copied M → Except Trap (Ext2 × Copied M)
  | 0, _, _, e, s => .ok (e, s)
  | n + 1, blk, blkOff, e, s =>
    if s.bytes.length < size then do
      let turns := e.vol.blockSize.toNat - blkOff
      if inode.iBlock blk = 0#32 then
        let s ← copyBlock store buf size (fun _ => 0#8) turns blkOff s
        preadLoop disk store inode buf size n (blk + 1) 0 e s
      else
        let blkA ← ext2ReadBlock disk e.vol (inode.iBlock blk) e.blkA
        let s ← copyBlock store buf size blkA turns blkOff s
        preadLoop disk store inode buf size n (blk + 1) 0 { e with blkA := blkA } s
    else .ok (e, s)

/-- `ext2_pread`. The result of the source is the number of bytes stored. -/
def ext2Pread (disk : Disk) (store : M → U32 → U8 → Except Trap M) (e : Ext2) (m : M)
    (inum buf offset size : U32) : Except Trap (Ext2 × Copied M) := do
  let (e, inode) ← ext2ReadInode disk e inum
  let fileSize := inode.iSize
  if offset ≥ fileSize then return (e, ⟨m, []⟩)
  let size := if offset + size > fileSize then fileSize - offset else size
  let blk := (offset / e.vol.blockSize).toNat
  preadLoop disk store inode buf size.toNat (12 - blk) blk (offset % e.vol.blockSize).toNat e
    ⟨m, []⟩

end Pread

/-! ## What the calls leave alone

No call but `ext2_init` touches the mounted volume. -/

theorem ext2ReadBlock_sects {disk : Disk} {vol : Volume} {block : U32} {buf buf' : Nat → U8}
    (h : ext2ReadBlock disk vol block buf = .ok buf') : vol.sects * 512 ≤ blkSize := by
  simp only [ext2ReadBlock] at h
  split at h
  next hs => exact hs
  next => cases h

theorem ext2ReadBlock_fits (disk : Disk) {vol : Volume} (block : U32) (buf : Nat → U8)
    (hfit : vol.sects * 512 ≤ blkSize) : ∃ buf', ext2ReadBlock disk vol block buf = .ok buf' := by
  unfold ext2ReadBlock
  simp only [if_pos hfit]
  exact ⟨_, rfl⟩

theorem ext2ReadInode_ok {disk : Disk} {e e' : Ext2} {inum : U32} {inode : Inode}
    (h : ext2ReadInode disk e inum = .ok (e', inode)) :
    e.vol.inodeSize ≠ 0#32 ∧ e.vol.blockSize / e.vol.inodeSize ≠ 0#32 ∧
    ∃ blkA, ext2ReadBlock disk e.vol (e.vol.bgInodeTable +
        (inum - 1#32) / (e.vol.blockSize / e.vol.inodeSize)) e.blkA = .ok blkA ∧
      e' = { e with blkA := blkA } ∧
      inode = fun i => blkA ((((inum - 1#32) % (e.vol.blockSize / e.vol.inodeSize)) *
        e.vol.inodeSize).toNat + i) := by
  simp only [ext2ReadInode] at h
  split at h
  next => cases h
  next h0 =>
    split at h
    next => cases h
    next h1 =>
      obtain ⟨blkA, hb, hr⟩ := bind_ok h
      cases hr
      exact ⟨h0, h1, blkA, hb, rfl, rfl⟩

theorem ext2ReadInode_vol {disk : Disk} {e e' : Ext2} {inum : U32} {inode : Inode}
    (h : ext2ReadInode disk e inum = .ok (e', inode)) : e'.vol = e.vol := by
  obtain ⟨_, _, _, _, rfl, _⟩ := ext2ReadInode_ok h
  rfl

theorem ext2InodeSize_vol {disk : Disk} {e e' : Ext2} {inum size : U32}
    (h : ext2InodeSize disk e inum = .ok (e', size)) : e'.vol = e.vol := by
  obtain ⟨⟨e1, inode⟩, h1, hr⟩ := bind_ok h
  cases hr
  exact ext2ReadInode_vol h1

theorem ext2ReadDir_vol {disk : Disk} {e e' : Ext2} {dirIno : U32} {inode : Inode}
    (h : ext2ReadDir disk e dirIno = .ok (e', inode)) : e'.vol = e.vol := by
  obtain ⟨⟨e1, inode1⟩, h1, h⟩ := bind_ok h
  obtain ⟨blkB, _, hr⟩ := bind_ok h
  cases hr
  show e1.vol = e.vol
  exact ext2ReadInode_vol h1

theorem ext2Find_vol {disk : Disk} {behind : Ext2 → Nat → U8}
    {fetch : Ext2 → U32 → Except Trap U8} {e e' : Ext2} {dirIno name ino : U32}
    (h : ext2Find disk behind fetch e dirIno name = .ok (e', ino)) : e'.vol = e.vol := by
  obtain ⟨⟨e1, inode⟩, h1, h⟩ := bind_ok h
  obtain ⟨_, _, hr⟩ := bind_ok h
  cases hr
  exact ext2ReadDir_vol h1

theorem ext2Ls_vol {disk : Disk} {behind : Ext2 → Nat → U8} {e e' : Ext2} {dirIno : U32}
    {names : List (List U8)} (h : ext2Ls disk behind e dirIno = .ok (e', names)) :
    e'.vol = e.vol := by
  obtain ⟨⟨e1, inode⟩, h1, hr⟩ := bind_ok h
  cases hr
  exact ext2ReadDir_vol h1

section PreadKeeps

variable {M : Type} {store : M → U32 → U8 → Except Trap M} {P : M → Prop} {disk : Disk}

/-- What every store keeps, the inner loop keeps; it stores at most one byte a turn. -/
theorem copyBlock_keeps (hstore : ∀ m va b m', P m → store m va b = .ok m' → P m') {buf : U32}
    {size : Nat} {src : Nat → U8} : ∀ {n j : Nat} {s s' : Copied M},
    copyBlock store buf size src n j s = .ok s' → P s.port →
      P s'.port ∧ s'.bytes.length ≤ s.bytes.length + n := by
  intro n
  induction n with
  | zero =>
    intro j s s' h hP
    cases h
    exact ⟨hP, by omega⟩
  | succ n ih =>
    intro j s s' h hP
    rw [copyBlock] at h
    split at h
    next =>
      obtain ⟨port, hs, h⟩ := bind_ok h
      obtain ⟨hP', hlen⟩ := ih h (hstore _ _ _ _ hP hs)
      rw [List.length_append, List.length_singleton] at hlen
      exact ⟨hP', by omega⟩
    next =>
      cases h
      exact ⟨hP, by omega⟩

theorem preadLoop_keeps (hstore : ∀ m va b m', P m → store m va b = .ok m' → P m') {inode : Inode}
    {buf : U32} {size : Nat} : ∀ {n blk blkOff : Nat} {e e' : Ext2} {s s' : Copied M},
    preadLoop disk store inode buf size n blk blkOff e s = .ok (e', s') → P s.port →
      P s'.port ∧ e'.vol = e.vol ∧
        s'.bytes.length ≤ s.bytes.length + n * e.vol.blockSize.toNat := by
  intro n
  induction n with
  | zero =>
    intro blk blkOff e e' s s' h hP
    cases h
    exact ⟨hP, rfl, by omega⟩
  | succ n ih =>
    intro blk blkOff e e' s s' h hP
    rw [preadLoop] at h
    split at h
    next =>
      simp only at h
      split at h
      next =>
        obtain ⟨s1, h1, h⟩ := bind_ok h
        obtain ⟨hP1, hl1⟩ := copyBlock_keeps hstore h1 hP
        obtain ⟨hP', hv, hl⟩ := ih h hP1
        refine ⟨hP', hv, ?_⟩
        rw [Nat.succ_mul]
        omega
      next =>
        obtain ⟨blkA, _, h⟩ := bind_ok h
        obtain ⟨s1, h1, h⟩ := bind_ok h
        obtain ⟨hP1, hl1⟩ := copyBlock_keeps hstore h1 hP
        obtain ⟨hP', hv, hl⟩ := ih h hP1
        refine ⟨hP', hv, ?_⟩
        simp only at hl
        rw [Nat.succ_mul]
        omega
    next =>
      cases h
      exact ⟨hP, rfl, by omega⟩

/-- A positioned read keeps what its stores keep, and stores less than 2^16 bytes. -/
theorem ext2Pread_keeps (hstore : ∀ m va b m', P m → store m va b = .ok m' → P m') {e e' : Ext2}
    {m : M} {inum buf offset size : U32} {c : Copied M}
    (h : ext2Pread disk store e m inum buf offset size = .ok (e', c)) (hP : P m) :
    P c.port ∧ e'.vol = e.vol ∧ c.bytes.length < 65536 := by
  obtain ⟨⟨e1, inode⟩, h1, h⟩ := bind_ok h
  have hvol := ext2ReadInode_vol h1
  simp only at h
  split at h
  next =>
    cases h
    exact ⟨hP, hvol, by simp⟩
  next =>
    obtain ⟨hP', hv, hlen⟩ := preadLoop_keeps hstore h hP
    refine ⟨hP', hv.trans hvol, ?_⟩
    -- reading the inode has shown that a block fits the buffer
    obtain ⟨_, _, blkA, hblk, _⟩ := ext2ReadInode_ok h1
    have hs := ext2ReadBlock_sects hblk
    rw [e.vol.sects_eq] at hs
    unfold blkSize at hs
    have hbs : e1.vol.blockSize.toNat ≤ 4607 := by
      rw [hvol]
      omega
    rw [List.length_nil] at hlen
    have hmul : (12 - (offset / e1.vol.blockSize).toNat) * e1.vol.blockSize.toNat ≤ 12 * 4607 :=
      Nat.mul_le_mul (Nat.sub_le _ _) hbs
    omega

/-! ### The rule for the copy loops

An assertion about the state and the bytes stored so far that every store carries to the
next byte. -/

variable {Q : Copied M → Prop} {buf : U32}

theorem copyBlock_ind {size : Nat} {src : Nat → U8}
    (hstore : ∀ s b port, Q s → s.bytes.length < size →
      store s.port (buf + BitVec.ofNat 32 s.bytes.length) b = .ok port → Q ⟨port, s.bytes ++ [b]⟩) :
    ∀ {n j : Nat} {s s' : Copied M}, copyBlock store buf size src n j s = .ok s' → Q s → Q s' := by
  intro n
  induction n with
  | zero =>
    intro j s s' h hQ
    cases h
    exact hQ
  | succ n ih =>
    intro j s s' h hQ
    rw [copyBlock] at h
    split at h
    next hlt =>
      obtain ⟨port, hs, h⟩ := bind_ok h
      exact ih h (hstore s _ port hQ hlt hs)
    next =>
      cases h
      exact hQ

theorem preadLoop_ind {inode : Inode} {size : Nat}
    (hstore : ∀ s b port, Q s → s.bytes.length < size →
      store s.port (buf + BitVec.ofNat 32 s.bytes.length) b = .ok port → Q ⟨port, s.bytes ++ [b]⟩) :
    ∀ {n blk blkOff : Nat} {e e' : Ext2} {s s' : Copied M},
      preadLoop disk store inode buf size n blk blkOff e s = .ok (e', s') → Q s → Q s' := by
  intro n
  induction n with
  | zero =>
    intro blk blkOff e e' s s' h hQ
    cases h
    exact hQ
  | succ n ih =>
    intro blk blkOff e e' s s' h hQ
    rw [preadLoop] at h
    split at h
    next =>
      simp only at h
      split at h
      next =>
        obtain ⟨s1, h1, h⟩ := bind_ok h
        exact ih h (copyBlock_ind hstore h1 hQ)
      next =>
        obtain ⟨blkA, _, h⟩ := bind_ok h
        obtain ⟨s1, h1, h⟩ := bind_ok h
        exact ih h (copyBlock_ind hstore h1 hQ)
    next =>
      cases h
      exact hQ

theorem ext2Pread_ind {e e' : Ext2} {m : M} {inum offset size : U32} {c : Copied M}
    (hstore : ∀ s b port, Q s → s.bytes.length < 2 ^ 32 →
      store s.port (buf + BitVec.ofNat 32 s.bytes.length) b = .ok port → Q ⟨port, s.bytes ++ [b]⟩)
    (h : ext2Pread disk store e m inum buf offset size = .ok (e', c)) (h0 : Q ⟨m, []⟩) : Q c := by
  obtain ⟨⟨e1, inode⟩, h1, h⟩ := bind_ok h
  simp only at h
  split at h
  next =>
    cases h
    exact h0
  next =>
    exact preadLoop_ind (fun s b port hQ hlt => hstore s b port hQ (hlt.trans (BitVec.isLt _))) h h0

end PreadKeeps

end PepinOS
