import PepinOS.Fs.Ext2

/-!
# Mounting whatever the disk holds

`kmain` looks for an ext2 partition in the MBR, mounts it and goes on:
`ext2_init` returns nothing, so its caller cannot know that the magic number was
wrong. The driver's divisors are then still the zeros they were at the start, and
the listing of the root directory that follows divides by them.

Here the whole of `ext2.c` is run on an arbitrary disk: the boot sequence and
after it any list of calls. Where the caller's buffers and strings lie is left
open. `peek` reads a byte of the caller's memory `M`, `poke` writes one, neither
faults, and the driver's own variables are not among what they reach. So an
`exception` of such a run can only be a division by zero.

`mount_iff` says on which disks there is none.
-/

namespace PepinOS

/-- `mbr_find_partition`. -/
def mbrFindPartition (disk : Disk) : U32 :=
  let mbr := ideReadSector disk 0#32
  if mbr 510 ≠ 0x55#8 ∨ mbr 511 ≠ 0xAA#8 then 0#32
  else
    match (List.range 4).find? fun i => mbr (0x1BE + i * 16 + 4) == 0x83#8 with
    | none => 0#32
    | some i =>
      let entry := 0x1BE + i * 16
      (mbr (entry + 8)).setWidth 32 ||| (mbr (entry + 9)).setWidth 32 <<< 8 |||
        (mbr (entry + 10)).setWidth 32 <<< 16 ||| (mbr (entry + 11)).setWidth 32 <<< 24

/-- The mounting part of `kmain`. -/
def ext2Boot (disk : Disk) : Except Trap Ext2 :=
  ext2Init disk (ext2Unmounted (mbrFindPartition disk))

/-! ## Reading a file from its start -/

section ReadFile

variable {M : Type}

/-- `for (j = 0; j < bytes; j++) buf[copied + j] = src[j]`, `n` turns left. -/
def copyBytes (store : M → U32 → U8 → Except Trap M) (buf : U32) (src : Nat → U8) :
    Nat → Nat → M → Except Trap M
  | 0, _, m => .ok m
  | n + 1, j, m => do
    let m ← store m (buf + BitVec.ofNat 32 j) (src j)
    copyBytes store buf src n (j + 1) m

/-- The loop of `ext2_read_file` from block `blk` on, `n` direct blocks left. -/
def readFileLoop (disk : Disk) (store : M → U32 → U8 → Except Trap M) (inode : Inode)
    (buf size : U32) : Nat → Nat → Ext2 → M → U32 → Except Trap (Ext2 × M × U32)
  | 0, _, e, m, copied => .ok (e, m, copied)
  | n + 1, blk, e, m, copied =>
    if copied < size then do
      let bytes := if copied + e.vol.blockSize > size then size - copied else e.vol.blockSize
      if inode.iBlock blk = 0#32 then
        let m ← copyBytes store (buf + copied) (fun _ => 0#8) bytes.toNat 0 m
        readFileLoop disk store inode buf size n (blk + 1) e m (copied + bytes)
      else
        let blkA ← ext2ReadBlock disk e.vol (inode.iBlock blk) e.blkA
        let m ← copyBytes store (buf + copied) blkA bytes.toNat 0 m
        readFileLoop disk store inode buf size n (blk + 1) { e with blkA := blkA } m
          (copied + bytes)
    else .ok (e, m, copied)

/-- `ext2_read_file`. -/
def ext2ReadFile (disk : Disk) (store : M → U32 → U8 → Except Trap M) (e : Ext2) (m : M)
    (inum buf maxSize : U32) : Except Trap (Ext2 × M × U32) := do
  let (e, inode) ← ext2ReadInode disk e inum
  let size := if inode.iSize < maxSize then inode.iSize else maxSize
  readFileLoop disk store inode buf size 12 0 e m 0#32

end ReadFile

/-! ## Any calls after the boot -/

/-- The driver's functions with their arguments. -/
inductive Ext2Call where
  | ls (dirIno : U32)
  | find (dirIno name : U32)
  | inodeSize (inum : U32)
  | readFile (inum buf maxSize : U32)
  | pread (inum buf offset size : U32)

section Calls

variable {M : Type} (disk : Disk) (peek : M → Ext2 → U32 → U8) (behind : M → Ext2 → Nat → U8)
  (poke : M → U32 → U8 → M)

def Ext2Call.run (s : Ext2 × M) : Ext2Call → Except Trap (Ext2 × M)
  | .ls dirIno => do return ((← ext2Ls disk (behind s.2) s.1 dirIno).1, s.2)
  | .find dirIno name => do
    let fetch e va := .ok (peek s.2 e va)
    return ((← ext2Find disk (behind s.2) fetch s.1 dirIno name).1, s.2)
  | .inodeSize inum => do return ((← ext2InodeSize disk s.1 inum).1, s.2)
  | .readFile inum buf maxSize => do
    let (e, m, _) ← ext2ReadFile disk (fun m va b => .ok (poke m va b)) s.1 s.2 inum buf maxSize
    return (e, m)
  | .pread inum buf offset size => do
    let (e, c) ← ext2Pread disk (fun m va b => .ok (poke m va b)) s.1 s.2 inum buf offset size
    return (e, c.port)

def runCalls : List Ext2Call → Ext2 × M → Except Trap (Ext2 × M)
  | [], s => .ok s
  | c :: calls, s => do
    let s ← c.run disk peek behind poke s
    runCalls calls s

/-- The boot, then the calls. -/
def bootThen (calls : List Ext2Call) (m : M) : Except Trap (Ext2 × M) := do
  let e ← ext2Boot disk
  runCalls disk peek behind poke calls (e, m)

end Calls

/-! ## What the superblock says -/

def superblock (disk : Disk) : Nat → U8 := ideReadSector disk (mbrFindPartition disk + 2#32)

/-- `block_size`, from `s_log_block_size`. -/
def sbBlockSize (sb : Nat → U8) : U32 := 1024#32 <<< ((load32 sb 24).toNat % 32)

/-- `inode_size`, from `s_rev_level` and `s_inode_size`. -/
def sbInodeSize (sb : Nat → U8) : U32 :=
  if 1#32 ≤ load32 sb 76 ∧ 128#16 ≤ load16 sb 88 then (load16 sb 88).setWidth 32 else 128#32

/-- The disks the driver is fit for: the magic number is right, a block fits the
buffers, and an inode fits a block. -/
structure Mountable (disk : Disk) : Prop where
  magic : load16 (superblock disk) 56 = ext2Magic
  block : (sbBlockSize (superblock disk)).toNat ≤ blkSize
  inode : sbInodeSize (superblock disk) ≤ sbBlockSize (superblock disk)

/-- The disks whose block runs over the end of `blk_a` already while mounting. -/
def Overruns (disk : Disk) : Prop :=
  load16 (superblock disk) 56 = ext2Magic ∧ blkSize < (sbBlockSize (superblock disk)).toNat

/-- A block size is a power of two from 1024 on, or has been shifted out of the word. -/
theorem sbBlockSize_fits {sb : Nat → U8} :
    (sbBlockSize sb).toNat / 512 * 512 ≤ blkSize ↔ (sbBlockSize sb).toNat ≤ blkSize := by
  have hall : ∀ k < 32, (1024#32 <<< k).toNat / 512 * 512 ≤ 4096 →
      (1024#32 <<< k).toNat ≤ 4096 := by decide
  constructor
  · exact hall _ (Nat.mod_lt _ (by omega))
  · intro h
    exact (Nat.div_mul_le_self _ _).trans h

theorem sbInodeSize_ge (sb : Nat → U8) : 128 ≤ (sbInodeSize sb).toNat := by
  unfold sbInodeSize
  split
  next h =>
    have hge : 128 ≤ (load16 sb 88).toNat := h.2
    rw [BitVec.toNat_setWidth_of_le (by omega)]
    exact hge
  next => exact Nat.le_refl 128

/-! ## A volume that can be read -/

/-- What every call of the driver needs of the variables: a block fits the buffers and
neither divisor is zero. -/
structure Volume.Readable (vol : Volume) : Prop where
  fits : vol.sects * 512 ≤ blkSize
  inode : vol.inodeSize ≠ 0#32
  perBlock : vol.blockSize / vol.inodeSize ≠ 0#32

section Readable

variable {M : Type} (disk : Disk) {e : Ext2}

theorem Volume.Readable.block {vol : Volume} (h : vol.Readable) (block : U32) (buf : Nat → U8) :
    ∃ buf', ext2ReadBlock disk vol block buf = .ok buf' :=
  ext2ReadBlock_fits disk block buf h.fits

theorem Volume.Readable.readInode (h : e.vol.Readable) (inum : U32) :
    ∃ e' inode, ext2ReadInode disk e inum = .ok (e', inode) := by
  obtain ⟨blkA, hb⟩ := h.block disk
    (e.vol.bgInodeTable + (inum - 1#32) / (e.vol.blockSize / e.vol.inodeSize)) e.blkA
  unfold ext2ReadInode
  simp only [if_neg h.inode, if_neg h.perBlock, hb]
  exact ⟨_, _, rfl⟩

theorem Volume.Readable.readDir (h : e.vol.Readable) (dirIno : U32) :
    ∃ e' inode, ext2ReadDir disk e dirIno = .ok (e', inode) := by
  obtain ⟨e1, inode, h1⟩ := h.readInode disk dirIno
  have hv := ext2ReadInode_vol h1
  obtain ⟨blkB, hb⟩ := (hv ▸ h).block disk (inode.iBlock 0) e1.blkB
  unfold ext2ReadDir
  simp only [h1, ok_bind, hb]
  exact ⟨_, _, rfl⟩

/-- A string that can be read is compared without a fault. -/
theorem dirMatch_total (peek : U32 → U8) : ∀ (name : List U8) (p : U32),
    ∃ b, dirMatch (fun va => .ok (peek va)) name p = .ok b
  | [], p => ⟨_, rfl⟩
  | b :: name, p => by
    simp only [dirMatch, ok_bind]
    split
    next => exact ⟨false, rfl⟩
    next => exact dirMatch_total peek name (p + 1#32)

theorem findLoop_total (peek : U32 → U8) (b : Nat → U8) (iSize blockSize : Nat) (name : U32) :
    ∀ n off, ∃ ino, findLoop (fun va => .ok (peek va)) b iSize blockSize name n off = .ok ino := by
  intro n
  induction n with
  | zero => exact fun off => ⟨0#32, rfl⟩
  | succ n ih =>
    intro off
    rw [findLoop]
    split
    next =>
      split
      next => exact ⟨0#32, rfl⟩
      next =>
        split
        next =>
          obtain ⟨found, hm⟩ := dirMatch_total peek (deName b off) name
          simp only [hm, ok_bind]
          cases found with
          | true => exact ⟨deInode b off, rfl⟩
          | false => exact ih _
        next => exact ih _
    next => exact ⟨0#32, rfl⟩

theorem copyBytes_total (poke : M → U32 → U8 → M) (buf : U32) (src : Nat → U8) :
    ∀ n j m, ∃ m', copyBytes (fun m va b => .ok (poke m va b)) buf src n j m = .ok m' := by
  intro n
  induction n with
  | zero => exact fun j m => ⟨m, rfl⟩
  | succ n ih => exact fun j m => ih (j + 1) _

theorem readFileLoop_total (poke : M → U32 → U8 → M) (inode : Inode) (buf size : U32) :
    ∀ (n blk : Nat) (e : Ext2) (m : M) (copied : U32), e.vol.Readable →
      ∃ e' m' copied', readFileLoop disk (fun m va b => .ok (poke m va b)) inode buf size n blk e m
        copied = .ok (e', m', copied') ∧ e'.vol = e.vol := by
  intro n
  induction n with
  | zero => exact fun blk e m copied _ => ⟨e, m, copied, rfl, rfl⟩
  | succ n ih =>
    intro blk e m copied hr
    rw [readFileLoop]
    split
    next =>
      generalize (if copied + e.vol.blockSize > size then size - copied else e.vol.blockSize) = bytes
      split
      next =>
        obtain ⟨m1, h1⟩ := copyBytes_total poke (buf + copied) (fun _ => 0#8) bytes.toNat 0 m
        simp only [h1, ok_bind]
        exact ih (blk + 1) e m1 (copied + bytes) hr
      next =>
        obtain ⟨blkA, hb⟩ := hr.block disk (inode.iBlock blk) e.blkA
        obtain ⟨m1, h1⟩ := copyBytes_total poke (buf + copied) blkA bytes.toNat 0 m
        simp only [hb, h1, ok_bind]
        exact ih (blk + 1) { e with blkA := blkA } m1 (copied + bytes) hr
    next => exact ⟨e, m, copied, rfl, rfl⟩

section Pread

variable {store : M → U32 → U8 → Except Trap M} {buf : U32} {Q : Copied M → Prop}

/-- A copy goes through where its stores do, one after the other. -/
theorem copyBlock_total {size : Nat} (src : Nat → U8)
    (hstore : ∀ s b, Q s → s.bytes.length < size →
      ∃ port, store s.port (buf + BitVec.ofNat 32 s.bytes.length) b = .ok port ∧
        Q ⟨port, s.bytes ++ [b]⟩) :
    ∀ n j s, Q s → ∃ s', copyBlock store buf size src n j s = .ok s' ∧ Q s' := by
  intro n
  induction n with
  | zero => exact fun j s hQ => ⟨s, rfl, hQ⟩
  | succ n ih =>
    intro j s hQ
    rw [copyBlock]
    split
    next hlt =>
      obtain ⟨port, hport, hQ'⟩ := hstore s (src j) hQ hlt
      rw [hport, ok_bind]
      exact ih (j + 1) _ hQ'
    next => exact ⟨s, rfl, hQ⟩

theorem preadLoop_total (inode : Inode) {size : Nat}
    (hstore : ∀ s b, Q s → s.bytes.length < size →
      ∃ port, store s.port (buf + BitVec.ofNat 32 s.bytes.length) b = .ok port ∧
        Q ⟨port, s.bytes ++ [b]⟩) :
    ∀ (n blk blkOff : Nat) (e : Ext2) (s : Copied M), e.vol.Readable → Q s →
      ∃ e' s', preadLoop disk store inode buf size n blk blkOff e s = .ok (e', s') ∧
        e'.vol = e.vol ∧ Q s' := by
  intro n
  induction n with
  | zero => exact fun blk blkOff e s _ hQ => ⟨e, s, rfl, rfl, hQ⟩
  | succ n ih =>
    intro blk blkOff e s hr hQ
    rw [preadLoop]
    split
    next =>
      split
      next =>
        obtain ⟨s1, h1, hQ1⟩ := copyBlock_total (fun _ => 0#8) hstore
          (e.vol.blockSize.toNat - blkOff) blkOff s hQ
        simp only [h1, ok_bind]
        exact ih (blk + 1) 0 e s1 hr hQ1
      next =>
        obtain ⟨blkA, hb⟩ := hr.block disk (inode.iBlock blk) e.blkA
        obtain ⟨s1, h1, hQ1⟩ := copyBlock_total blkA hstore
          (e.vol.blockSize.toNat - blkOff) blkOff s hQ
        simp only [hb, h1, ok_bind]
        exact ih (blk + 1) 0 { e with blkA := blkA } s1 hr hQ1
    next => exact ⟨e, s, rfl, rfl, hQ⟩

/-- The size asked for is never exceeded, so the stores up to it are enough. -/
theorem ext2Pread_total (h : e.vol.Readable) {m : M} (inum offset : U32) {size : U32}
    (hstore : ∀ s b, Q s → s.bytes.length < size.toNat →
      ∃ port, store s.port (buf + BitVec.ofNat 32 s.bytes.length) b = .ok port ∧
        Q ⟨port, s.bytes ++ [b]⟩) (h0 : Q ⟨m, []⟩) :
    ∃ e' c, ext2Pread disk store e m inum buf offset size = .ok (e', c) ∧ e'.vol = e.vol ∧ Q c := by
  obtain ⟨e1, inode, h1⟩ := h.readInode disk inum
  have hv1 := ext2ReadInode_vol h1
  simp only [ext2Pread, h1, ok_bind]
  split
  next => exact ⟨e1, ⟨m, []⟩, rfl, hv1, h0⟩
  next hend =>
    have hlt : offset.toNat < inode.iSize.toNat := Nat.lt_of_not_le hend
    have hle : (if offset + size > inode.iSize then inode.iSize - offset else size).toNat ≤
        size.toNat := by
      split
      next hgt =>
        have hgt' : inode.iSize.toNat < (offset + size).toNat := hgt
        rw [BitVec.toNat_add] at hgt'
        rw [BitVec.toNat_sub_of_le (BitVec.le_def.mpr hlt.le)]
        have := Nat.mod_le (offset.toNat + size.toNat) (2 ^ 32)
        omega
      next => exact Nat.le_refl _
    -- `offset / block_size` is reached with the block size `ext2_read_inode` has divided
    generalize (if offset + size > inode.iSize then inode.iSize - offset else size) = n at hle
    have hfit : ∀ s b, Q s → s.bytes.length < n.toNat →
        ∃ port, store s.port (buf + BitVec.ofNat 32 s.bytes.length) b = .ok port ∧
          Q ⟨port, s.bytes ++ [b]⟩ :=
      fun s b hQ hs => hstore s b hQ (Nat.lt_of_lt_of_le hs hle)
    obtain ⟨e2, s2, h2, hv2, hQ⟩ := preadLoop_total disk inode hfit
      (12 - (offset / e1.vol.blockSize).toNat) (offset / e1.vol.blockSize).toNat
      (offset % e1.vol.blockSize).toNat e1 ⟨m, []⟩ (hv1 ▸ h) h0
    exact ⟨e2, s2, h2, hv2.trans hv1, hQ⟩

end Pread

/-- Where every address can be stored to. -/
theorem ext2Pread_poke (h : e.vol.Readable) (poke : M → U32 → U8 → M) (m : M)
    (inum buf offset size : U32) : ∃ e' c, ext2Pread disk (fun m va b => .ok (poke m va b)) e m
      inum buf offset size = .ok (e', c) ∧ e'.vol = e.vol := by
  obtain ⟨e', c, hread, hv, _⟩ : ∃ e' c, ext2Pread disk (fun m va b => .ok (poke m va b)) e m
      inum buf offset size = .ok (e', c) ∧ e'.vol = e.vol ∧ True :=
    ext2Pread_total disk h (Q := fun _ => True) inum offset (fun s b _ _ => ⟨_, rfl, trivial⟩) trivial
  exact ⟨e', c, hread, hv⟩

theorem ext2ReadFile_total (h : e.vol.Readable) (poke : M → U32 → U8 → M) (m : M)
    (inum buf maxSize : U32) : ∃ e' m' copied, ext2ReadFile disk (fun m va b => .ok (poke m va b)) e m
      inum buf maxSize = .ok (e', m', copied) ∧ e'.vol = e.vol := by
  obtain ⟨e1, inode, h1⟩ := h.readInode disk inum
  have hv1 := ext2ReadInode_vol h1
  obtain ⟨e2, m2, copied, h2, hv2⟩ := readFileLoop_total disk poke inode buf
    (if inode.iSize < maxSize then inode.iSize else maxSize) 12 0 e1 m 0#32 (hv1 ▸ h)
  refine ⟨e2, m2, copied, ?_, hv2.trans hv1⟩
  simp only [ext2ReadFile, h1, ok_bind, h2]

/-- Every call on a readable volume returns, and leaves it readable. -/
theorem Ext2Call.run_total (peek : M → Ext2 → U32 → U8) (behind : M → Ext2 → Nat → U8)
    (poke : M → U32 → U8 → M) (c : Ext2Call) {s : Ext2 × M} (hr : s.1.vol.Readable) :
    ∃ s', c.run disk peek behind poke s = .ok s' ∧ s'.1.vol.Readable := by
  obtain ⟨e, m⟩ := s
  cases c with
  | ls dirIno =>
    obtain ⟨e1, inode, h1⟩ := hr.readDir disk dirIno
    refine ⟨(e1, m), ?_, (ext2ReadDir_vol h1).symm ▸ hr⟩
    simp only [Ext2Call.run, ext2Ls, h1, ok_bind]
    rfl
  | find dirIno name =>
    obtain ⟨e1, inode, h1⟩ := hr.readDir disk dirIno
    obtain ⟨ino, hf⟩ := findLoop_total (peek m e1) (dirBytes (behind m) e1) inode.iSize.toNat
      e1.vol.blockSize.toNat name e1.vol.blockSize.toNat 0
    refine ⟨(e1, m), ?_, (ext2ReadDir_vol h1).symm ▸ hr⟩
    simp only [Ext2Call.run, ext2Find, h1, ok_bind, hf]
    rfl
  | inodeSize inum =>
    obtain ⟨e1, inode, h1⟩ := hr.readInode disk inum
    refine ⟨(e1, m), ?_, (ext2ReadInode_vol h1).symm ▸ hr⟩
    simp only [Ext2Call.run, ext2InodeSize, h1, ok_bind]
    rfl
  | readFile inum buf maxSize =>
    obtain ⟨e1, m1, copied, h1, hv⟩ := ext2ReadFile_total disk hr poke m inum buf maxSize
    refine ⟨(e1, m1), ?_, hv.symm ▸ hr⟩
    simp only [Ext2Call.run, h1, ok_bind]
    rfl
  | pread inum buf offset size =>
    obtain ⟨e1, c, h1, hv⟩ := ext2Pread_poke disk hr poke m inum buf offset size
    refine ⟨(e1, c.port), ?_, hv.symm ▸ hr⟩
    simp only [Ext2Call.run, h1, ok_bind]
    rfl

theorem runCalls_total (peek : M → Ext2 → U32 → U8) (behind : M → Ext2 → Nat → U8)
    (poke : M → U32 → U8 → M) : ∀ (calls : List Ext2Call) (s : Ext2 × M), s.1.vol.Readable →
      ∃ s', runCalls disk peek behind poke calls s = .ok s' := by
  intro calls
  induction calls with
  | nil => exact fun s _ => ⟨s, rfl⟩
  | cons c calls ih =>
    intro s hr
    obtain ⟨s1, h1, hr1⟩ := c.run_total disk peek behind poke hr
    obtain ⟨s2, h2⟩ := ih s1 hr1
    refine ⟨s2, ?_⟩
    simp only [runCalls, h1, ok_bind, h2]

end Readable

/-! ## What mounting comes to -/

section Boot

variable {disk : Disk}

theorem partLba_superblock (disk : Disk) :
    ideReadSector disk ((ext2Unmounted (mbrFindPartition disk)).vol.partLba + 2#32) =
      superblock disk := rfl

/-- The wrong magic number: `ext2_init` returns with both sizes still zero. -/
theorem ext2Boot_badMagic (h : load16 (superblock disk) 56 ≠ ext2Magic) :
    ∃ e, ext2Boot disk = .ok e ∧ e.vol.inodeSize = 0#32 := by
  unfold ext2Boot ext2Init
  simp only [partLba_superblock]
  rw [if_pos h]
  exact ⟨_, rfl, rfl⟩

/-- The right one: the sizes are the superblock's, if the descriptor's block fits `blk_a`. -/
theorem ext2Init_magic {e0 : Ext2} {sb : Nat → U8}
    (hsb : ideReadSector disk (e0.vol.partLba + 2#32) = sb) (h : load16 sb 56 = ext2Magic) :
    ((sbBlockSize sb).toNat ≤ blkSize ∧ ∃ e, ext2Init disk e0 = .ok e ∧
      e.vol.blockSize = sbBlockSize sb ∧ e.vol.inodeSize = sbInodeSize sb) ∨
    (blkSize < (sbBlockSize sb).toNat ∧ ext2Init disk e0 = .error .untracked) := by
  unfold ext2Init
  simp only [hsb]
  rw [if_neg (not_not.mpr h)]
  unfold ext2ReadBlock
  simp only [Volume.sects_eq]
  rcases Nat.lt_or_ge blkSize (sbBlockSize sb).toNat with hlt | hle
  · refine .inr ⟨hlt, ?_⟩
    have hover : ¬(sbBlockSize sb).toNat / 512 * 512 ≤ blkSize :=
      fun hfit => absurd (sbBlockSize_fits.mp hfit) (Nat.not_le.mpr hlt)
    unfold sbBlockSize at hover
    rw [if_neg hover]
    rfl
  · refine .inl ⟨hle, ?_⟩
    have hfit := sbBlockSize_fits.mpr hle
    unfold sbBlockSize at hfit
    rw [if_pos hfit]
    exact ⟨_, rfl, rfl, rfl⟩

theorem ext2Boot_magic (h : load16 (superblock disk) 56 = ext2Magic) :
    ((sbBlockSize (superblock disk)).toNat ≤ blkSize ∧ ∃ e, ext2Boot disk = .ok e ∧
      e.vol.blockSize = sbBlockSize (superblock disk) ∧
      e.vol.inodeSize = sbInodeSize (superblock disk)) ∨
    (blkSize < (sbBlockSize (superblock disk)).toNat ∧ ext2Boot disk = .error .untracked) :=
  ext2Init_magic (partLba_superblock disk) h

/-- A fit disk is mounted with a volume that can be read. -/
theorem Mountable.boot (h : Mountable disk) : ∃ e, ext2Boot disk = .ok e ∧ e.vol.Readable := by
  rcases ext2Boot_magic h.magic with ⟨_, e, he, hb, hi⟩ | ⟨hlt, _⟩
  · have hge := sbInodeSize_ge (superblock disk)
    have hle : (sbInodeSize (superblock disk)).toNat ≤ (sbBlockSize (superblock disk)).toNat :=
      h.inode
    refine ⟨e, he, ?_, ?_, ?_⟩
    · rw [Volume.sects_eq, hb]
      exact sbBlockSize_fits.mpr h.block
    · intro h0
      rw [hi] at h0
      rw [h0] at hge
      exact absurd hge (by decide)
    · intro h0
      have hdiv :
          (sbBlockSize (superblock disk)).toNat / (sbInodeSize (superblock disk)).toNat = 0 := by
        rw [← BitVec.toNat_udiv, ← hb, ← hi, h0]
        rfl
      have := (Nat.div_eq_zero_iff.mp hdiv)
      omega
  · exact absurd h.block (Nat.not_le.mpr hlt)

/-- A division by zero in the very first call, the listing of the root directory. -/
theorem ext2ReadInode_divides {e : Ext2}
    (h : e.vol.inodeSize = 0#32 ∨ e.vol.blockSize / e.vol.inodeSize = 0#32) (inum : U32) :
    ext2ReadInode disk e inum = .error .exception := by
  unfold ext2ReadInode
  simp only
  by_cases h0 : e.vol.inodeSize = 0#32
  · rw [if_pos h0]
    rfl
  · rw [if_neg h0, if_pos (h.resolve_left h0)]
    rfl

variable {M : Type} (peek : M → Ext2 → U32 → U8) (behind : M → Ext2 → Nat → U8)
  (poke : M → U32 → U8 → M) (m : M)

/-- On a disk the driver is not fit for, and that does not overrun the buffers, the
listing that `kmain` makes next divides by zero. -/
theorem bootThen_ls_divides (hm : ¬Mountable disk) (ho : ¬Overruns disk) :
    bootThen disk peek behind poke [.ls ext2RootInode] m = .error .exception := by
  have key : ∃ e, ext2Boot disk = .ok e ∧
      (e.vol.inodeSize = 0#32 ∨ e.vol.blockSize / e.vol.inodeSize = 0#32) := by
    by_cases hmagic : load16 (superblock disk) 56 = ext2Magic
    · rcases ext2Boot_magic hmagic with ⟨hle, e, he, hb, hi⟩ | ⟨hlt, _⟩
      · refine ⟨e, he, .inr ?_⟩
        have hlt : (sbBlockSize (superblock disk)).toNat < (sbInodeSize (superblock disk)).toNat :=
          Nat.lt_of_not_le fun h => hm ⟨hmagic, hle, h⟩
        rw [hb, hi]
        apply BitVec.eq_of_toNat_eq
        rw [BitVec.toNat_udiv, Nat.div_eq_of_lt hlt]
        rfl
      · exact absurd ⟨hmagic, hlt⟩ ho
    · obtain ⟨e, he, hi⟩ := ext2Boot_badMagic hmagic
      exact ⟨e, he, .inl hi⟩
  obtain ⟨e, he, hdiv⟩ := key
  unfold bootThen
  simp only [he, ok_bind, runCalls, Ext2Call.run, ext2Ls, ext2ReadDir,
    ext2ReadInode_divides hdiv, error_bind]

/-- **No division by zero, exactly on a mountable disk**: there every call that follows
the boot returns. On any other disk the boot runs over `blk_a`, or the first listing
divides by zero. -/
theorem mount_iff (disk : Disk) :
    ((∀ calls, ∃ s, bootThen disk peek behind poke calls m = .ok s) ↔ Mountable disk) ∧
    (¬Overruns disk →
      ((∀ calls, bootThen disk peek behind poke calls m ≠ .error .exception) ↔ Mountable disk)) := by
  have hfit : Mountable disk → ∀ calls, ∃ s, bootThen disk peek behind poke calls m = .ok s := by
    intro hm calls
    obtain ⟨e, he, hr⟩ := hm.boot
    obtain ⟨s, hs⟩ := runCalls_total disk peek behind poke calls (e, m) hr
    refine ⟨s, ?_⟩
    simp only [bootThen, he, ok_bind, hs]
  refine ⟨⟨fun hall => ?_, hfit⟩, fun ho => ⟨fun hall => ?_, fun hm calls herr => ?_⟩⟩
  · by_contra hm
    by_cases ho : Overruns disk
    · obtain ⟨s, hs⟩ := hall []
      rcases ext2Boot_magic ho.1 with ⟨hle, _⟩ | ⟨_, he⟩
      · exact absurd hle (Nat.not_le.mpr ho.2)
      · simp only [bootThen, he, error_bind] at hs
        cases hs
    · obtain ⟨s, hs⟩ := hall [.ls ext2RootInode]
      rw [bootThen_ls_divides peek behind poke m hm ho] at hs
      cases hs
  · by_contra hm
    exact hall _ (bootThen_ls_divides peek behind poke m hm ho)
  · obtain ⟨s, hs⟩ := hfit hm calls
    rw [hs] at herr
    cases herr

end Boot

/-- An empty disk has no magic number. -/
theorem mount_divides_blank :
    ¬∀ (disk : Disk) (calls : List Ext2Call),
      bootThen disk (fun _ _ _ => 0#8) (fun _ _ _ => 0#8) (fun m _ _ => m) calls () ≠
        .error .exception := by
  intro hall
  refine hall (fun _ _ => 0#8) [.ls ext2RootInode] (bootThen_ls_divides _ _ _ _ ?_ ?_)
  · exact fun h => absurd h.magic (by decide)
  · exact fun h => absurd h.1 (by decide)

end PepinOS
