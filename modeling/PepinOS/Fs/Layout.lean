import Mathlib.Tactic.Ring
import PepinOS.Fs.Content

/-!
# Where ext2 keeps an inode

The format, apart from the driver: the superblock at byte 1024 of the partition, the
group descriptors in the block after it, one inode table per group at the block its
descriptor names. Inode `inum` is entry `(inum - 1) % inodes_per_group` of the table of
group `(inum - 1) / inodes_per_group`. Addresses are exact here; only the drive, which
keeps 28 bits of a sector number, takes them modulo its size.

`ext2_init` loads the first descriptor and no other, so for the driver there is one
table. `read_inode_first_table` says which entry it reads: the one with index
`inum - 1`, counted from the start of the first table. For the inodes of the first group
that is the entry of the format.
-/

namespace PepinOS

/-- Byte `a` of the drive. -/
def driveByte (disk : Disk) (a : Nat) : U8 := disk (a / 512 % 2 ^ 28) (a % 512)

/-- An ext2 image: where its partition starts on which drive. -/
structure Image where
  disk : Disk
  partLba : U32

namespace Image

variable (im : Image)

/-- Byte `a` of the partition. -/
def byte (a : Nat) : U8 := driveByte im.disk (im.partLba.toNat * 512 + a)

/-! ## The superblock's fields -/

def super (i : Nat) : U8 := im.byte (1024 + i)

def inodesCount : Nat := (load32 im.super 0).toNat
def blocksCount : Nat := (load32 im.super 4).toNat
def firstDataBlock : Nat := (load32 im.super 20).toNat
def logBlockSize : Nat := (load32 im.super 24).toNat
def blocksPerGroup : Nat := (load32 im.super 32).toNat
def inodesPerGroup : Nat := (load32 im.super 40).toNat
def magic : U16 := load16 im.super 56

def blockSize : Nat := 1024 * 2 ^ im.logBlockSize

/-- Revision 0 has inodes of 128 bytes and no field for it. -/
def inodeSize : Nat :=
  if load32 im.super 76 = 0#32 then 128 else (load16 im.super 88).toNat

/-- The groups the blocks fill; the last may be shorter. -/
def groups : Nat :=
  (im.blocksCount - im.firstDataBlock + (im.blocksPerGroup - 1)) / im.blocksPerGroup

/-! ## Descriptors and inodes -/

/-- The descriptors are in the block after the superblock's, 32 bytes each. -/
def descriptor (g i : Nat) : U8 :=
  im.byte ((im.firstDataBlock + 1) * im.blockSize + g * 32 + i)

/-- `bg_inode_table` of group `g`. -/
def inodeTable (g : Nat) : Nat := (load32 (im.descriptor g) 8).toNat

/-- Entry `k` of the inode table of group `g`. -/
def entry (g k : Nat) : Inode := fun i =>
  im.byte (im.inodeTable g * im.blockSize + k * im.inodeSize + i)

/-- The inode `inum`, where the format keeps it. -/
def inode (inum : Nat) : Inode :=
  im.entry ((inum - 1) / im.inodesPerGroup) ((inum - 1) % im.inodesPerGroup)

/-- Blocks of an inode table. -/
def tableBlocks : Nat := im.inodesPerGroup * im.inodeSize / im.blockSize

/-- A well-formed image, with a block size that the page size of the machine allows. -/
structure WellFormed : Prop where
  magic : im.magic = ext2Magic
  blockSize : im.logBlockSize ≤ 2
  firstDataBlock : im.firstDataBlock = if im.logBlockSize = 0 then 1 else 0
  inodeSize_ge : 128 ≤ im.inodeSize
  inodeSize_dvd : im.inodeSize ∣ im.blockSize
  blocksPerGroup : 0 < im.blocksPerGroup ∧ im.blocksPerGroup ≤ 8 * im.blockSize
  inodesPerGroup : 0 < im.inodesPerGroup ∧ im.inodesPerGroup ≤ 8 * im.blockSize ∧
    im.blockSize / im.inodeSize ∣ im.inodesPerGroup
  inodesCount : im.inodesCount = im.groups * im.inodesPerGroup
  descriptors : (im.firstDataBlock + 1) * im.blockSize + im.groups * 32 ≤
    im.blocksCount * im.blockSize
  tables : ∀ g, g < im.groups → im.firstDataBlock < im.inodeTable g ∧
    im.inodeTable g + im.tableBlocks ≤ im.blocksCount
  disjoint : ∀ h, h < im.groups → ∀ g, g < h →
    im.inodeTable g + im.tableBlocks ≤ im.inodeTable h ∨
      im.inodeTable h + im.tableBlocks ≤ im.inodeTable g
  onDrive : im.partLba.toNat + im.blocksCount * (im.blockSize / 512) ≤ 2 ^ 28

end Image

/-! ## The driver's addresses -/

/-- The drive takes addresses modulo its 2^37 bytes. -/
theorem driveByte_congr (disk : Disk) {a b : Nat} (h : a % 2 ^ 37 = b % 2 ^ 37) :
    driveByte disk a = driveByte disk b := by
  unfold driveByte
  rw [show a / 512 % 2 ^ 28 = b / 512 % 2 ^ 28 by omega, show a % 512 = b % 512 by omega]

/-- A drive given by the bytes at its addresses. -/
theorem driveByte_flat (f : Nat → U8) {a : Nat} (h : a < 2 ^ 37) :
    driveByte (fun lba i => f (lba * 512 + i)) a = f a := by
  have haddr : a / 512 % 2 ^ 28 * 512 + a % 512 = a := by omega
  show f (a / 512 % 2 ^ 28 * 512 + a % 512) = f a
  rw [haddr]

theorem ideReadSector_eq (disk : Disk) (lba : U32) (i : Nat) :
    ideReadSector disk lba i = disk (lba.toNat % 2 ^ 28) i := by
  unfold ideReadSector
  rw [ideSelectSector_lba28]

section Addresses

variable {disk : Disk} {vol : Volume}

/-- The 32-bit sums of the driver wrap at a multiple of the drive's size. -/
theorem blockLba_mod (vol : Volume) (block : U32) (i : Nat) :
    (vol.partLba + block * BitVec.ofNat 32 vol.sects + BitVec.ofNat 32 i).toNat % 2 ^ 28 =
      (vol.partLba.toNat + block.toNat * vol.sects + i) % 2 ^ 28 := by
  rw [BitVec.toNat_add, BitVec.toNat_add, BitVec.toNat_mul, BitVec.toNat_ofNat,
    BitVec.toNat_ofNat]
  rw [Nat.mod_mod_of_dvd _ (by decide : 2 ^ 28 ∣ 2 ^ 32)]
  simp only [Nat.add_mod, Nat.mul_mod, Nat.mod_mod_of_dvd _ (show 2 ^ 28 ∣ 2 ^ 32 by decide),
    Nat.mod_mod]

/-- Byte `j` of a block. -/
theorem blockByte_eq (hwhole : vol.sects * 512 = vol.blockSize.toNat) (block : U32) (j : Nat) :
    vol.blockByte disk block j =
      driveByte disk (vol.partLba.toNat * 512 + block.toNat * vol.blockSize.toNat + j) := by
  have hsum : vol.partLba.toNat * 512 + block.toNat * vol.blockSize.toNat + j =
      (vol.partLba.toNat + block.toNat * vol.sects) * 512 + j := by
    rw [← hwhole, Nat.add_mul, Nat.mul_assoc]
  unfold Volume.blockByte driveByte
  rw [ideReadSector_eq, blockLba_mod, hsum]
  generalize vol.partLba.toNat + block.toNat * vol.sects = n
  rw [show (n * 512 + j) / 512 = n + j / 512 by omega, show (n * 512 + j) % 512 = j % 512 by omega]

/-- Where inodes lie one after another, entry `inum - 1` of the table. -/
theorem inodeAt_eq (hv : vol.Sound) (hdvd : vol.inodeSize.toNat ∣ vol.blockSize.toNat) (inum : U32)
    (i : Nat) :
    vol.inodeAt disk inum i = driveByte disk (vol.partLba.toNat * 512 +
      (vol.bgInodeTable.toNat * vol.blockSize.toNat + (inum - 1#32).toNat * vol.inodeSize.toNat) +
        i) := by
  unfold Volume.inodeAt
  rw [blockByte_eq hv.whole]
  obtain ⟨hfits, hwhole, hge, hle⟩ := hv
  unfold blkSize at hfits
  have hipb : (vol.blockSize / vol.inodeSize).toNat = vol.blockSize.toNat / vol.inodeSize.toNat :=
    BitVec.toNat_udiv
  have hmul : vol.blockSize.toNat / vol.inodeSize.toNat * vol.inodeSize.toNat =
      vol.blockSize.toNat := Nat.div_mul_cancel hdvd
  have hpos : 0 < vol.blockSize.toNat / vol.inodeSize.toNat := Nat.div_pos hle (by omega)
  rw [BitVec.toNat_add, BitVec.toNat_mul, BitVec.toNat_umod, BitVec.toNat_udiv, hipb]
  generalize vol.blockSize.toNat / vol.inodeSize.toNat = ipb at hmul hpos
  generalize (inum - 1#32).toNat = idx
  -- the offset does not leave the block
  have hoff : idx % ipb * vol.inodeSize.toNat ≤ vol.blockSize.toNat := by
    rw [← hmul]
    exact Nat.mul_le_mul_right _ (Nat.mod_lt idx hpos).le
  have hidx : idx * vol.inodeSize.toNat =
      idx / ipb * vol.blockSize.toNat + idx % ipb * vol.inodeSize.toNat := by
    have h := congrArg (· * vol.inodeSize.toNat) (Nat.div_add_mod idx ipb)
    simp only [Nat.add_mul] at h
    rw [← h, ← hmul, Nat.mul_comm ipb, Nat.mul_assoc]
  rw [Nat.mod_eq_of_lt (show idx % ipb * vol.inodeSize.toNat < 2 ^ 32 by omega), hidx]
  -- a block number that wraps is a multiple of 2^37 bytes off
  have hwrap : (vol.bgInodeTable.toNat + idx / ipb) * vol.blockSize.toNat =
      2 ^ 37 * (16 * ((vol.bgInodeTable.toNat + idx / ipb) / 2 ^ 32 * vol.sects)) +
        (vol.bgInodeTable.toNat + idx / ipb) % 2 ^ 32 * vol.blockSize.toNat := by
    conv_lhs => rw [← Nat.div_add_mod (vol.bgInodeTable.toNat + idx / ipb) (2 ^ 32)]
    rw [Nat.add_mul, ← hwhole]
    ring
  rw [Nat.add_mul] at hwrap
  refine driveByte_congr disk ?_
  omega

end Addresses

/-! ## The mounted image -/

/-- The descriptor that `ext2_init` loads is the first of the block after the superblock's. -/
theorem ext2Init_bgd {disk : Disk} {e0 e : Ext2} {sb : Nat → U8}
    (hsb : ideReadSector disk (e0.vol.partLba + 2#32) = sb) (hmagic : load16 sb 56 = ext2Magic)
    (h : ext2Init disk e0 = .ok e) :
    e.vol.partLba = e0.vol.partLba ∧ ∀ i, i < 32 → i < e.vol.sects * 512 →
      e.vol.bgd i = e.vol.blockByte disk (load32 sb 20 + 1#32) i := by
  unfold ext2Init at h
  simp only [hsb] at h
  rw [if_neg (not_not.mpr hmagic)] at h
  obtain ⟨blkA, hread, h⟩ := bind_ok h
  cases h
  refine ⟨rfl, fun i hi hin => ?_⟩
  show (if i < 32 then blkA i else _) = _
  rw [if_pos hi]
  exact ext2ReadBlock_byte hread hin

section Mounting

variable {im : Image}

theorem Image.super_eq (im : Image) {i : Nat} (hi : i < 512) :
    ideReadSector im.disk (im.partLba + 2#32) i = im.super i := by
  unfold Image.super Image.byte driveByte
  rw [ideReadSector_eq, BitVec.toNat_add]
  have h2 : (2#32 : U32).toNat = 2 := rfl
  rw [h2, show (im.partLba.toNat * 512 + (1024 + i)) % 512 = i by omega]
  congr 1
  omega

theorem Image.super_load32 (im : Image) {a : Nat} (ha : a + 4 ≤ 512) :
    load32 (ideReadSector im.disk (im.partLba + 2#32)) a = load32 im.super a :=
  load32_congr fun k hk => im.super_eq (by omega)

theorem Image.super_load16 (im : Image) {a : Nat} (ha : a + 2 ≤ 512) :
    load16 (ideReadSector im.disk (im.partLba + 2#32)) a = load16 im.super a := by
  unfold load16
  rw [im.super_eq (show a < 512 by omega), im.super_eq (show a + 1 < 512 by omega)]

theorem Image.WellFormed.sbBlockSize (hw : im.WellFormed) :
    (sbBlockSize (ideReadSector im.disk (im.partLba + 2#32))).toNat = im.blockSize := by
  unfold PepinOS.sbBlockSize Image.blockSize
  rw [im.super_load32 (by omega)]
  have hlog := hw.blockSize
  unfold Image.logBlockSize at hlog ⊢
  generalize (load32 im.super 24).toNat = log at hlog ⊢
  rcases (show log = 0 ∨ log = 1 ∨ log = 2 by omega) with h | h | h <;> subst h <;> rfl

theorem Image.WellFormed.sbInodeSize (hw : im.WellFormed) :
    (sbInodeSize (ideReadSector im.disk (im.partLba + 2#32))).toNat = im.inodeSize := by
  have hge := hw.inodeSize_ge
  unfold PepinOS.sbInodeSize
  unfold Image.inodeSize at hge ⊢
  rw [im.super_load32 (by omega), im.super_load16 (by omega)]
  split at hge
  next hrev =>
    rw [if_pos hrev, if_neg]
    · rfl
    · rintro ⟨hle, _⟩
      rw [hrev] at hle
      exact absurd hle (by decide)
  next hrev =>
    have hpos : 1#32 ≤ load32 im.super 76 :=
      BitVec.le_def.mpr (Nat.pos_of_ne_zero fun h => hrev (BitVec.eq_of_toNat_eq h))
    rw [if_neg hrev, if_pos ⟨hpos, BitVec.le_def.mpr hge⟩, BitVec.toNat_setWidth_of_le (by omega)]

/-- What `ext2_init` makes of a well-formed image. -/
theorem Image.WellFormed.mounted (hw : im.WellFormed) {e0 e : Ext2}
    (hlba : e0.vol.partLba = im.partLba) (h : ext2Init im.disk e0 = .ok e) :
    e.vol.Sound ∧ e.vol.partLba = im.partLba ∧ e.vol.blockSize.toNat = im.blockSize ∧
      e.vol.inodeSize.toNat = im.inodeSize ∧ e.vol.bgInodeTable.toNat = im.inodeTable 0 := by
  have hsb : ideReadSector im.disk (e0.vol.partLba + 2#32) =
      ideReadSector im.disk (im.partLba + 2#32) := by rw [hlba]
  have hmagic : load16 (ideReadSector im.disk (im.partLba + 2#32)) 56 = ext2Magic := by
    rw [im.super_load16 (by omega)]
    exact hw.magic
  have hbs := hw.sbBlockSize
  have his := hw.sbInodeSize
  have hlog := hw.blockSize
  have hsize : im.blockSize = 1024 ∨ im.blockSize = 2048 ∨ im.blockSize = 4096 := by
    unfold Image.blockSize
    rcases (show im.logBlockSize = 0 ∨ im.logBlockSize = 1 ∨ im.logBlockSize = 2 by omega) with
      h | h | h <;> rw [h] <;> decide
  rcases ext2Init_magic hsb hmagic with ⟨hle, e', he', hb, hi⟩ | ⟨_, he'⟩
  · rw [h] at he'
    cases he'
    rw [← hb] at hbs hle
    rw [← hi] at his
    obtain ⟨hpart, hbgd⟩ := ext2Init_bgd hsb hmagic h
    have hwhole : e.vol.sects * 512 = e.vol.blockSize.toNat := by
      rw [Volume.sects_eq]
      omega
    have hpos : 0 < im.blockSize := by omega
    refine ⟨⟨hle, hwhole, his ▸ hw.inodeSize_ge, ?_⟩, hpart.trans hlba, hbs, his, ?_⟩
    · rw [hbs, his]
      exact Nat.le_of_dvd hpos hw.inodeSize_dvd
    · have hfirst : (load32 (ideReadSector im.disk (im.partLba + 2#32)) 20 + 1#32).toNat =
          im.firstDataBlock + 1 := by
        have hfd := hw.firstDataBlock
        rw [im.super_load32 (by omega), BitVec.toNat_add]
        unfold Image.firstDataBlock at hfd ⊢
        rw [hfd]
        split <;> rfl
      refine congrArg BitVec.toNat (load32_congr fun k hk => ?_)
      rw [hbgd _ (by omega) (by omega), blockByte_eq hwhole, hfirst, hpart, hlba, hbs]
      unfold Image.descriptor Image.byte
      rw [Nat.zero_mul, Nat.add_assoc, Nat.add_zero ((im.firstDataBlock + 1) * im.blockSize)]
  · rw [h] at he'
    cases he'

theorem Image.WellFormed.init (hw : im.WellFormed) {e0 : Ext2}
    (hlba : e0.vol.partLba = im.partLba) : ∃ e, ext2Init im.disk e0 = .ok e := by
  have hmagic : load16 (ideReadSector im.disk (im.partLba + 2#32)) 56 = ext2Magic := by
    rw [im.super_load16 (by omega)]
    exact hw.magic
  rcases ext2Init_magic (by rw [hlba]) hmagic with ⟨_, e, he, _⟩ | ⟨hlt, _⟩
  · exact ⟨e, he⟩
  · have hlog : 2 ^ im.logBlockSize ≤ 2 ^ 2 := Nat.pow_le_pow_right (by omega) hw.blockSize
    rw [hw.sbBlockSize] at hlt
    unfold Image.blockSize blkSize at hlt
    omega

/-- Entry `inum - 1` of the first table is what `ext2_read_inode` gives. -/
theorem Image.WellFormed.readInode (hw : im.WellFormed) {e0 e1 e : Ext2}
    (hlba : e0.vol.partLba = im.partLba) (hinit : ext2Init im.disk e0 = .ok e1)
    (hvol : e.vol = e1.vol) {inum : U32} (h1 : 1 ≤ inum.toNat) :
    ∃ e' inode, ext2ReadInode im.disk e inum = .ok (e', inode) ∧
      ∀ i, i < 128 → inode i = im.entry 0 (inum.toNat - 1) i := by
  obtain ⟨hv, hpart, hbs, his, htab⟩ := hw.mounted hlba hinit
  rw [← hvol] at hv hpart hbs his htab
  obtain ⟨e', inode, hread⟩ := hv.readable.readInode im.disk inum
  refine ⟨e', inode, hread, fun i hi => ?_⟩
  have hidx : (inum - 1#32).toNat = inum.toNat - 1 :=
    BitVec.toNat_sub_of_le (BitVec.le_def.mpr h1)
  rw [ext2ReadInode_byte hv hread hi, inodeAt_eq hv (by rw [hbs, his]; exact hw.inodeSize_dvd),
    hpart, hbs, his, htab, hidx]
  unfold Image.entry Image.byte
  exact congrArg (driveByte im.disk) (by omega)

end Mounting

/-! ## An image of two groups -/

/-- Two groups of 256 blocks with 16 inodes each, their tables at blocks 5 and 261. The
first inode of the second group, inode 17, has seven bytes. -/
def twoGroupsByte : Nat → U8
  -- the superblock
  | 1024 => 32#8
  | 1028 => 1#8
  | 1029 => 2#8
  | 1044 => 1#8
  | 1057 => 1#8
  | 1064 => 16#8
  | 1080 => 0x53#8
  | 1081 => 0xEF#8
  -- the descriptors
  | 2056 => 5#8
  | 2088 => 5#8
  | 2089 => 1#8
  -- inode 17
  | 267268 => 7#8
  | _ => 0#8

def twoGroups : Image where
  disk := fun lba i => twoGroupsByte (lba * 512 + i)
  partLba := 0#32

theorem twoGroups_wellFormed : twoGroups.WellFormed where
  magic := rfl
  blockSize := Nat.zero_le 2
  firstDataBlock := rfl
  inodeSize_ge := Nat.le_refl 128
  inodeSize_dvd := ⟨8, rfl⟩
  blocksPerGroup := ⟨by decide, by decide⟩
  inodesPerGroup := ⟨by decide, by decide, ⟨2, rfl⟩⟩
  inodesCount := rfl
  descriptors := by decide
  tables := by decide
  disjoint := by decide
  onDrive := by decide

theorem twoGroups_init : ∃ e, ext2Init twoGroups.disk (ext2Unmounted 0#32) = .ok e :=
  twoGroups_wellFormed.init rfl

/-- **Which inode the driver reads**: entry `inum - 1` from the start of the first group's
table; that is the inode of the format as long as it belongs to the first group. -/
theorem read_inode_first_table {im : Image} (hw : im.WellFormed) {e0 e1 e : Ext2}
    (hlba : e0.vol.partLba = im.partLba) (hinit : ext2Init im.disk e0 = .ok e1)
    (hvol : e.vol = e1.vol) {inum : U32} (h1 : 1 ≤ inum.toNat) :
    ∃ e' inode, ext2ReadInode im.disk e inum = .ok (e', inode) ∧
      (∀ i, i < 128 → inode i = im.entry 0 (inum.toNat - 1) i) ∧
      (inum.toNat ≤ im.inodesPerGroup → ∀ i, i < 128 → inode i = im.inode inum.toNat i) := by
  obtain ⟨e', inode, hread, hentry⟩ := hw.readInode hlba hinit hvol h1
  refine ⟨e', inode, hread, hentry, fun hgroup i hi => ?_⟩
  rw [hentry i hi]
  unfold Image.inode
  rw [Nat.div_eq_of_lt (by omega), Nat.mod_eq_of_lt (by omega)]

theorem read_inode_first_table_root : ∃ e e' inode,
    ext2ReadInode twoGroups.disk e 2#32 = .ok (e', inode) ∧
      ∀ i, i < 128 → inode i = twoGroups.inode 2 i := by
  obtain ⟨e, he⟩ := twoGroups_init
  obtain ⟨e', inode, hread, _, hinode⟩ := read_inode_first_table twoGroups_wellFormed rfl he rfl
    (by decide : 1 ≤ (2#32 : U32).toNat)
  exact ⟨e, e', inode, hread, hinode (by decide)⟩

/-- Inode 17 is read from block 7, where there is no table. -/
theorem read_inode_second_group :
    ¬∀ (im : Image) (e0 e1 e : Ext2), im.WellFormed → e0.vol.partLba = im.partLba →
      ext2Init im.disk e0 = .ok e1 → e.vol = e1.vol → ∀ inum : U32, 1 ≤ inum.toNat →
      inum.toNat ≤ im.inodesCount → ∃ e' inode, ext2ReadInode im.disk e inum = .ok (e', inode) ∧
        ∀ i, i < 128 → inode i = im.inode inum.toNat i := by
  intro hall
  obtain ⟨e, he⟩ := twoGroups_init
  obtain ⟨e', inode, hread, hinode⟩ := hall twoGroups (ext2Unmounted 0#32) e e twoGroups_wellFormed
    rfl he rfl 17#32 (by decide) (by decide)
  obtain ⟨e2, inode2, hread2, hentry⟩ := twoGroups_wellFormed.readInode rfl he rfl
    (by decide : 1 ≤ (17#32 : U32).toNat)
  rw [hread] at hread2
  cases hread2
  have hdiffer : twoGroups.entry 0 16 4 ≠ twoGroups.inode 17 4 := by decide +kernel
  exact hdiffer ((hentry 4 (by omega)).symm.trans (hinode 4 (by omega)))

end PepinOS
