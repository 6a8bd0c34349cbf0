import PepinOS.Fs.Layout
import PepinOS.Fs.Directory

/-!
# An image for runs on fixed inputs

One group, blocks of 1024 bytes, a root directory of two blocks and a file, inode 12, of
600 bytes. What the blocks from 10 on hold is left open: the directory is blocks 10 and
11, the file block 12.
-/

namespace PepinOS

/-- The blocks before block 10. -/
def rootByte : Nat → U8
  -- the superblock: 16 inodes, 64 blocks, one group
  | 1024 => 16#8
  | 1028 => 64#8
  | 1044 => 1#8
  | 1056 => 64#8
  | 1064 => 16#8
  | 1080 => 0x53#8
  | 1081 => 0xEF#8
  -- the descriptor: the inode table is at block 5
  | 2056 => 5#8
  -- inode 2: 2048 bytes
  | 5253 => 8#8
  | 5288 => 10#8
  | 5292 => 11#8
  -- inode 12: 600 bytes
  | 6532 => 0x58#8
  | 6533 => 2#8
  | 6568 => 12#8
  | _ => 0#8

/-- Byte `a` of the image, `blocks` from block 10 on. -/
def rootImageByte (blocks : Nat → U8) (a : Nat) : U8 :=
  if a < 10240 then rootByte a else blocks (a - 10240)

def rootImage (blocks : Nat → U8) : Image where
  disk := fun lba i => rootImageByte blocks (lba * 512 + i)
  partLba := 0#32

section Format

variable (blocks : Nat → U8)

theorem rootImage_byte {a : Nat} (ha : a < 10240) : (rootImage blocks).byte a = rootByte a := by
  unfold Image.byte rootImage
  rw [show (0#32 : U32).toNat * 512 + a = a from by rw [BitVec.toNat_ofNat, Nat.zero_mod]; omega,
    driveByte_flat (rootImageByte blocks) (by omega)]
  exact if_pos ha

theorem rootImage_field {k : Nat} (hk : k < 512) {w : U32}
    (h : load32 (fun i => rootByte (1024 + i)) k = w) : load32 (rootImage blocks).super k = w := by
  rw [← h]
  exact load32_congr fun x hx => rootImage_byte blocks (by omega)

theorem rootImage_magic : (rootImage blocks).magic = ext2Magic := by
  unfold Image.magic load16 Image.super
  rw [rootImage_byte blocks (by omega), rootImage_byte blocks (by omega)]
  rfl

theorem rootImage_log : (rootImage blocks).logBlockSize = 0 :=
  congrArg BitVec.toNat (rootImage_field blocks (by omega) (w := 0#32) rfl)

theorem rootImage_blockSize : (rootImage blocks).blockSize = 1024 := by
  unfold Image.blockSize
  rw [rootImage_log]
  rfl

theorem rootImage_inodeSize : (rootImage blocks).inodeSize = 128 :=
  if_pos (rootImage_field blocks (by omega) rfl)

theorem rootImage_first : (rootImage blocks).firstDataBlock = 1 :=
  congrArg BitVec.toNat (rootImage_field blocks (by omega) (w := 1#32) rfl)

theorem rootImage_blocks :
    (rootImage blocks).blocksCount = 64 ∧ (rootImage blocks).blocksPerGroup = 64 :=
  ⟨congrArg BitVec.toNat (rootImage_field blocks (by omega) (w := 64#32) rfl),
    congrArg BitVec.toNat (rootImage_field blocks (by omega) (w := 64#32) rfl)⟩

theorem rootImage_inodes :
    (rootImage blocks).inodesCount = 16 ∧ (rootImage blocks).inodesPerGroup = 16 :=
  ⟨congrArg BitVec.toNat (rootImage_field blocks (by omega) (w := 16#32) rfl),
    congrArg BitVec.toNat (rootImage_field blocks (by omega) (w := 16#32) rfl)⟩

theorem rootImage_groups : (rootImage blocks).groups = 1 := by
  unfold Image.groups
  rw [(rootImage_blocks blocks).1, (rootImage_blocks blocks).2, rootImage_first]

theorem rootImage_tableBlocks : (rootImage blocks).tableBlocks = 2 := by
  unfold Image.tableBlocks
  rw [(rootImage_inodes blocks).2, rootImage_inodeSize, rootImage_blockSize]

theorem rootImage_inodeTable : (rootImage blocks).inodeTable 0 = 5 := by
  have h : load32 ((rootImage blocks).descriptor 0) 8 = load32 (fun i => rootByte (2048 + i)) 8 := by
    refine load32_congr fun k hk => ?_
    unfold Image.descriptor
    rw [rootImage_first, rootImage_blockSize]
    exact rootImage_byte blocks (by omega)
  unfold Image.inodeTable
  rw [h]
  rfl

theorem rootImage_wellFormed : (rootImage blocks).WellFormed where
  magic := rootImage_magic blocks
  blockSize := by rw [rootImage_log]; omega
  firstDataBlock := by rw [rootImage_first, rootImage_log]; rfl
  inodeSize_ge := by rw [rootImage_inodeSize]
  inodeSize_dvd := by rw [rootImage_inodeSize, rootImage_blockSize]; exact ⟨8, rfl⟩
  blocksPerGroup := by rw [(rootImage_blocks blocks).2, rootImage_blockSize]; omega
  inodesPerGroup := by
    rw [(rootImage_inodes blocks).2, rootImage_blockSize, rootImage_inodeSize]
    exact ⟨by omega, by omega, ⟨2, rfl⟩⟩
  inodesCount := by
    rw [(rootImage_inodes blocks).1, (rootImage_inodes blocks).2, rootImage_groups]
  descriptors := by
    rw [rootImage_first, rootImage_blockSize, rootImage_groups, (rootImage_blocks blocks).1]
    omega
  tables := by
    intro g hg
    rw [rootImage_groups] at hg
    obtain rfl : g = 0 := by omega
    rw [rootImage_first, rootImage_inodeTable, rootImage_tableBlocks, (rootImage_blocks blocks).1]
    omega
  disjoint := by
    intro h hh g hg
    rw [rootImage_groups] at hh
    omega
  onDrive := by
    rw [(rootImage_blocks blocks).1, rootImage_blockSize]
    exact Nat.le_of_ble_eq_true rfl

end Format

/-- The variables of the driver, as this image sets them. -/
structure RootVolume (vol : Volume) : Prop where
  sound : vol.Sound
  partLba : vol.partLba.toNat = 0
  blockSize : vol.blockSize = 1024#32
  inodeSize : vol.inodeSize.toNat = 128
  inodeTable : vol.bgInodeTable.toNat = 5

theorem rootImage_mounted (blocks : Nat → U8) : ∃ e : Ext2,
    ext2Init (rootImage blocks).disk (ext2Unmounted 0#32) = .ok e ∧
      Mounted (rootImage blocks).disk e.vol ∧ RootVolume e.vol := by
  obtain ⟨e, he⟩ : ∃ e, ext2Init (rootImage blocks).disk (ext2Unmounted 0#32) = .ok e :=
    (rootImage_wellFormed blocks).init rfl
  obtain ⟨hv, hpart, hbs, his, htab⟩ := (rootImage_wellFormed blocks).mounted rfl he
  rw [rootImage_blockSize] at hbs
  rw [rootImage_inodeSize] at his
  rw [rootImage_inodeTable] at htab
  have hbs' : e.vol.blockSize = 1024#32 := BitVec.eq_of_toNat_eq hbs
  have hmagic : load16 (ideReadSector (rootImage blocks).disk (0#32 + 2#32)) 56 = ext2Magic := by
    rw [← rootImage_magic blocks]
    exact (rootImage blocks).super_load16 (by omega)
  refine ⟨e, he, ⟨⟨ext2Unmounted 0#32, e, hmagic, he, rfl⟩, .inl hbs'⟩, hv, ?_, hbs', his, htab⟩
  rw [hpart]
  rfl

section Volume

variable {vol : Volume} (hv : RootVolume vol) {blocks : Nat → U8}

include hv

theorem RootVolume.blockSize_toNat : vol.blockSize.toNat = 1024 := by
  rw [hv.blockSize]
  rfl

/-- An inode of the table. -/
theorem RootVolume.inode {inum : U32} {n : Nat} (hn : (inum - 1#32).toNat = n) (hlt : n < 16) {i : Nat}
    (hi : i < 128) : vol.inodeAt (rootImage blocks).disk inum i = rootByte (5120 + n * 128 + i) := by
  rw [inodeAt_eq hv.sound (by rw [hv.blockSize_toNat, hv.inodeSize]; exact ⟨8, rfl⟩), hv.partLba,
    hv.inodeTable, hv.blockSize_toNat, hv.inodeSize, hn]
  have haddr : 0 * 512 + (5 * 1024 + n * 128) + i = 5120 + n * 128 + i := by omega
  rw [haddr]
  unfold rootImage
  rw [driveByte_flat (rootImageByte blocks) (by omega)]
  exact if_pos (by omega)

theorem RootVolume.rootInode {i : Nat} (hi : i < 128) :
    vol.inodeAt (rootImage blocks).disk 2#32 i = rootByte (5248 + i) :=
  hv.inode (n := 1) rfl (by omega) hi

theorem RootVolume.fileInode {i : Nat} (hi : i < 128) :
    vol.inodeAt (rootImage blocks).disk 12#32 i = rootByte (6528 + i) :=
  hv.inode (n := 11) rfl (by omega) hi

theorem RootVolume.rootSize : (vol.inodeAt (rootImage blocks).disk 2#32).iSize = 2048#32 := by
  have h : (vol.inodeAt (rootImage blocks).disk 2#32).iSize = load32 (fun i => rootByte (5248 + i)) 4 :=
    load32_congr fun k hk => hv.rootInode (by omega)
  rw [h]
  rfl

theorem RootVolume.fileSize : (vol.inodeAt (rootImage blocks).disk 12#32).iSize = 600#32 := by
  have h : (vol.inodeAt (rootImage blocks).disk 12#32).iSize =
      load32 (fun i => rootByte (6528 + i)) 4 :=
    load32_congr fun k hk => hv.fileInode (by omega)
  rw [h]
  rfl

theorem RootVolume.rootBlock {k : Nat} (hk : k < 2) :
    ((vol.inodeAt (rootImage blocks).disk 2#32).iBlock k).toNat = 10 + k := by
  have h : (vol.inodeAt (rootImage blocks).disk 2#32).iBlock k =
      load32 (fun i => rootByte (5248 + i)) (40 + 4 * k) :=
    load32_congr fun x hx => hv.rootInode (by omega)
  rw [h]
  rcases (show k = 0 ∨ k = 1 by omega) with rfl | rfl <;> rfl

theorem RootVolume.fileBlock :
    (vol.inodeAt (rootImage blocks).disk 12#32).iBlock 0 = 12#32 := by
  have h : (vol.inodeAt (rootImage blocks).disk 12#32).iBlock 0 =
      load32 (fun i => rootByte (6528 + i)) 40 :=
    load32_congr fun x hx => hv.fileInode (by omega)
  rw [h]
  rfl

/-- A block from block 10 on. -/
theorem RootVolume.blockByte {b : U32} {k j : Nat} (hb : b.toNat = 10 + k) (hk : k < 54)
    (hj : j < 1024) : vol.blockByte (rootImage blocks).disk b j = blocks (k * 1024 + j) := by
  rw [blockByte_eq hv.sound.whole, hv.partLba, hv.blockSize_toNat, hb]
  have haddr : 0 * 512 + (10 + k) * 1024 + j = 10240 + (k * 1024 + j) := by omega
  rw [haddr]
  unfold rootImage
  rw [driveByte_flat (rootImageByte blocks) (by omega)]
  unfold rootImageByte
  rw [if_neg (by omega), Nat.add_sub_cancel_left]

end Volume

end PepinOS
