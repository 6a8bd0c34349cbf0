import PepinOS.Fs.Layout

/-!
# A disk with partitions

`kmain` mounts the first Linux partition of the MBR, and a disk without a partition table from
its first sector on. `part_lba` is added once, in `ext2_read_block` and in `ext2_init`; all
the rest of the driver counts from there. So the driver does on a partitioned disk exactly
what it does on the disk that begins at the partition.

The functions are taken one by one, each with `shift`: what the driver's variables are on the
whole disk when they are `e` on the partition. Nothing is asked of `p`, for the drive takes 28
bits of a sector number and `fromSector` goes round with it.
-/

namespace PepinOS

/-- The disk from sector `p` on. -/
def fromSector (disk : Disk) (p : U32) : Disk := fun n => disk ((p.toNat + n) % 2 ^ 28)

theorem ideReadSector_from (disk : Disk) (p lba : U32) :
    ideReadSector disk (p + lba) = ideReadSector (fromSector disk p) lba := by
  funext i
  rw [ideReadSector_eq, ideReadSector_eq, BitVec.toNat_add]
  unfold fromSector
  -- the driver's sum goes round at 32 bits, the drive's registers at 28
  rw [show (p.toNat + lba.toNat) % 2 ^ 32 % 2 ^ 28 =
    (p.toNat + lba.toNat % 2 ^ 28) % 2 ^ 28 by omega]

/-! ## The variables -/

/-- The same volume, `p` sectors further on. -/
def Volume.shift (p : U32) (vol : Volume) : Volume := { vol with partLba := p + vol.partLba }

def Ext2.shift (p : U32) (e : Ext2) : Ext2 := { e with vol := e.vol.shift p }

@[simp] theorem shift_blockSize (p : U32) (vol : Volume) :
    (vol.shift p).blockSize = vol.blockSize := rfl

@[simp] theorem shift_inodeSize (p : U32) (vol : Volume) :
    (vol.shift p).inodeSize = vol.inodeSize := rfl

@[simp] theorem shift_bgInodeTable (p : U32) (vol : Volume) :
    (vol.shift p).bgInodeTable = vol.bgInodeTable := rfl

@[simp] theorem shift_vol (p : U32) (e : Ext2) : (e.shift p).vol = e.vol.shift p := rfl

@[simp] theorem shift_blkA (p : U32) (e : Ext2) : (e.shift p).blkA = e.blkA := rfl

@[simp] theorem shift_blkB (p : U32) (e : Ext2) : (e.shift p).blkB = e.blkB := rfl

/-- A result of the driver, and its variables. -/
def shifted {α : Type} (p : U32) (r : Ext2 × α) : Ext2 × α := (r.1.shift p, r.2)

/-! ## The driver -/

section Driver

variable (disk : Disk) (p : U32)

theorem ext2ReadBlock_shift (vol : Volume) (block : U32) (buf : Nat → U8) :
    ext2ReadBlock disk (vol.shift p) block buf =
      ext2ReadBlock (fromSector disk p) vol block buf := by
  have hlba : ∀ x y : U32, ideReadSector disk (p + vol.partLba + x + y) =
      ideReadSector (fromSector disk p) (vol.partLba + x + y) := by
    intro x y
    rw [← ideReadSector_from, BitVec.add_assoc, BitVec.add_assoc, BitVec.add_assoc]
  unfold ext2ReadBlock
  show (if vol.sects * 512 ≤ blkSize then Except.ok (forRange 0 vol.sects (fun i b =>
    patch b (i * 512) 512 (ideReadSector disk (p + vol.partLba + block * BitVec.ofNat 32 vol.sects +
      BitVec.ofNat 32 i))) buf) else _) = _
  simp only [hlba]

theorem ext2ReadInode_shift (e : Ext2) (inum : U32) : ext2ReadInode disk (e.shift p) inum =
    shifted p <$> ext2ReadInode (fromSector disk p) e inum := by
  unfold ext2ReadInode
  simp only [shift_vol, shift_inodeSize, shift_blockSize, shift_bgInodeTable, shift_blkA,
    ext2ReadBlock_shift]
  refine ite_image (fun _ => rfl) fun _ => ite_image (fun _ => rfl) fun _ => ?_
  exact bind_image_same fun blkA => rfl

theorem ext2InodeSize_shift (e : Ext2) (inum : U32) : ext2InodeSize disk (e.shift p) inum =
    shifted p <$> ext2InodeSize (fromSector disk p) e inum :=
  bind_image (ext2ReadInode_shift disk p e inum) fun _ => rfl

theorem ext2ReadDir_shift (e : Ext2) (dirIno : U32) : ext2ReadDir disk (e.shift p) dirIno =
    shifted p <$> ext2ReadDir (fromSector disk p) e dirIno := by
  refine bind_image (ext2ReadInode_shift disk p e dirIno) fun r => ?_
  simp only [shifted, shift_vol, shift_blkB, ext2ReadBlock_shift]
  exact bind_image_same fun blkB => rfl

section Walk

variable {disk p} {behind : Ext2 → Nat → U8} (hbehind : ∀ e, behind (e.shift p) = behind e)

include hbehind

/-- The bytes behind `blk_b` may be any of the driver's variables but `part_lba`. -/
theorem dirBytes_shift (e : Ext2) : dirBytes behind (e.shift p) = dirBytes behind e := by
  unfold dirBytes
  rw [hbehind, shift_blkB]

theorem ext2Ls_shift (e : Ext2) (dirIno : U32) : ext2Ls disk behind (e.shift p) dirIno =
    shifted p <$> ext2Ls (fromSector disk p) behind e dirIno := by
  refine bind_image (ext2ReadDir_shift disk p e dirIno) fun r => ?_
  simp only [shifted, dirBytes_shift hbehind, shift_vol, shift_blockSize]
  rfl

theorem ext2Find_shift {fetch fetch' : Ext2 → U32 → Except Trap U8}
    (hfetch : ∀ e, fetch' (e.shift p) = fetch e) (e : Ext2) (dirIno name : U32) :
    ext2Find disk behind fetch' (e.shift p) dirIno name =
      shifted p <$> ext2Find (fromSector disk p) behind fetch e dirIno name := by
  refine bind_image (ext2ReadDir_shift disk p e dirIno) fun r => ?_
  simp only [shifted, hfetch, dirBytes_shift hbehind, shift_vol, shift_blockSize]
  exact bind_image_same fun ino => rfl

end Walk

section Reads

variable {M : Type} (store : M → U32 → U8 → Except Trap M) (inode : Inode) (buf : U32)

theorem readFileLoop_shift (size : U32) : ∀ (n blk : Nat) (e : Ext2) (m : M) (copied : U32),
    readFileLoop disk store inode buf size n blk (e.shift p) m copied =
      shifted p <$> readFileLoop (fromSector disk p) store inode buf size n blk e m copied := by
  intro n
  induction n with
  | zero => exact fun _ _ _ _ => rfl
  | succ n ih =>
    intro blk e m copied
    rw [readFileLoop, readFileLoop]
    simp only [shift_vol, shift_blockSize, shift_blkA, ext2ReadBlock_shift]
    refine ite_image (fun _ => ite_image (fun _ => ?_) fun _ => ?_) fun _ => rfl
    · exact bind_image_same fun m' => ih ..
    · exact bind_image_same fun blkA => bind_image_same fun m' => ih _ { e with blkA := blkA } _ _

theorem preadLoop_shift (size : Nat) : ∀ (n blk blkOff : Nat) (e : Ext2) (s : Copied M),
    preadLoop disk store inode buf size n blk blkOff (e.shift p) s =
      shifted p <$> preadLoop (fromSector disk p) store inode buf size n blk blkOff e s := by
  intro n
  induction n with
  | zero => exact fun _ _ _ _ => rfl
  | succ n ih =>
    intro blk blkOff e s
    rw [preadLoop, preadLoop]
    simp only [shift_vol, shift_blockSize, shift_blkA, ext2ReadBlock_shift]
    refine ite_image (fun _ => ite_image (fun _ => ?_) fun _ => ?_) fun _ => rfl
    · exact bind_image_same fun s' => ih ..
    · exact bind_image_same fun blkA => bind_image_same fun s' => ih _ _ { e with blkA := blkA } _

theorem ext2ReadFile_shift (e : Ext2) (m : M) (inum maxSize : U32) :
    ext2ReadFile disk store (e.shift p) m inum buf maxSize =
      shifted p <$> ext2ReadFile (fromSector disk p) store e m inum buf maxSize :=
  bind_image (ext2ReadInode_shift disk p e inum) fun _ => readFileLoop_shift ..

theorem ext2Pread_shift (e : Ext2) (m : M) (inum offset size : U32) :
    ext2Pread disk store (e.shift p) m inum buf offset size =
      shifted p <$> ext2Pread (fromSector disk p) store e m inum buf offset size := by
  refine bind_image (ext2ReadInode_shift disk p e inum) ?_
  rintro ⟨e1, inode⟩
  exact ite_image (fun _ => rfl) fun _ => preadLoop_shift ..

end Reads

theorem ext2Init_shift (e : Ext2) : ext2Init disk (e.shift p) =
    Ext2.shift p <$> ext2Init (fromSector disk p) e := by
  -- the superblock is the one sector read past `ext2_read_block`
  have hsb : ideReadSector disk ((e.shift p).vol.partLba + 2#32) =
      ideReadSector (fromSector disk p) (e.vol.partLba + 2#32) := by
    rw [← ideReadSector_from, ← BitVec.add_assoc]
    rfl
  unfold ext2Init
  simp only [hsb]
  refine ite_image (fun _ => rfl) fun _ => bind_image (s := id) ?_ fun blkA => rfl
  rw [id_map]
  exact ext2ReadBlock_shift disk p
    { e.vol with inodesPerGroup := _, blockSize := _, inodeSize := _ } _ _

end Driver

/-! ## The partition table -/

theorem orBytes (a b c d : U8) : a.setWidth 32 ||| b.setWidth 32 <<< 8 ||| c.setWidth 32 <<< 16 |||
    d.setWidth 32 <<< 24 = (d ++ c) ++ (b ++ a) := by
  apply BitVec.eq_of_getLsbD_eq
  intro i hi
  have h8 : ∀ (x : U8) j, 8 ≤ j → x.getLsbD j = false := fun x j hj => BitVec.getLsbD_of_ge x j hj
  simp only [BitVec.getLsbD_or, BitVec.getLsbD_shiftLeft, BitVec.getLsbD_setWidth,
    BitVec.getLsbD_append, hi, decide_true, Bool.true_and]
  grind

/-- Entry `i` of the partition table is the first one for Linux, and starts at `p`. -/
structure LinuxPartition (disk : Disk) (i : Nat) (p : U32) : Prop where
  signature : disk 0 510 = 0x55#8 ∧ disk 0 511 = 0xAA#8
  lt : i < 4
  type : disk 0 (0x1BE + i * 16 + 4) = 0x83#8
  first : ∀ j, j < i → disk 0 (0x1BE + j * 16 + 4) ≠ 0x83#8
  start : load32 (disk 0) (0x1BE + i * 16 + 8) = p

theorem LinuxPartition.find {disk : Disk} {i : Nat} {p : U32} (h : LinuxPartition disk i p) :
    mbrFindPartition disk = p := by
  have hmbr : ideReadSector disk 0#32 = disk 0 := by
    funext k
    exact ideReadSector_eq disk 0#32 k
  have hfind : (List.range 4).find? (fun j => disk 0 (0x1BE + j * 16 + 4) == 0x83#8) = some i := by
    rw [List.find?_range_eq_some]
    refine ⟨beq_iff_eq.mpr h.type, List.mem_range.mpr h.lt, fun j hj => ?_⟩
    rw [Bool.not_eq_true', beq_eq_false_iff_ne]
    exact h.first j hj
  have hsig : ¬(disk 0 510 ≠ 0x55#8 ∨ disk 0 511 ≠ 0xAA#8) := by
    rw [h.signature.1, h.signature.2]
    decide
  unfold mbrFindPartition
  rw [hmbr, if_neg hsig, ← h.start]
  simp only [hfind]
  -- the source shifts the four bytes together, `load32` appends them
  exact orBytes ..

section Boot

variable {disk : Disk} {i : Nat} {p : U32} (h : LinuxPartition disk i p)
  (hflat : mbrFindPartition (fromSector disk p) = 0#32)

include h hflat

theorem LinuxPartition.boot :
    ext2Boot disk = Ext2.shift p <$> ext2Boot (fromSector disk p) := by
  have hstart : ext2Unmounted p = (ext2Unmounted 0#32).shift p := by
    show _ = (⟨⟨0#32, 0#32, 0#32, fun _ => 0#8, p + 0#32⟩, _, _⟩ : Ext2)
    rw [BitVec.add_zero]
    rfl
  unfold ext2Boot
  rw [h.find, hflat, hstart]
  exact ext2Init_shift disk p _

end Boot

end PepinOS
