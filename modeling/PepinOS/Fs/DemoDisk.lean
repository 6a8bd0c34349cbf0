import PepinOS.Fs.Content
import PepinOS.Fs.Vfs

/-!
# A disk for runs on fixed inputs

All its sectors are alike: as superblock, group descriptor, inode table, directory and
file at once they are an ext2 volume with one file, named `3`, of eight bytes. The file
is found, opened and read (`DemoVolume.open`, `DemoVolume.read`).
-/

namespace PepinOS

/-- Every sector. Inode 2 is the root directory, inode 3 the file. -/
def demoSector (i : Nat) : U8 :=
  match i with
  -- the directory: inode 3, a record of 1024 bytes, a name of one byte
  | 0 => 3#8
  | 5 => 4#8
  | 6 => 1#8
  | 7 => 1#8
  | 8 => 0x33#8
  -- the superblock: the magic number
  | 56 => 0x53#8
  | 57 => 0xEF#8
  -- inode 2: 1024 bytes, block 1
  | 133 => 4#8
  | 168 => 1#8
  -- inode 3: 8 bytes, block 1
  | 260 => 8#8
  | 296 => 1#8
  | _ => 0#8

def demoDisk : Disk := fun _ i => demoSector i

/-- The disk is mountable. -/
theorem demoDisk_mountable : Mountable demoDisk where
  magic := rfl
  block := Nat.le_of_ble_eq_true rfl
  inode := BitVec.le_def.mpr (Nat.le_of_ble_eq_true rfl)

theorem demoDisk_boot : ∃ e, ext2Boot demoDisk = .ok e ∧ e.vol.Readable ∧ e.vol.Sound ∧
    e.vol.blockSize = 1024#32 ∧ e.vol.inodeSize = 128#32 := by
  obtain ⟨e, he, hr⟩ := demoDisk_mountable.boot
  refine ⟨e, he, hr, demoDisk_mountable.sound he, ?_⟩
  rcases ext2Boot_magic demoDisk_mountable.magic with ⟨_, e', he', hb, hi⟩ | ⟨_, he'⟩
  · rw [he] at he'
    cases he'
    exact ⟨hb, hi⟩
  · rw [he] at he'
    cases he'

/-- A volume with the sizes of this disk. -/
structure DemoVolume (vol : Volume) : Prop where
  readable : vol.Readable
  sound : vol.Sound
  blockSize : vol.blockSize = 1024#32
  inodeSize : vol.inodeSize = 128#32

theorem demoDisk_mounted : ∃ e : Ext2, Mounted demoDisk e.vol ∧ DemoVolume e.vol := by
  obtain ⟨e, he, hr, hs, hb, hi⟩ := demoDisk_boot
  exact ⟨e, ⟨⟨_, e, rfl, he, rfl⟩, .inl hb⟩, hr, hs, hb, hi⟩

theorem DemoVolume.inodeAt {vol : Volume} (hv : DemoVolume vol) (inum : U32) (i : Nat) :
    vol.inodeAt demoDisk inum i =
      demoSector ((((inum - 1#32) % 8#32 * 128#32).toNat + i) % 512) := by
  unfold Volume.inodeAt
  rw [hv.blockSize, hv.inodeSize]
  rfl

/-- The file has eight bytes. -/
theorem DemoVolume.iSize {vol : Volume} (hv : DemoVolume vol) :
    (vol.inodeAt demoDisk 3#32).iSize = 8#32 := by
  unfold Inode.iSize load32
  simp only [hv.inodeAt]
  rfl

theorem DemoVolume.content_length {vol : Volume} (hv : DemoVolume vol) :
    (vol.content demoDisk 3#32).length = 8 := by
  rw [PepinOS.content_length]
  unfold Volume.fileLen
  rw [hv.iSize, hv.blockSize]
  rfl

/-- The one record of the root directory. -/
theorem demoRoot_record {b : Nat → U8} (hb : ∀ j, j < 1024 → b j = demoSector (j % 512)) :
    deRecLen b 0 = 1024 ∧ deInode b 0 = 3#32 ∧ deName b 0 = [0x33#8] := by
  refine ⟨?_, ?_, ?_⟩
  · unfold deRecLen load16
    rw [hb _ (by omega), hb _ (by omega)]
    rfl
  · unfold deInode load32
    rw [hb _ (by omega), hb _ (by omega), hb _ (by omega), hb _ (by omega)]
    rfl
  · unfold deName
    rw [hb _ (by omega)]
    show [b 8] = _
    rw [hb _ (by omega)]
    rfl

section Word

variable {M : Type} {store : M → U32 → U8 → Except Trap M} {buf : U32} {src : Nat → U8}

/-- One turn of the inner loop. -/
theorem copyBlock_store {size n j : Nat} {s : Copied M} {m : M} (hlt : s.bytes.length < size)
    (hst : store s.port (buf + BitVec.ofNat 32 s.bytes.length) (src j) = .ok m) :
    copyBlock store buf size src (n + 1) j s =
      copyBlock store buf size src n (j + 1) ⟨m, s.bytes ++ [src j]⟩ := by
  rw [copyBlock, if_pos hlt, hst, ok_bind]

/-- Four stores fill a request of four bytes. -/
theorem copyBlock_word {m m1 m2 m3 m4 : M} (n : Nat) (h0 : store m buf (src 0) = .ok m1)
    (h1 : store m1 (buf + 1#32) (src 1) = .ok m2) (h2 : store m2 (buf + 2#32) (src 2) = .ok m3)
    (h3 : store m3 (buf + 3#32) (src 3) = .ok m4) :
    copyBlock store buf 4 src (n + 5) 0 ⟨m, []⟩ = .ok ⟨m4, [src 0, src 1, src 2, src 3]⟩ := by
  rw [← show buf + BitVec.ofNat 32 0 = buf from BitVec.add_zero buf] at h0
  have hlt : ∀ k, k < 4 → k < 4 := fun k hk => hk
  calc copyBlock store buf 4 src (n + 5) 0 ⟨m, []⟩
      = copyBlock store buf 4 src (n + 4) 1 ⟨m1, [src 0]⟩ :=
        copyBlock_store (hlt 0 (by omega)) h0
    _ = copyBlock store buf 4 src (n + 3) 2 ⟨m2, [src 0, src 1]⟩ :=
        copyBlock_store (hlt 1 (by omega)) h1
    _ = copyBlock store buf 4 src (n + 2) 3 ⟨m3, [src 0, src 1, src 2]⟩ :=
        copyBlock_store (hlt 2 (by omega)) h2
    _ = copyBlock store buf 4 src (n + 1) 4 ⟨m4, [src 0, src 1, src 2, src 3]⟩ :=
        copyBlock_store (hlt 3 (by omega)) h3
    _ = .ok ⟨m4, [src 0, src 1, src 2, src 3]⟩ := by
        rw [copyBlock]
        exact if_neg (Nat.lt_irrefl 4)

end Word

section Volume

variable {e : Ext2} (hv : DemoVolume e.vol)

include hv

/-- The inode that is read. -/
theorem DemoVolume.inode (inum : U32) : ∃ e1 inode, ext2ReadInode demoDisk e inum = .ok (e1, inode) ∧
    e1.vol = e.vol ∧ ∀ i, i < 128 →
      inode i = demoSector ((((inum - 1#32) % 8#32 * 128#32).toNat + i) % 512) := by
  obtain ⟨e1, inode, h1⟩ := hv.readable.readInode demoDisk inum
  refine ⟨e1, inode, h1, ext2ReadInode_vol h1, fun i hi => ?_⟩
  rw [ext2ReadInode_byte hv.sound h1 hi, hv.inodeAt]

theorem DemoVolume.root : ∃ e1 inode, ext2ReadDir demoDisk e ext2RootInode = .ok (e1, inode) ∧
    e1.vol = e.vol ∧ inode.iSize = 1024#32 ∧ ∀ j, j < 1024 → e1.blkB j = demoSector (j % 512) := by
  obtain ⟨e1, inode, h1, hv1, hbyte⟩ := hv.inode ext2RootInode
  obtain ⟨buf, hb⟩ := (hv1 ▸ hv.readable).block demoDisk (inode.iBlock 0) e1.blkB
  refine ⟨{ e1 with blkB := buf }, inode, ?_, hv1, ?_, fun j hj => ?_⟩
  · unfold ext2ReadDir
    simp only [h1, ok_bind, hb]
    rfl
  · unfold Inode.iSize load32
    rw [hbyte 4 (by omega), hbyte 5 (by omega), hbyte 6 (by omega), hbyte 7 (by omega)]
    rfl
  · refine ext2ReadBlock_byte hb ?_
    rw [hv1, hv.sound.whole, hv.blockSize]
    exact hj

/-- The name `3` is found, wherever it is read from. -/
theorem DemoVolume.find (behind : Ext2 → Nat → U8) {fetch : Ext2 → U32 → Except Trap U8}
    {path : U32} (h0 : ∀ e, fetch e path = .ok 0x33#8)
    (h1 : ∀ e, fetch e (path + 1#32) = .ok 0#8) :
    ∃ e1, ext2Find demoDisk behind fetch e ext2RootInode path = .ok (e1, 3#32) ∧
      e1.vol = e.vol := by
  obtain ⟨e1, inode, hdir, hv1, hsize, hblk⟩ := hv.root
  have hb : ∀ j, j < 1024 → dirBytes behind e1 j = demoSector (j % 512) := by
    intro j hj
    rw [← hblk j hj]
    exact if_pos (by unfold blkSize; omega)
  obtain ⟨hrec, hino, hname⟩ := demoRoot_record hb
  have hmatch : dirMatch (fetch e1) [0x33#8] path = .ok true := by
    unfold dirMatch dirMatch
    rw [h0, ok_bind, h1]
    rfl
  refine ⟨e1, ?_, hv1⟩
  unfold ext2Find
  simp only [hdir, ok_bind, hsize, hv1, hv.blockSize]
  show (findLoop (fetch e1) (dirBytes behind e1) 1024 1024 path (1023 + 1) 0 >>= _) = _
  rw [findLoop, if_pos ⟨Nat.succ_pos _, Nat.succ_pos _⟩, hrec, hino, hname, hmatch]
  rfl

/-- `vfs_open` of that name takes the first free entry. -/
theorem DemoVolume.open (behind : Ext2 → Nat → U8) {fetch : Ext2 → U32 → Except Trap U8}
    {path : U32} (h0 : ∀ e, fetch e path = .ok 0x33#8)
    (h1 : ∀ e, fetch e (path + 1#32) = .ok 0#8) {pool : NodePool}
    (hpool : ∀ n, (pool n).used = false) :
    ∃ e1 node, vfsOpen demoDisk behind fetch pool e path =
        .ok (Function.update pool 0 node, e1, some 0) ∧ e1.vol = e.vol ∧ node.inode = 3#32 ∧
      node.read = some .ext2NodeRead := by
  obtain ⟨e1, hfind, hv1⟩ := hv.find behind h0 h1
  have hv1' : DemoVolume e1.vol := hv1 ▸ hv
  obtain ⟨e2, inode, hread, hv2, _⟩ := hv1'.inode 3#32
  have hfree : freeNode pool = some 0 := by
    unfold freeNode
    simp only [hpool]
    rfl
  have hslash : ¬(0x33#8 = 0x2F#8) := by decide
  have hzero : ¬(0x33#8 = 0#8) := by decide
  have hsize : ext2InodeSize demoDisk e1 3#32 = .ok (e2, inode.iSize) := by
    unfold ext2InodeSize
    rw [hread]
    rfl
  have hname : copyName (fetch e2) path 63 0 (pool 0).name =
      .ok (store8 (store8 (pool 0).name 0 0x33#8) 1 0#8) := by
    rw [copyName, show path + BitVec.ofNat 32 0 = path from BitVec.add_zero path, h0, ok_bind,
      if_neg hzero, copyName, h1]
    rfl
  refine ⟨e2, ⟨store8 (store8 (pool 0).name 0 0x33#8) 1 0#8, fsFile, 3#32, inode.iSize,
    some .ext2NodeRead, true⟩, ?_, hv2.trans hv1, rfl, rfl⟩
  unfold vfsOpen
  simp only [hfree, h0, ok_bind, if_neg hslash, hfind, hsize, hname]
  rfl

/-- Reading a word from the start of the file, to where its bytes can be stored. -/
theorem DemoVolume.read (pool : NodePool) {M : Type} {store : M → U32 → U8 → Except Trap M}
    {buf : U32} {s s1 s2 s3 s' : M} (hino : (pool 0).inode = 3#32)
    (hr : (pool 0).read = some .ext2NodeRead) (h0 : store s buf 3#8 = .ok s1)
    (h1 : store s1 (buf + 1#32) 0#8 = .ok s2) (h2 : store s2 (buf + 2#32) 0#8 = .ok s3)
    (h3 : store s3 (buf + 3#32) 0#8 = .ok s') :
    ∃ e1, vfsRead demoDisk store pool e s (some 0) 0#32 4#32 buf =
      .ok (e1, ⟨s', [3#8, 0#8, 0#8, 0#8]⟩) := by
  obtain ⟨e1, inode, hread, hv1, hbyte⟩ := hv.inode 3#32
  have hv1' : DemoVolume e1.vol := hv1 ▸ hv
  obtain ⟨blk, hblk⟩ := hv1'.readable.block demoDisk (inode.iBlock 0) e1.blkA
  have hbytes : ∀ j, j < 1024 → blk j = demoSector (j % 512) := by
    intro j hj
    refine ext2ReadBlock_byte hblk ?_
    rw [hv1'.sound.whole, hv1'.blockSize]
    exact hj
  have hsize : inode.iSize = 8#32 := by
    unfold Inode.iSize load32
    rw [hbyte 4 (by omega), hbyte 5 (by omega), hbyte 6 (by omega), hbyte 7 (by omega)]
    rfl
  have hblock : inode.iBlock 0 = 1#32 := by
    unfold Inode.iBlock load32
    rw [hbyte 40 (by omega), hbyte 41 (by omega), hbyte 42 (by omega), hbyte 43 (by omega)]
    rfl
  have hcopy : copyBlock store buf 4 blk 1024 0 ⟨s, []⟩ =
      .ok ⟨s', [3#8, 0#8, 0#8, 0#8]⟩ := by
    have hb : blk 0 = 3#8 ∧ blk 1 = 0#8 ∧ blk 2 = 0#8 ∧ blk 3 = 0#8 :=
      ⟨hbytes 0 (by omega), hbytes 1 (by omega), hbytes 2 (by omega), hbytes 3 (by omega)⟩
    obtain ⟨hb0, hb1, hb2, hb3⟩ := hb
    have hword : copyBlock store buf 4 blk (1019 + 5) 0 ⟨s, []⟩ = .ok ⟨s', _⟩ :=
      copyBlock_word 1019 (by rw [hb0]; exact h0) (by rw [hb1]; exact h1) (by rw [hb2]; exact h2)
        (by rw [hb3]; exact h3)
    rw [hb0, hb1, hb2, hb3] at hword
    exact hword
  unfold vfsRead
  simp only [hr]
  unfold ext2Pread
  have hend : ¬(0#32 ≥ 8#32) := by decide
  have hfit : ¬(0#32 + 4#32 > 8#32) := by decide
  have hpos : ¬(inode.iBlock 0 = 0#32) := by rw [hblock]; decide
  simp only [hino, hread, ok_bind, hsize, if_neg hend, if_neg hfit, hv1'.blockSize]
  show ∃ e1', preadLoop demoDisk store inode buf 4 (11 + 1) 0 0 e1 ⟨s, []⟩ = .ok (e1', _)
  refine ⟨{ e1 with blkA := blk }, ?_⟩
  have hlt : (Copied.mk s []).bytes.length < 4 := Nat.succ_pos 3
  rw [preadLoop, if_pos hlt]
  simp only [if_neg hpos, hblk, ok_bind, hv1'.blockSize]
  show (copyBlock store buf 4 blk 1024 0 ⟨s, []⟩ >>= _) = _
  rw [hcopy, ok_bind, preadLoop]
  exact if_neg (Nat.lt_irrefl 4)

end Volume

end PepinOS
