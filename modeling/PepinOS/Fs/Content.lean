import PepinOS.Fs.Mount

/-!
# What a file contains

The content of a file is a list of bytes read off the disk: the direct blocks in
order, zeros where there is no block, cut at `i_size`. It is defined without the
driver's buffers, which keep the rest of whatever block they held before; on a sound
volume none of that is ever looked at.

`ext2Pread_content` is the one fact the callers need: a positioned read that returns
has delivered the bytes of the content from the offset on, as many as were asked for
or are there.
-/

namespace PepinOS

/-- A mounted volume: its blocks are whole sectors and fit the buffers, and an inode is
at least the 128 bytes of `ext2_inode_t` and lies in one block. -/
structure Volume.Sound (vol : Volume) : Prop where
  fits : vol.blockSize.toNat ≤ blkSize
  whole : vol.sects * 512 = vol.blockSize.toNat
  inode : 128 ≤ vol.inodeSize.toNat
  perBlock : vol.inodeSize.toNat ≤ vol.blockSize.toNat

/-- Every mountable disk is mounted as one. -/
theorem Mountable.sound {disk : Disk} (h : Mountable disk) {e : Ext2}
    (hboot : ext2Boot disk = .ok e) : e.vol.Sound := by
  have hwhole : ∀ k < 32, (1024#32 <<< k).toNat / 512 * 512 = (1024#32 <<< k).toNat := by decide
  rcases ext2Boot_magic h.magic with ⟨hle, e', he, hb, hi⟩ | ⟨_, he⟩
  · rw [hboot] at he
    cases he
    refine ⟨by rw [hb]; exact hle, ?_, by rw [hi]; exact sbInodeSize_ge _, ?_⟩
    · rw [Volume.sects_eq, hb]
      exact hwhole _ (Nat.mod_lt _ (by omega))
    · rw [hb, hi]
      exact h.inode
  · rw [hboot] at he
    cases he

/-- `ext2_init` left `vol` on a disk with the right magic number, and the block size is one
that ext2 has. -/
structure Mounted (disk : Disk) (vol : Volume) : Prop where
  init : ∃ e0 e, load16 (ideReadSector disk (e0.vol.partLba + 2#32)) 56 = ext2Magic ∧
    ext2Init disk e0 = .ok e ∧ e.vol = vol
  size : vol.blockSize = 1024#32 ∨ vol.blockSize = 2048#32 ∨ vol.blockSize = 4096#32

section Mounted

variable {disk : Disk} {vol : Volume}

theorem Mounted.inodeSize_ge (h : Mounted disk vol) : 128 ≤ vol.inodeSize.toNat := by
  obtain ⟨⟨e0, e, hmagic, he, rfl⟩, _⟩ := h
  rcases ext2Init_magic rfl hmagic with ⟨_, e', he', _, hi⟩ | ⟨_, he'⟩
  · rw [he] at he'
    cases he'
    rw [hi]
    exact sbInodeSize_ge _
  · rw [he] at he'
    cases he'

theorem Mounted.blockSize_bounds (h : Mounted disk vol) :
    1024 ≤ vol.blockSize.toNat ∧ vol.blockSize.toNat ≤ blkSize ∧
      vol.sects * 512 = vol.blockSize.toNat := by
  rw [Volume.sects_eq]
  unfold blkSize
  rcases h.size with hs | hs | hs <;> rw [hs] <;> exact ⟨by decide, by decide, rfl⟩

/-- What is left to ask of the image: an inode fits a block. -/
theorem Mounted.sound (h : Mounted disk vol) (hfit : vol.inodeSize ≤ vol.blockSize) :
    vol.Sound where
  fits := h.blockSize_bounds.2.1
  whole := h.blockSize_bounds.2.2
  inode := h.inodeSize_ge
  perBlock := hfit

end Mounted

theorem Volume.Sound.blockSize_pos {vol : Volume} (h : vol.Sound) : 0 < vol.blockSize.toNat := by
  have := h.inode
  have := h.perBlock
  omega

/-- A sound volume can be read. -/
theorem Volume.Sound.readable {vol : Volume} (h : vol.Sound) : vol.Readable where
  fits := h.whole ▸ h.fits
  inode := by
    intro h0
    have hge := h.inode
    rw [h0] at hge
    exact absurd hge (by decide)
  perBlock := by
    intro h0
    have hdiv : vol.blockSize.toNat / vol.inodeSize.toNat = 0 := by
      rw [← BitVec.toNat_udiv, h0]
      rfl
    have := h.inode
    have := h.perBlock
    have := Nat.div_eq_zero_iff.mp hdiv
    omega

/-! ## The content -/

/-- Byte `j` of block `block`, as the drive presents it: the sector number is a sum of 32 bits and
the drive takes 28 of them, so that of a block beyond its reach it is the byte found where the
address wraps to (`blockByte_eq`). -/
def Volume.blockByte (disk : Disk) (vol : Volume) (block : U32) (j : Nat) : U8 :=
  ideReadSector disk
    (vol.partLba + block * BitVec.ofNat 32 vol.sects + BitVec.ofNat 32 (j / 512)) (j % 512)

/-- Inode `inum` of the inode table. -/
def Volume.inodeAt (disk : Disk) (vol : Volume) (inum : U32) : Inode := fun i =>
  let ipb := vol.blockSize / vol.inodeSize
  vol.blockByte disk (vol.bgInodeTable + (inum - 1#32) / ipb)
    (((inum - 1#32) % ipb * vol.inodeSize).toNat + i)

/-- Byte `off` of the direct blocks of a file. -/
def Volume.fileByte (disk : Disk) (vol : Volume) (inode : Inode) (off : Nat) : U8 :=
  let block := inode.iBlock (off / vol.blockSize.toNat)
  if block = 0#32 then 0#8 else vol.blockByte disk block (off % vol.blockSize.toNat)

/-- How much of a file can be read. -/
def Volume.fileLen (vol : Volume) (inode : Inode) : Nat :=
  min inode.iSize.toNat (12 * vol.blockSize.toNat)

/-- The readable content of file `inum`. -/
def Volume.content (disk : Disk) (vol : Volume) (inum : U32) : List U8 :=
  (List.range (vol.fileLen (vol.inodeAt disk inum))).map
    (vol.fileByte disk (vol.inodeAt disk inum))

theorem content_length (disk : Disk) (vol : Volume) (ino : U32) :
    (vol.content disk ino).length = vol.fileLen (vol.inodeAt disk ino) := by
  unfold Volume.content
  rw [List.length_map, List.length_range]

/-! ## The driver's reads -/

section Reads

variable {disk : Disk} {vol : Volume}

/-- The bytes of a block after it is read. -/
theorem ext2ReadBlock_byte {block : U32} {buf buf' : Nat → U8}
    (h : ext2ReadBlock disk vol block buf = .ok buf') {j : Nat} (hj : j < vol.sects * 512) :
    buf' j = vol.blockByte disk block j := by
  simp only [ext2ReadBlock] at h
  split at h
  next =>
    cases h
    -- after `i` sectors the first `i * 512` bytes are there
    have hall := forRange_inv (f := fun i b => patch b (i * 512) 512 (ideReadSector disk
        (vol.partLba + block * BitVec.ofNat 32 vol.sects + BitVec.ofNat 32 i))) (s := buf)
      (fun i b => ∀ j, j < i * 512 → b j = vol.blockByte disk block j) (Nat.zero_le vol.sects)
      (fun j hj => absurd hj (by omega)) (fun i b _ _ hb j hj => ?_)
    · exact hall j hj
    · rcases Nat.lt_or_ge j (i * 512) with hlt | hge
      · rw [patch_out fun hin => absurd hin.1 (Nat.not_le.mpr hlt)]
        exact hb j hlt
      · have hdiv : j / 512 = i := by omega
        have hin : InRun (i * 512) 512 j := ⟨hge, by omega⟩
        rw [patch_in hin]
        unfold Volume.blockByte
        rw [hdiv, show j % 512 = j - i * 512 by omega]
  next => cases h

/-- The inode that is read, as far as `ext2_inode_t` goes. -/
theorem ext2ReadInode_byte {e e' : Ext2} {inum : U32} {inode : Inode} (hv : e.vol.Sound)
    (h : ext2ReadInode disk e inum = .ok (e', inode)) {i : Nat} (hi : i < 128) :
    inode i = e.vol.inodeAt disk inum i := by
  obtain ⟨_, _, blkA, hblk, _, rfl⟩ := ext2ReadInode_ok h
  unfold Volume.inodeAt
  refine ext2ReadBlock_byte hblk ?_
  rw [hv.whole]
  obtain ⟨hfits, _, hge, hle⟩ := hv
  unfold blkSize at hfits
  generalize e.vol.blockSize = bs at *
  generalize e.vol.inodeSize = is at *
  generalize inum - 1#32 = idx
  -- the inode ends before the block does
  have hipb : (bs / is).toNat = bs.toNat / is.toNat := BitVec.toNat_udiv
  have hpos : 0 < bs.toNat / is.toNat := Nat.div_pos hle (by omega)
  have hmod : (idx % (bs / is)).toNat < bs.toNat / is.toNat := by
    rw [BitVec.toNat_umod, hipb]
    exact Nat.mod_lt _ hpos
  have hmul : ((idx % (bs / is)).toNat + 1) * is.toNat ≤ bs.toNat :=
    (Nat.mul_le_mul_right _ hmod).trans (Nat.div_mul_le_self _ _)
  rw [Nat.add_mul, Nat.one_mul] at hmul
  rw [BitVec.toNat_mul, Nat.mod_eq_of_lt (by omega)]
  omega

/-- Only the 128 bytes count. -/
theorem iSize_congr {i i' : Inode} (h : ∀ k, k < 128 → i k = i' k) : i.iSize = i'.iSize :=
  load32_congr fun x hx => h (4 + x) (by omega)

theorem iBlock_congr {i i' : Inode} (h : ∀ k, k < 128 → i k = i' k) {b : Nat} (hb : b < 12) :
    i.iBlock b = i'.iBlock b :=
  load32_congr fun x hx => h (40 + 4 * b + x) (by omega)

theorem fileByte_congr {i i' : Inode} (h : ∀ k, k < 128 → i k = i' k) {off : Nat}
    (hoff : off < 12 * vol.blockSize.toNat) : vol.fileByte disk i off = vol.fileByte disk i' off := by
  unfold Volume.fileByte
  rw [iBlock_congr h (Nat.div_lt_of_lt_mul (by rw [Nat.mul_comm]; exact hoff))]

end Reads

/-! ## The copy loops -/

section Copy

variable {M : Type} {store : M → U32 → U8 → Except Trap M} {disk : Disk}

/-- The inner loop delivers the next bytes of its source, up to the end of the block or of
the request. -/
theorem copyBlock_bytes {buf : U32} {size : Nat} {src : Nat → U8} : ∀ {n j : Nat} {s s' : Copied M},
    copyBlock store buf size src n j s = .ok s' →
      s'.bytes = s.bytes ++ (List.range' j (min n (size - s.bytes.length))).map src := by
  intro n
  induction n with
  | zero =>
    intro j s s' h
    cases h
    rw [Nat.zero_min, List.range'_zero, List.map_nil, List.append_nil]
  | succ n ih =>
    intro j s s' h
    rw [copyBlock] at h
    split at h
    next hlt =>
      obtain ⟨port, _, h⟩ := bind_ok h
      have hbytes := ih h
      simp only [List.length_append, List.length_singleton] at hbytes
      rw [show min (n + 1) (size - s.bytes.length) =
          min n (size - (s.bytes.length + 1)) + 1 by omega, List.range'_succ, List.map_cons, hbytes,
        List.append_assoc, List.singleton_append]
    next hge =>
      cases h
      rw [show min (n + 1) (size - s.bytes.length) = 0 by omega, List.range'_zero, List.map_nil,
        List.append_nil]

/-- The same values, read from `p` on. -/
theorem map_range'_shift {src f : Nat → U8} {p a n : Nat}
    (h : ∀ j, j < a + n → src j = f (p + j)) :
    (List.range' a n).map src = (List.range' (p + a) n).map f := by
  rw [← List.map_add_range', List.map_map]
  refine List.map_congr_left fun j hj => ?_
  rw [List.mem_range'_1] at hj
  exact h j hj.2

/-- The positions of a block of `b` bytes from `off` on, then those of the `rest` after it, as
far as `size` bytes are wanted and `len` are there. -/
theorem range'_block {p b off rest len len1 size : Nat} (hoff : off ≤ b)
    (hlen : len1 = len + min (b - off) (size - len)) :
    List.range' (p + off) (min (b - off) (size - len)) ++
        List.range' (p + b) (min rest (size - len1)) =
      List.range' (p + off) (min (rest + b - off) (size - len)) := by
  rcases Nat.lt_or_ge len1 size with hmore | hdone
  · rw [show p + b = p + off + min (b - off) (size - len) by omega, List.range'_append_1]
    congr 1
    omega
  · rw [show min rest (size - len1) = 0 by omega, List.range'_zero, List.append_nil]
    congr 1
    omega

/-- The outer loop delivers the next bytes of the direct blocks. -/
theorem preadLoop_bytes {inode : Inode} {buf : U32} {size : Nat} :
    ∀ {n blk blkOff : Nat} {e e' : Ext2} {s s' : Copied M}, e.vol.sects * 512 = e.vol.blockSize.toNat →
    blkOff ≤ e.vol.blockSize.toNat →
    preadLoop disk store inode buf size n blk blkOff e s = .ok (e', s') →
      s'.bytes = s.bytes ++ (List.range' (blk * e.vol.blockSize.toNat + blkOff)
        (min (n * e.vol.blockSize.toNat - blkOff) (size - s.bytes.length))).map
          (e.vol.fileByte disk inode) := by
  intro n
  induction n with
  | zero =>
    intro blk blkOff e e' s s' _ _ h
    cases h
    rw [Nat.zero_mul, Nat.zero_sub, Nat.zero_min, List.range'_zero, List.map_nil, List.append_nil]
  | succ n ih =>
    intro blk blkOff e e' s s' hwhole hoff h
    -- one block, whatever its bytes come from, and the blocks after it
    have hstep : ∀ {src : Nat → U8} {e1 : Ext2} {s1 : Copied M}, e1.vol = e.vol →
        (∀ j, j < e.vol.blockSize.toNat →
          src j = e.vol.fileByte disk inode (blk * e.vol.blockSize.toNat + j)) →
        copyBlock store buf size src (e.vol.blockSize.toNat - blkOff) blkOff s = .ok s1 →
        preadLoop disk store inode buf size n (blk + 1) 0 e1 s1 = .ok (e', s') →
        s'.bytes = s.bytes ++ (List.range' (blk * e.vol.blockSize.toNat + blkOff)
          (min ((n + 1) * e.vol.blockSize.toNat - blkOff) (size - s.bytes.length))).map
            (e.vol.fileByte disk inode) := by
      intro src e1 s1 hv hsrc h1 h2
      have hb1 := copyBlock_bytes h1
      have hb2 := ih (by rw [hv]; exact hwhole) (Nat.zero_le _) h2
      have hlen := congrArg List.length hb1
      rw [List.length_append, List.length_map, List.length_range'] at hlen
      generalize s1.bytes.length = len1 at hlen hb2
      rw [hb2, hv, hb1, map_range'_shift fun j hj => hsrc j (by omega), List.append_assoc,
        ← List.map_append, Nat.succ_mul blk, Nat.succ_mul n, Nat.sub_zero, Nat.add_zero,
        range'_block hoff hlen]
    have hpos : ∀ {j : Nat}, j < e.vol.blockSize.toNat →
        (blk * e.vol.blockSize.toNat + j) / e.vol.blockSize.toNat = blk ∧
          (blk * e.vol.blockSize.toNat + j) % e.vol.blockSize.toNat = j := by
      intro j hj
      rw [Nat.mul_comm, Nat.mul_add_div (by omega), Nat.mul_add_mod, Nat.div_eq_of_lt hj,
        Nat.mod_eq_of_lt hj, Nat.add_zero]
      exact ⟨rfl, rfl⟩
    rw [preadLoop] at h
    split at h
    next hlt =>
      simp only at h
      split at h
      next hsparse =>
        obtain ⟨s1, h1, h⟩ := bind_ok h
        refine hstep rfl (fun j hj => ?_) h1 h
        unfold Volume.fileByte
        rw [(hpos hj).1, if_pos hsparse]
      next hblock =>
        obtain ⟨blkA, hread, h⟩ := bind_ok h
        obtain ⟨s1, h1, h⟩ := bind_ok h
        refine hstep (by rfl) (fun j hj => ?_) h1 h
        unfold Volume.fileByte
        rw [(hpos hj).1, (hpos hj).2, if_neg hblock]
        exact ext2ReadBlock_byte hread (hwhole ▸ hj)
    next hge =>
      cases h
      rw [show size - s.bytes.length = 0 by omega, Nat.min_zero, List.range'_zero, List.map_nil,
        List.append_nil]

theorem take_range' (a n k : Nat) : (List.range' a n).take k = List.range' a (min k n) := by
  rcases Nat.le_total n k with h | h
  · rw [List.take_range'_of_length_le h, Nat.min_eq_right h]
  · rw [List.take_range'_of_length_ge h, Nat.min_eq_left h]

/-- How many bytes a positioned read delivers. The sum is the one of the source: it can wrap,
and the size is then not clipped. -/
def Volume.preadLen (vol : Volume) (inode : Inode) (offset size : U32) : Nat :=
  if offset ≥ inode.iSize then 0
  else
    min (if offset + size > inode.iSize then inode.iSize - offset else size).toNat
      (12 * vol.blockSize.toNat - offset.toNat)

theorem preadLen_le (vol : Volume) (inode : Inode) (offset size : U32) :
    vol.preadLen inode offset size ≤ 12 * vol.blockSize.toNat - offset.toNat := by
  unfold Volume.preadLen
  split
  next => exact Nat.zero_le _
  next => exact Nat.min_le_right ..

/-- Where the sum does not wrap, the size is clipped to the end of the file. -/
theorem preadLen_exact {vol : Volume} {inode : Inode} {offset size : U32}
    (hsum : offset.toNat + size.toNat < 2 ^ 32) :
    vol.preadLen inode offset size = min size.toNat (vol.fileLen inode - offset.toNat) := by
  unfold Volume.preadLen Volume.fileLen
  have hadd : (offset + size).toNat = offset.toNat + size.toNat := by
    rw [BitVec.toNat_add, Nat.mod_eq_of_lt hsum]
  split
  next hend =>
    have hle : inode.iSize.toNat ≤ offset.toNat := hend
    omega
  next hend =>
    have hlt : offset.toNat < inode.iSize.toNat := Nat.lt_of_not_le hend
    split
    next hgt =>
      have hgt' : inode.iSize.toNat < (offset + size).toNat := hgt
      rw [BitVec.toNat_sub_of_le (BitVec.le_def.mpr hlt.le)]
      omega
    next hle =>
      have hle' : ¬inode.iSize.toNat < (offset + size).toNat := hle
      omega

/-- The bytes a positioned read delivers: those of the file from the offset on. -/
theorem ext2Pread_bytes {e e' : Ext2} (hv : e.vol.Sound) {m : M} {inum buf offset size : U32}
    {c : Copied M} (h : ext2Pread disk store e m inum buf offset size = .ok (e', c)) :
    c.bytes = (List.range' offset.toNat
      (e.vol.preadLen (e.vol.inodeAt disk inum) offset size)).map
        (e.vol.fileByte disk (e.vol.inodeAt disk inum)) := by
  obtain ⟨⟨e1, inode⟩, h1, h⟩ := bind_ok h
  have hbyte : ∀ k, k < 128 → inode k = e.vol.inodeAt disk inum k :=
    fun k hk => ext2ReadInode_byte hv h1 hk
  have hvol := ext2ReadInode_vol h1
  have hpos := hv.blockSize_pos
  have hlen : e.vol.preadLen (e.vol.inodeAt disk inum) offset size =
      e.vol.preadLen inode offset size := by
    unfold Volume.preadLen
    rw [iSize_congr hbyte]
  have hcongr : (List.range' offset.toNat (e.vol.preadLen inode offset size)).map
      (e.vol.fileByte disk (e.vol.inodeAt disk inum)) =
        (List.range' offset.toNat (e.vol.preadLen inode offset size)).map
          (e.vol.fileByte disk inode) := by
    refine List.map_congr_left fun j hj => (fileByte_congr hbyte ?_).symm
    rw [List.mem_range'_1] at hj
    have := preadLen_le e.vol inode offset size
    omega
  rw [hlen, hcongr]
  unfold Volume.preadLen
  simp only at h
  split at h
  next hend =>
    cases h
    rw [if_pos hend, List.range'_zero, List.map_nil]
  next hend =>
    rw [hvol] at h
    have hbytes := preadLoop_bytes (by rw [hvol]; exact hv.whole) (by
      rw [hvol, BitVec.toNat_umod]
      exact (Nat.mod_lt _ hpos).le) h
    rw [hvol, BitVec.toNat_udiv, BitVec.toNat_umod, List.nil_append, List.length_nil,
      Nat.sub_zero] at hbytes
    rw [if_neg hend, hbytes]
    have hoff := Nat.div_add_mod offset.toNat e.vol.blockSize.toNat
    have hmod := Nat.mod_lt offset.toNat hpos
    have hstart : offset.toNat / e.vol.blockSize.toNat * e.vol.blockSize.toNat +
        offset.toNat % e.vol.blockSize.toNat = offset.toNat := by
      rw [Nat.mul_comm]
      exact hoff
    have hleft : (12 - offset.toNat / e.vol.blockSize.toNat) * e.vol.blockSize.toNat -
        offset.toNat % e.vol.blockSize.toNat = 12 * e.vol.blockSize.toNat - offset.toNat := by
      rw [Nat.sub_mul]
      omega
    rw [hstart, hleft, Nat.min_comm]

/-- **A positioned read delivers the content from the offset on**, as much as is asked for
and there is. -/
theorem ext2Pread_content {e e' : Ext2} (hv : e.vol.Sound) {m : M} {inum buf offset size : U32}
    {c : Copied M} (h : ext2Pread disk store e m inum buf offset size = .ok (e', c))
    (hsum : offset.toNat + size.toNat < 2 ^ 32) :
    c.bytes = ((e.vol.content disk inum).drop offset.toNat).take size.toNat := by
  rw [ext2Pread_bytes hv h, preadLen_exact hsum]
  unfold Volume.content
  rw [List.range_eq_range', ← List.map_drop, ← List.map_take, List.drop_range', take_range',
    Nat.zero_add, Nat.mul_one]

end Copy

end PepinOS
