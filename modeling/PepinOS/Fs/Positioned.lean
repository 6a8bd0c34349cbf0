import PepinOS.Fs.DemoDisk

/-!
# The two ways to read a file

The loader reads a file with `ext2_read_file`, the system calls with `ext2_pread`.
One counts in blocks, works out how many bytes of each it needs and copies those;
the other tests the byte count before every single byte. `readFile_eq_pread` is the
simulation: from offset 0 both do the same stores in the same order, whatever a
store does, and both end with the same count or the same exception.

What a positioned read delivers is exact but for one slip. `ext2_pread` clips the size
to the end of the file by the 32-bit sum `offset + size`, and where that sum wraps it
does not clip: the read goes on to the end of the last direct block.
`pread_exact_iff` says when.
-/

namespace PepinOS

section WholeFile

variable {M : Type} {store : M → U32 → U8 → Except Trap M} {disk : Disk}

/-- Testing the count at every byte, or knowing it beforehand. -/
theorem copyBlock_eq_copyBytes {buf : U32} {size : Nat} {src : Nat → U8} :
    ∀ (n j first : Nat) (s : Copied M), s.bytes.length = first + j →
      copyBlock store buf size src n j s =
        (copyBytes store (buf + BitVec.ofNat 32 first) src (min n (size - s.bytes.length)) j
          s.port).map fun m =>
            ⟨m, s.bytes ++ (List.range' j (min n (size - s.bytes.length))).map src⟩ := by
  intro n
  induction n with
  | zero =>
    intro j first s _
    rw [Nat.zero_min, List.range'_zero, List.map_nil, List.append_nil]
    rfl
  | succ n ih =>
    intro j first s hlen
    rw [copyBlock]
    split
    next hlt =>
      have haddr : buf + BitVec.ofNat 32 s.bytes.length =
          buf + BitVec.ofNat 32 first + BitVec.ofNat 32 j := by
        rw [hlen, BitVec.ofNat_add, BitVec.add_assoc]
      rw [show min (n + 1) (size - s.bytes.length) = min n (size - (s.bytes.length + 1)) + 1 by
        omega, copyBytes, haddr]
      cases store s.port (buf + BitVec.ofNat 32 first + BitVec.ofNat 32 j) (src j) with
      | error t => rfl
      | ok port =>
        have hlen' : (s.bytes ++ [src j]).length = s.bytes.length + 1 := by
          rw [List.length_append, List.length_singleton]
        simp only [ok_bind]
        rw [ih (j + 1) first ⟨port, s.bytes ++ [src j]⟩ (by rw [hlen']; omega), hlen',
          List.range'_succ, List.map_cons]
        simp only [List.append_assoc, List.singleton_append]
    next hge =>
      rw [show min (n + 1) (size - s.bytes.length) = 0 by omega, List.range'_zero, List.map_nil,
        List.append_nil]
      rfl

/-- The loops, block by block. Both have delivered whole blocks so far, so the sums of the
source do not wrap. -/
theorem readFileLoop_eq_preadLoop {inode : Inode} {buf size : U32} :
    ∀ (n blk : Nat) (e : Ext2) (s : Copied M), e.vol.blockSize.toNat < 8192 → blk + n = 12 →
      s.bytes.length ≤ blk * e.vol.blockSize.toNat →
      readFileLoop disk store inode buf size n blk e s.port (BitVec.ofNat 32 s.bytes.length) =
        (preadLoop disk store inode buf size.toNat n blk 0 e s).map fun r =>
          (r.1, r.2.port, BitVec.ofNat 32 r.2.bytes.length) := by
  intro n
  induction n with
  | zero =>
    intro blk e s _ _ _
    rfl
  | succ n ih =>
    intro blk e s hbs hblk hwhole
    have hlen : s.bytes.length < 12 * 8192 := by
      have : blk * e.vol.blockSize.toNat ≤ 12 * 8192 := Nat.mul_le_mul (by omega) hbs.le
      have : blk * e.vol.blockSize.toNat ≤ 11 * 8192 := Nat.mul_le_mul (by omega) hbs.le
      omega
    have hcopied : (BitVec.ofNat 32 s.bytes.length).toNat = s.bytes.length := by
      rw [BitVec.toNat_ofNat, Nat.mod_eq_of_lt (by omega)]
    have hmore : BitVec.ofNat 32 s.bytes.length < size ↔ s.bytes.length < size.toNat := by
      rw [BitVec.lt_def, hcopied]
    rw [readFileLoop, preadLoop]
    simp only [hmore]
    split
    next hlt =>
      -- `bytes`, as the source computes it
      generalize hb : (if BitVec.ofNat 32 s.bytes.length + e.vol.blockSize > size
        then size - BitVec.ofNat 32 s.bytes.length else e.vol.blockSize) = bytes
      have hbytes : bytes.toNat = min e.vol.blockSize.toNat (size.toNat - s.bytes.length) := by
        have hadd : (BitVec.ofNat 32 s.bytes.length + e.vol.blockSize).toNat =
            s.bytes.length + e.vol.blockSize.toNat := by
          rw [BitVec.toNat_add, hcopied, Nat.mod_eq_of_lt (by omega)]
        rw [← hb]
        split
        next hgt =>
          have hgt' : size.toNat < (BitVec.ofNat 32 s.bytes.length + e.vol.blockSize).toNat := hgt
          rw [BitVec.toNat_sub_of_le (by rw [BitVec.le_def, hcopied]; exact hlt.le), hcopied]
          omega
        next hle =>
          have hle' : ¬size.toNat < (BitVec.ofNat 32 s.bytes.length + e.vol.blockSize).toNat := hle
          omega
      -- one block, whatever its bytes come from, and the blocks after it
      have hstep : ∀ (src : Nat → U8) (e1 : Ext2), e1.vol = e.vol →
          (copyBytes store (buf + BitVec.ofNat 32 s.bytes.length) src bytes.toNat 0 s.port >>=
            fun m => readFileLoop disk store inode buf size n (blk + 1) e1 m
              (BitVec.ofNat 32 s.bytes.length + bytes)) =
          (copyBlock store buf size.toNat src (e.vol.blockSize.toNat - 0) 0 s >>= fun s1 =>
            preadLoop disk store inode buf size.toNat n (blk + 1) 0 e1 s1).map fun r =>
              (r.1, r.2.port, BitVec.ofNat 32 r.2.bytes.length) := by
        intro src e1 hv
        rw [copyBlock_eq_copyBytes _ 0 s.bytes.length s rfl, Nat.sub_zero, ← hbytes]
        cases copyBytes store (buf + BitVec.ofNat 32 s.bytes.length) src bytes.toNat 0 s.port with
        | error t => rfl
        | ok port =>
          have hlen1 : (s.bytes ++ (List.range' 0 bytes.toNat).map src).length =
              s.bytes.length + bytes.toNat := by
            rw [List.length_append, List.length_map, List.length_range']
          have hsum : BitVec.ofNat 32 s.bytes.length + bytes =
              BitVec.ofNat 32 (s.bytes ++ (List.range' 0 bytes.toNat).map src).length := by
            rw [hlen1, BitVec.ofNat_add, BitVec.ofNat_toNat, BitVec.setWidth_eq]
          simp only [ok_bind, Except.map]
          rw [hsum]
          refine ih (blk + 1) e1 ⟨port, s.bytes ++ (List.range' 0 bytes.toNat).map src⟩
            (by rw [hv]; exact hbs) (by omega) ?_
          rw [hlen1, hv, Nat.succ_mul, hbytes]
          omega
      split
      next => exact hstep _ e rfl
      next =>
        cases ext2ReadBlock disk e.vol (inode.iBlock blk) e.blkA with
        | error t => rfl
        | ok blkA => exact hstep blkA { e with blkA := blkA } rfl
    next => rfl

/-- `ext2_read_file` by the loop of `ext2_pread`. -/
theorem ext2ReadFile_loop (e : Ext2) (m : M) (inum buf maxSize : U32) :
    ext2ReadFile disk store e m inum buf maxSize =
      ext2ReadInode disk e inum >>= fun r =>
        (preadLoop disk store r.2 buf (if r.2.iSize < maxSize then r.2.iSize else maxSize).toNat 12 0
          0 r.1 ⟨m, []⟩).map fun r => (r.1, r.2.port, BitVec.ofNat 32 r.2.bytes.length) := by
  unfold ext2ReadFile
  refine bind_congr_ok fun r hread => ?_
  obtain ⟨e1, inode⟩ := r
  -- reading the inode has shown that a block fits the buffer
  obtain ⟨_, _, blkA, hblk, rfl, _⟩ := ext2ReadInode_ok hread
  have hs := ext2ReadBlock_sects hblk
  rw [e.vol.sects_eq] at hs
  unfold blkSize at hs
  have hbs : e.vol.blockSize.toNat < 8192 := by omega
  exact readFileLoop_eq_preadLoop 12 0 { e with blkA := blkA } ⟨m, []⟩ hbs rfl (Nat.zero_le _)

theorem ext2ReadFile_vol {e e' : Ext2} {m m' : M} {inum buf maxSize copied : U32}
    (h : ext2ReadFile disk store e m inum buf maxSize = .ok (e', m', copied)) : e'.vol = e.vol := by
  rw [ext2ReadFile_loop] at h
  obtain ⟨⟨e1, inode⟩, hread, h⟩ := bind_ok h
  cases hloop : preadLoop disk store inode buf (if inode.iSize < maxSize then inode.iSize
      else maxSize).toNat 12 0 0 e1 ⟨m, []⟩ with
  | error t =>
    rw [hloop] at h
    cases h
  | ok r =>
    rw [hloop] at h
    obtain ⟨e2, c⟩ := r
    cases h
    have hkeeps := preadLoop_keeps (P := fun _ => True) (fun _ _ _ _ _ _ => trivial) hloop trivial
    exact hkeeps.2.1.trans (ext2ReadInode_vol hread)

/-- **Reading a whole file is reading it from offset 0**: the same stores into the buffer, the
same variables of the driver, the same count. -/
theorem readFile_eq_pread (disk : Disk) (store : M → U32 → U8 → Except Trap M) (e : Ext2) (m : M)
    (inum buf maxSize : U32) :
    ext2ReadFile disk store e m inum buf maxSize =
      (ext2Pread disk store e m inum buf 0#32 maxSize).map fun r =>
        (r.1, r.2.port, BitVec.ofNat 32 r.2.bytes.length) := by
  rw [ext2ReadFile_loop]
  unfold ext2Pread
  cases ext2ReadInode disk e inum with
  | error t => rfl
  | ok r =>
    obtain ⟨e1, inode⟩ := r
    simp only [ok_bind]
    rw [BitVec.zero_udiv, BitVec.zero_umod, BitVec.zero_add, BitVec.sub_zero]
    have hempty : inode.iSize ≤ 0#32 →
        (if inode.iSize < maxSize then inode.iSize else maxSize) = 0#32 := by
      intro hle
      rw [BitVec.le_zero_iff.mp hle]
      split
      next => rfl
      next hge => exact BitVec.le_zero_iff.mp (BitVec.not_lt.mp hge)
    rw [show (if maxSize > inode.iSize then inode.iSize else maxSize) =
      if inode.iSize < maxSize then inode.iSize else maxSize from rfl]
    generalize (if inode.iSize < maxSize then inode.iSize else maxSize) = size at hempty ⊢
    split
    next hle =>
      -- an empty file: no turn of the loop
      rw [hempty hle]
      rfl
    next => rfl

end WholeFile

/-! ## The exact read -/

/-- A store to the caller's memory, as plain bytes. -/
def putByte (m : U32 → U8) (va : U32) (b : U8) : Except Trap (U32 → U8) :=
  .ok (Function.update m va b)

/-- The memory `m` with `bytes` at `buf`. -/
def filled (m : U32 → U8) (buf : U32) (bytes : List U8) : U32 → U8 :=
  fun a => bytes[(a - buf).toNat]?.getD (m a)

/-- `ext2_pread` returns the exact count (the difference is 0 past the end), puts the bytes
of the file there and writes nothing else. -/
def PreadExact (disk : Disk) (e : Ext2) (m : U32 → U8) (inum buf offset size : U32) : Prop :=
  let inode := e.vol.inodeAt disk inum
  let n := min size.toNat (min inode.iSize.toNat (12 * e.vol.blockSize.toNat) - offset.toNat)
  ∃ e' c, ext2Pread disk putByte e m inum buf offset size = .ok (e', c) ∧ c.bytes.length = n ∧
    ∀ a, c.port a = if (a - buf).toNat < n then
        e.vol.fileByte disk inode (offset.toNat + (a - buf).toNat)
      else m a

section Exact

variable {disk : Disk} {e : Ext2} {m : U32 → U8} {inum buf offset size : U32}

theorem filled_snoc (m : U32 → U8) (buf : U32) {bytes : List U8} (b : U8)
    (hlen : bytes.length < 2 ^ 32) :
    Function.update (filled m buf bytes) (buf + BitVec.ofNat 32 bytes.length) b =
      filled m buf (bytes ++ [b]) := by
  funext a
  unfold filled
  by_cases ha : a = buf + BitVec.ofNat 32 bytes.length
  · have hoff : (a - buf).toNat = bytes.length := by
      rw [ha, BitVec.add_comm, BitVec.add_sub_cancel, BitVec.toNat_ofNat, Nat.mod_eq_of_lt hlen]
    rw [ha, Function.update_self, ← ha, hoff, List.getElem?_concat_length]
    rfl
  · have hoff : (a - buf).toNat ≠ bytes.length := by
      intro h
      refine ha ?_
      rw [← h, BitVec.ofNat_toNat, BitVec.setWidth_eq, BitVec.add_comm, BitVec.sub_add_cancel]
    rw [Function.update_of_ne ha, List.getElem?_append]
    split
    next => rfl
    next hge =>
      rw [List.getElem?_eq_none (by omega),
        List.getElem?_eq_none (by rw [List.length_singleton]; omega)]

/-- The bytes delivered are the bytes stored. -/
theorem ext2Pread_filled {e' : Ext2} {c : Copied (U32 → U8)}
    (h : ext2Pread disk putByte e m inum buf offset size = .ok (e', c)) :
    c.port = filled m buf c.bytes := by
  refine ext2Pread_ind (Q := fun c => c.port = filled m buf c.bytes) (fun s b port hQ hlt hs => ?_)
    h rfl
  cases hs
  show Function.update s.port _ b = _
  rw [hQ]
  exact filled_snoc m buf b hlt

/-- What a read on a sound volume comes to. -/
theorem ext2Pread_sound (hv : e.vol.Sound) (m : U32 → U8) (inum buf offset size : U32) :
    ∃ e' c, ext2Pread disk putByte e m inum buf offset size = .ok (e', c) ∧
      c.bytes.length = e.vol.preadLen (e.vol.inodeAt disk inum) offset size ∧
      ∀ a, c.port a = if (a - buf).toNat < e.vol.preadLen (e.vol.inodeAt disk inum) offset size then
        e.vol.fileByte disk (e.vol.inodeAt disk inum) (offset.toNat + (a - buf).toNat) else m a := by
  obtain ⟨e', c, h, _⟩ := ext2Pread_poke disk hv.readable Function.update m inum buf offset size
  have hbytes := ext2Pread_bytes hv h
  refine ⟨e', c, h, ?_, fun a => ?_⟩
  · rw [hbytes, List.length_map, List.length_range']
  · rw [ext2Pread_filled h, hbytes]
    unfold filled
    split
    next hlt =>
      rw [List.getElem?_map, List.getElem?_range' hlt, Nat.one_mul]
      rfl
    next hge =>
      rw [List.getElem?_eq_none (by rw [List.length_map, List.length_range']; omega)]
      rfl

/-- The delivered length is the exact one unless the sum wraps on a file that ends before
its twelve blocks do. -/
theorem preadLen_exact_iff {vol : Volume} {inode : Inode} (hbs : vol.blockSize.toNat ≤ blkSize) :
    vol.preadLen inode offset size =
        min size.toNat (min inode.iSize.toNat (12 * vol.blockSize.toNat) - offset.toNat) ↔
      ¬(offset < inode.iSize ∧ inode.iSize.toNat < 12 * vol.blockSize.toNat ∧
        2 ^ 32 ≤ offset.toNat + size.toNat) := by
  unfold blkSize at hbs
  rcases Nat.lt_or_ge (offset.toNat + size.toNat) (2 ^ 32) with hsum | hwrap
  · exact ⟨fun _ h => absurd h.2.2 (Nat.not_le.mpr hsum), fun _ => preadLen_exact hsum⟩
  · have hadd : (offset + size).toNat = offset.toNat + size.toNat - 2 ^ 32 := by
      rw [BitVec.toNat_add]
      omega
    unfold Volume.preadLen
    split
    next hend =>
      have hle : inode.iSize.toNat ≤ offset.toNat := hend
      exact ⟨fun _ h => absurd h.1 (BitVec.not_lt.mpr hend), fun _ => by omega⟩
    next hend =>
      have hlt : offset.toNat < inode.iSize.toNat := Nat.lt_of_not_le hend
      -- the wrapped sum is smaller than the offset
      rw [if_neg (by
        show ¬inode.iSize.toNat < (offset + size).toNat
        omega)]
      constructor
      · rintro h ⟨_, hshort, _⟩
        omega
      · intro h
        have hlong : 12 * vol.blockSize.toNat ≤ inode.iSize.toNat :=
          Nat.le_of_not_lt fun hshort => h ⟨hlt, hshort, hwrap⟩
        omega

/-- **A positioned read is exact** on every volume with an inode in a block, unless the file
is shorter than twelve blocks and the end of the request wraps. -/
theorem pread_exact_iff {disk : Disk} {e : Ext2} (hm : Mounted disk e.vol) (m : U32 → U8)
    (inum buf offset size : U32) :
    PreadExact disk e m inum buf offset size ↔
      e.vol.inodeSize ≤ e.vol.blockSize ∧
      ¬(offset < (e.vol.inodeAt disk inum).iSize ∧
        (e.vol.inodeAt disk inum).iSize.toNat < 12 * e.vol.blockSize.toNat ∧
        2 ^ 32 ≤ offset.toNat + size.toNat) := by
  rw [← preadLen_exact_iff hm.blockSize_bounds.2.1]
  constructor
  · rintro ⟨e', c, h, hlen, _⟩
    have hfit : e.vol.inodeSize ≤ e.vol.blockSize := by
      obtain ⟨⟨e1, inode⟩, h1, _⟩ := bind_ok h
      obtain ⟨_, hdiv, _⟩ := ext2ReadInode_ok h1
      refine BitVec.le_def.mpr (Nat.le_of_not_lt fun hlt => hdiv ?_)
      apply BitVec.eq_of_toNat_eq
      rw [BitVec.toNat_udiv, Nat.div_eq_of_lt hlt]
      rfl
    obtain ⟨e2, c2, h2, hlen2, _⟩ := ext2Pread_sound (hm.sound hfit) m inum buf offset size
    rw [h] at h2
    cases h2
    exact ⟨hfit, hlen2.symm.trans hlen⟩
  · rintro ⟨hfit, hlen⟩
    obtain ⟨e', c, h, hlen2, hbyte⟩ := ext2Pread_sound (hm.sound hfit) m inum buf offset size
    rw [hlen] at hlen2 hbyte
    exact ⟨e', c, h, hlen2, hbyte⟩

theorem pread_exact_demo : ∃ e : Ext2, PreadExact demoDisk e (fun _ => 0#8) 3#32 0#32 1#32 4#32 := by
  obtain ⟨e, hm, hv⟩ := demoDisk_mounted
  refine ⟨e, (pread_exact_iff hm _ _ _ _ _).mpr ⟨hv.sound.perBlock, fun h => ?_⟩⟩
  exact absurd h.2.2 (by decide)

/-- Reading an eight byte file from byte 1 on, as many bytes as a register can ask for: the
read delivers the rest of all twelve blocks. -/
theorem pread_exact_wraps :
    ¬∀ (disk : Disk) (e : Ext2), Mounted disk e.vol → ∀ m inum buf offset size,
      PreadExact disk e m inum buf offset size := by
  intro hall
  obtain ⟨e, hm, hv⟩ := demoDisk_mounted
  obtain ⟨e', c, h, hlen, _⟩ := hall demoDisk e hm (fun _ => 0#8) 3#32 0#32 1#32 0xFFFFFFFF#32
  obtain ⟨e2, c2, h2, hlen2, _⟩ :=
    ext2Pread_sound hv.sound (fun _ => 0#8) 3#32 0#32 1#32 0xFFFFFFFF#32
  rw [h] at h2
  cases h2
  have hexact := (preadLen_exact_iff hv.sound.fits).mp (hlen2.symm.trans hlen)
  rw [hv.iSize, hv.blockSize] at hexact
  exact hexact ⟨by decide, by decide, by decide⟩

end Exact

end PepinOS
