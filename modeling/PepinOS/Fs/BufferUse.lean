import PepinOS.Lib.Trace
import PepinOS.Fs.Positioned

/-!
# The indices of the block buffers

`blk_a` and `blk_b` are 4096 bytes each, and nothing in the driver compares an index
with that. Here the functions of the driver are written once more, and each index that
`ext2_read_block` writes, and that `ext2_init`, `ext2_read_inode`, `ext2_pread` and
`ext2_read_file` read, is noted (the walks through a directory are not part of this);
without the notes they are the functions of the driver.

The bound rests on two variables that mounting sets, the block size and the inode size.
`Volume.Bounded` is what it needs of them. `buffers_iff` says for which superblocks
mounting gives it: those whose block fits a buffer. A block size that is shifted out of
the word is 0, and then no block is read at all.
-/

namespace PepinOS

open Traced

section Noted

variable {M : Type} (disk : Disk) (store : M → U32 → U8 → Except Trap M)

/-- `ext2_read_block`: sector `i` goes to the 512 bytes from `i * 512` on. -/
def ext2ReadBlockB (vol : Volume) (block : U32) (buf : Nat → U8) : Traced Nat Trap (Nat → U8) := do
  touch ((List.range vol.sects).flatMap fun i => List.range' (i * 512) 512)
  lift (ext2ReadBlock disk vol block buf)

def ext2InitB (e : Ext2) : Traced Nat Trap Ext2 := do
  let sb := ideReadSector disk (e.vol.partLba + 2#32)
  let magic := load16 sb 56
  let logBsz := load32 sb 24
  let rev := load32 sb 76
  let firstData := load32 sb 20
  let sbInodeSz := load16 sb 88
  let vol := { e.vol with inodesPerGroup := load32 sb 40 }
  if magic ≠ ext2Magic then return { e with vol := vol }
  let vol := { vol with
    blockSize := 1024#32 <<< (logBsz.toNat % 32)
    inodeSize := if 1#32 ≤ rev ∧ 128#16 ≤ sbInodeSz then sbInodeSz.setWidth 32 else 128#32 }
  let blkA ← ext2ReadBlockB disk vol (firstData + 1#32) e.blkA
  touch (List.range 32)
  return { e with
    vol := { vol with bgd := fun i => if i < 32 then blkA i else vol.bgd i }
    blkA := blkA }

def ext2ReadInodeB (e : Ext2) (inum : U32) : Traced Nat Trap (Ext2 × Inode) := do
  let idx := inum - 1#32
  if e.vol.inodeSize = 0#32 then lift (.error .exception) else
  let ipb := e.vol.blockSize / e.vol.inodeSize
  if ipb = 0#32 then lift (.error .exception) else
  let block := e.vol.bgInodeTable + idx / ipb
  let offset := (idx % ipb) * e.vol.inodeSize
  let blkA ← ext2ReadBlockB disk e.vol block e.blkA
  touch (List.range' offset.toNat 128)
  return ({ e with blkA := blkA }, fun i => blkA (offset.toNat + i))

def ext2InodeSizeB (e : Ext2) (inum : U32) : Traced Nat Trap (Ext2 × U32) := do
  let (e, inode) ← ext2ReadInodeB disk e inum
  return (e, inode.iSize)

def ext2ReadDirB (e : Ext2) (dirIno : U32) : Traced Nat Trap (Ext2 × Inode) := do
  let (e, inode) ← ext2ReadInodeB disk e dirIno
  let blkB ← ext2ReadBlockB disk e.vol (inode.iBlock 0) e.blkB
  return ({ e with blkB := blkB }, inode)

def ext2LsB (behind : Ext2 → Nat → U8) (e : Ext2) (dirIno : U32) :
    Traced Nat Trap (Ext2 × List (List U8)) := do
  let (e, inode) ← ext2ReadDirB disk e dirIno
  return (e, lsLoop (dirBytes behind e) inode.iSize.toNat e.vol.blockSize.toNat
    e.vol.blockSize.toNat 0)

def ext2FindB (behind : Ext2 → Nat → U8) (fetch : Ext2 → U32 → Except Trap U8) (e : Ext2)
    (dirIno name : U32) : Traced Nat Trap (Ext2 × U32) := do
  let (e, inode) ← ext2ReadDirB disk e dirIno
  let ino ← lift (findLoop (fetch e) (dirBytes behind e) inode.iSize.toNat e.vol.blockSize.toNat name
    e.vol.blockSize.toNat 0)
  return (e, ino)

/-- A byte of a hole; what is not a hole is read from `blk_a`. -/
def holeByte (_ : Nat) : Traced Nat Trap U8 := return 0#8

def copyBlockB (buf : U32) (size : Nat) (src : Nat → Traced Nat Trap U8) :
    Nat → Nat → Copied M → Traced Nat Trap (Copied M)
  | 0, _, s => return s
  | n + 1, j, s =>
    if s.bytes.length < size then do
      let x ← src j
      let port ← lift (store s.port (buf + BitVec.ofNat 32 s.bytes.length) x)
      copyBlockB buf size src n (j + 1) ⟨port, s.bytes ++ [x]⟩
    else return s

def preadLoopB (inode : Inode) (buf : U32) (size : Nat) :
    Nat → Nat → Nat → Ext2 → Copied M → Traced Nat Trap (Ext2 × Copied M)
  | 0, _, _, e, s => return (e, s)
  | n + 1, blk, blkOff, e, s =>
    if s.bytes.length < size then
      let turns := e.vol.blockSize.toNat - blkOff
      if inode.iBlock blk = 0#32 then do
        let s ← copyBlockB store buf size holeByte turns blkOff s
        preadLoopB inode buf size n (blk + 1) 0 e s
      else do
        let blkA ← ext2ReadBlockB disk e.vol (inode.iBlock blk) e.blkA
        let s ← copyBlockB store buf size (readAt blkA) turns blkOff s
        preadLoopB inode buf size n (blk + 1) 0 { e with blkA := blkA } s
    else return (e, s)

def ext2PreadB (e : Ext2) (m : M) (inum buf offset size : U32) :
    Traced Nat Trap (Ext2 × Copied M) := do
  let (e, inode) ← ext2ReadInodeB disk e inum
  let fileSize := inode.iSize
  if offset ≥ fileSize then return (e, ⟨m, []⟩)
  let size := if offset + size > fileSize then fileSize - offset else size
  let blk := (offset / e.vol.blockSize).toNat
  preadLoopB disk store inode buf size.toNat (12 - blk) blk (offset % e.vol.blockSize).toNat e ⟨m, []⟩

def copyBytesB (buf : U32) (src : Nat → Traced Nat Trap U8) : Nat → Nat → M → Traced Nat Trap M
  | 0, _, m => return m
  | n + 1, j, m => do
    let x ← src j
    let m ← lift (store m (buf + BitVec.ofNat 32 j) x)
    copyBytesB buf src n (j + 1) m

def readFileLoopB (inode : Inode) (buf size : U32) :
    Nat → Nat → Ext2 → M → U32 → Traced Nat Trap (Ext2 × M × U32)
  | 0, _, e, m, copied => return (e, m, copied)
  | n + 1, blk, e, m, copied =>
    if copied < size then
      let bytes := if copied + e.vol.blockSize > size then size - copied else e.vol.blockSize
      if inode.iBlock blk = 0#32 then do
        let m ← copyBytesB store (buf + copied) holeByte bytes.toNat 0 m
        readFileLoopB inode buf size n (blk + 1) e m (copied + bytes)
      else do
        let blkA ← ext2ReadBlockB disk e.vol (inode.iBlock blk) e.blkA
        let m ← copyBytesB store (buf + copied) (readAt blkA) bytes.toNat 0 m
        readFileLoopB inode buf size n (blk + 1) { e with blkA := blkA } m (copied + bytes)
    else return (e, m, copied)

def ext2ReadFileB (e : Ext2) (m : M) (inum buf maxSize : U32) :
    Traced Nat Trap (Ext2 × M × U32) := do
  let (e, inode) ← ext2ReadInodeB disk e inum
  let size := if inode.iSize < maxSize then inode.iSize else maxSize
  readFileLoopB disk store inode buf size 12 0 e m 0#32

end Noted

/-! ## Without the notes -/

section Erase

variable {M : Type} (disk : Disk) (store : M → U32 → U8 → Except Trap M)

theorem ext2ReadBlockB_result (vol : Volume) (block : U32) (buf : Nat → U8) :
    (ext2ReadBlockB disk vol block buf).result = ext2ReadBlock disk vol block buf := by
  unfold ext2ReadBlockB
  rw [result_bind, result_touch, ok_bind, result_lift]

theorem ext2InitB_result (e : Ext2) : (ext2InitB disk e).result = ext2Init disk e := by
  unfold ext2InitB ext2Init
  simp only
  split
  next => rfl
  next =>
    rw [result_bind, ext2ReadBlockB_result]
    rfl

theorem ext2ReadInodeB_result (e : Ext2) (inum : U32) :
    (ext2ReadInodeB disk e inum).result = ext2ReadInode disk e inum := by
  unfold ext2ReadInodeB ext2ReadInode
  simp only
  split
  next => rfl
  next =>
    split
    next => rfl
    next =>
      rw [result_bind, ext2ReadBlockB_result]
      rfl

theorem ext2InodeSizeB_result (e : Ext2) (inum : U32) :
    (ext2InodeSizeB disk e inum).result = ext2InodeSize disk e inum := by
  unfold ext2InodeSizeB ext2InodeSize
  rw [result_bind, ext2ReadInodeB_result]
  rfl

theorem ext2ReadDirB_result (e : Ext2) (dirIno : U32) :
    (ext2ReadDirB disk e dirIno).result = ext2ReadDir disk e dirIno := by
  unfold ext2ReadDirB ext2ReadDir
  rw [result_bind, ext2ReadInodeB_result]
  refine bind_congr_ok fun r _ => ?_
  obtain ⟨e1, inode⟩ := r
  simp only [result_bind, ext2ReadBlockB_result]
  rfl

theorem ext2LsB_result (behind : Ext2 → Nat → U8) (e : Ext2) (dirIno : U32) :
    (ext2LsB disk behind e dirIno).result = ext2Ls disk behind e dirIno := by
  unfold ext2LsB ext2Ls
  rw [result_bind, ext2ReadDirB_result]
  rfl

theorem ext2FindB_result (behind : Ext2 → Nat → U8) (fetch : Ext2 → U32 → Except Trap U8) (e : Ext2)
    (dirIno name : U32) :
    (ext2FindB disk behind fetch e dirIno name).result = ext2Find disk behind fetch e dirIno name := by
  unfold ext2FindB ext2Find
  rw [result_bind, ext2ReadDirB_result]
  refine bind_congr_ok fun r _ => ?_
  obtain ⟨e1, inode⟩ := r
  simp only [result_bind, result_lift]
  rfl

theorem holeByte_result (j : Nat) : (holeByte j).result = .ok 0#8 := rfl

theorem copyBlockB_result (buf : U32) (size : Nat) {src : Nat → Traced Nat Trap U8} {f : Nat → U8}
    (hsrc : ∀ j, (src j).result = .ok (f j)) : ∀ n j (s : Copied M),
    (copyBlockB store buf size src n j s).result = copyBlock store buf size f n j s := by
  intro n
  induction n with
  | zero => exact fun j s => rfl
  | succ n ih =>
    intro j s
    rw [copyBlockB, copyBlock]
    split
    next => simp only [result_bind, hsrc, ok_bind, result_lift, ih]
    next => rfl

theorem preadLoopB_result (inode : Inode) (buf : U32) (size : Nat) :
    ∀ n blk blkOff (e : Ext2) (s : Copied M),
    (preadLoopB disk store inode buf size n blk blkOff e s).result =
      preadLoop disk store inode buf size n blk blkOff e s := by
  intro n
  induction n with
  | zero => exact fun blk blkOff e s => rfl
  | succ n ih =>
    intro blk blkOff e s
    rw [preadLoopB, preadLoop]
    split
    next =>
      simp only
      split
      next => simp only [result_bind, copyBlockB_result store buf size holeByte_result, ih]
      next =>
        simp only [result_bind, ext2ReadBlockB_result, ih]
        refine bind_congr_ok fun blkA _ => ?_
        rw [copyBlockB_result store buf size (readAt_result blkA)]
    next => rfl

theorem ext2PreadB_result (e : Ext2) (m : M) (inum buf offset size : U32) :
    (ext2PreadB disk store e m inum buf offset size).result =
      ext2Pread disk store e m inum buf offset size := by
  unfold ext2PreadB ext2Pread
  rw [result_bind, ext2ReadInodeB_result]
  refine bind_congr_ok fun r _ => ?_
  obtain ⟨e1, inode⟩ := r
  simp only
  split
  next => rfl
  next => exact preadLoopB_result disk store _ _ _ _ _ _ _ _

theorem copyBytesB_result (buf : U32) {src : Nat → Traced Nat Trap U8} {f : Nat → U8}
    (hsrc : ∀ j, (src j).result = .ok (f j)) : ∀ n j (m : M),
    (copyBytesB store buf src n j m).result = copyBytes store buf f n j m := by
  intro n
  induction n with
  | zero => exact fun j m => rfl
  | succ n ih =>
    intro j m
    rw [copyBytesB, copyBytes]
    simp only [result_bind, hsrc, ok_bind, result_lift, ih]

theorem readFileLoopB_result (inode : Inode) (buf size : U32) :
    ∀ n blk (e : Ext2) (m : M) (copied : U32),
    (readFileLoopB disk store inode buf size n blk e m copied).result =
      readFileLoop disk store inode buf size n blk e m copied := by
  intro n
  induction n with
  | zero => exact fun blk e m copied => rfl
  | succ n ih =>
    intro blk e m copied
    rw [readFileLoopB, readFileLoop]
    split
    next =>
      simp only
      generalize (if copied + e.vol.blockSize > size then size - copied else e.vol.blockSize) = bytes
      split
      next => simp only [result_bind, copyBytesB_result store _ holeByte_result, ih]
      next =>
        simp only [result_bind, ext2ReadBlockB_result, ih]
        refine bind_congr_ok fun blkA _ => ?_
        rw [copyBytesB_result store _ (readAt_result blkA)]
    next => rfl

theorem ext2ReadFileB_result (e : Ext2) (m : M) (inum buf maxSize : U32) :
    (ext2ReadFileB disk store e m inum buf maxSize).result =
      ext2ReadFile disk store e m inum buf maxSize := by
  unfold ext2ReadFileB ext2ReadFile
  rw [result_bind, ext2ReadInodeB_result]
  refine bind_congr_ok fun r _ => ?_
  obtain ⟨e1, inode⟩ := r
  exact readFileLoopB_result disk store _ _ _ _ _ _ _ _

end Erase

/-! ## The bound -/

/-- What the bound needs of a mounted volume. -/
structure Volume.Bounded (vol : Volume) : Prop where
  block : vol.blockSize.toNat ≤ blkSize
  inode : 128 ≤ vol.inodeSize.toNat

section Bound

variable {M : Type} {disk : Disk} {store : M → U32 → U8 → Except Trap M} {vol : Volume} {e e' : Ext2}

theorem ext2ReadBlockB_within (disk : Disk) (block : U32) (buf : Nat → U8) :
    (ext2ReadBlockB disk vol block buf).Within (· < blkSize) ↔ vol.sects * 512 ≤ blkSize := by
  unfold ext2ReadBlockB blkSize
  rw [within_bind_ok (result_touch _), within_touch, and_iff_left (within_lift _)]
  constructor
  · intro h
    rcases Nat.eq_zero_or_pos vol.sects with h0 | hpos
    · omega
    · have hlast := h (vol.sects * 512 - 1) (List.mem_flatMap.mpr ⟨vol.sects - 1,
        List.mem_range.mpr (by omega), List.mem_range'_1.mpr ⟨by omega, by omega⟩⟩)
      omega
  · intro h w hw
    obtain ⟨i, hi, hw⟩ := List.mem_flatMap.mp hw
    rw [List.mem_range] at hi
    rw [List.mem_range'_1] at hw
    omega

theorem Volume.Bounded.readBlock (h : vol.Bounded) (disk : Disk) (block : U32) (buf : Nat → U8) :
    (ext2ReadBlockB disk vol block buf).Within (· < blkSize) := by
  rw [ext2ReadBlockB_within, vol.sects_eq]
  exact (Nat.div_mul_le_self _ _).trans h.block

/-- An inode that is read ends where its block does, at the latest. -/
theorem Volume.Bounded.readInode (h : e.vol.Bounded) (disk : Disk) (inum : U32) :
    (ext2ReadInodeB disk e inum).Within (· < blkSize) := by
  unfold ext2ReadInodeB
  simp only
  split
  next => exact within_lift _
  next =>
    split
    next => exact within_lift _
    next hipb =>
      refine within_bind.mpr ⟨h.readBlock disk _ _, fun blkA _ => ?_⟩
      rw [within_bind_ok (result_touch _), within_touch, and_iff_left (within_pure _)]
      intro w hw
      rw [List.mem_range'_1] at hw
      obtain ⟨hblock, hinode⟩ := h
      generalize e.vol.blockSize = bs at *
      generalize e.vol.inodeSize = is at *
      generalize inum - 1#32 = idx at *
      have hdiv : (bs / is).toNat = bs.toNat / is.toNat := BitVec.toNat_udiv
      have hpos : 0 < bs.toNat / is.toNat :=
        Nat.pos_of_ne_zero fun h0 => hipb (BitVec.eq_of_toNat_eq (hdiv.trans h0))
      have hmod : (idx % (bs / is)).toNat < bs.toNat / is.toNat := by
        rw [BitVec.toNat_umod, hdiv]
        exact Nat.mod_lt _ hpos
      have hend : ((idx % (bs / is)).toNat + 1) * is.toNat ≤ bs.toNat :=
        (Nat.mul_le_mul_right _ hmod).trans (Nat.div_mul_le_self _ _)
      rw [Nat.add_mul, Nat.one_mul] at hend
      rw [BitVec.toNat_mul, Nat.mod_eq_of_lt (by omega)] at hw
      omega

theorem Volume.Bounded.after (h : e.vol.Bounded) {inum : U32} {inode : Inode}
    (hread : (ext2ReadInodeB disk e inum).result = .ok (e', inode)) : e'.vol.Bounded := by
  rw [ext2ReadInodeB_result] at hread
  rw [ext2ReadInode_vol hread]
  exact h

theorem Volume.Bounded.readDir (h : e.vol.Bounded) (disk : Disk) (dirIno : U32) :
    (ext2ReadDirB disk e dirIno).Within (· < blkSize) := by
  refine within_bind.mpr ⟨h.readInode disk dirIno, fun r hr => ?_⟩
  obtain ⟨e1, inode⟩ := r
  exact within_bind.mpr ⟨(h.after hr).readBlock disk _ _, fun _ _ => within_pure _⟩

theorem copyBlockB_within {buf : U32} {size : Nat} {src : Nat → Traced Nat Trap U8} :
    ∀ {n j : Nat} {s : Copied M}, (∀ i, j ≤ i → i < j + n → (src i).Within (· < blkSize)) →
      (copyBlockB store buf size src n j s).Within (· < blkSize) := by
  intro n
  induction n with
  | zero => exact fun _ => within_pure _
  | succ n ih =>
    intro j s hsrc
    rw [copyBlockB]
    split
    next =>
      refine within_bind.mpr ⟨hsrc j (Nat.le_refl j) (by omega), fun x _ => ?_⟩
      refine within_bind.mpr ⟨within_lift _, fun port _ => ?_⟩
      exact ih fun i hj hi => hsrc i (by omega) (by omega)
    next => exact within_pure _

theorem holeByte_within (j : Nat) : (holeByte j).Within (· < blkSize) := within_pure _

theorem preadLoopB_within {inode : Inode} {buf : U32} {size : Nat} :
    ∀ {n blk blkOff : Nat} {e : Ext2} {s : Copied M}, e.vol.Bounded →
      (preadLoopB disk store inode buf size n blk blkOff e s).Within (· < blkSize) := by
  intro n
  induction n with
  | zero => exact fun _ => within_pure _
  | succ n ih =>
    intro blk blkOff e s h
    have hblock := h.block
    rw [preadLoopB]
    split
    next =>
      simp only
      split
      next =>
        refine within_bind.mpr ⟨copyBlockB_within fun i _ _ => holeByte_within i, fun s1 _ => ?_⟩
        exact ih h
      next =>
        refine within_bind.mpr ⟨h.readBlock disk _ _, fun blkA _ => ?_⟩
        refine within_bind.mpr ⟨copyBlockB_within fun i _ hi => ?_, fun s1 _ => ih h⟩
        exact (readAt_within blkA i).mpr (by omega)
    next => exact within_pure _

theorem copyBytesB_within {buf : U32} {src : Nat → Traced Nat Trap U8} :
    ∀ {n j : Nat} {m : M}, (∀ i, j ≤ i → i < j + n → (src i).Within (· < blkSize)) →
      (copyBytesB store buf src n j m).Within (· < blkSize) := by
  intro n
  induction n with
  | zero => exact fun _ => within_pure _
  | succ n ih =>
    intro j m hsrc
    rw [copyBytesB]
    refine within_bind.mpr ⟨hsrc j (Nat.le_refl j) (by omega), fun x _ => ?_⟩
    refine within_bind.mpr ⟨within_lift _, fun port _ => ?_⟩
    exact ih fun i hj hi => hsrc i (by omega) (by omega)

theorem readFileLoopB_within {inode : Inode} {buf size : U32} :
    ∀ {n blk : Nat} {e : Ext2} {m : M} {copied : U32}, e.vol.Bounded →
      (readFileLoopB disk store inode buf size n blk e m copied).Within (· < blkSize) := by
  intro n
  induction n with
  | zero => exact fun _ => within_pure _
  | succ n ih =>
    intro blk e m copied h
    rw [readFileLoopB]
    split
    next hmore =>
      simp only
      -- no more than a block is copied
      have hbytes : (if copied + e.vol.blockSize > size then size - copied
          else e.vol.blockSize).toNat ≤ e.vol.blockSize.toNat := by
        have hlt : copied.toNat < size.toNat := hmore
        split
        next hgt =>
          have hgt' : size.toNat < (copied + e.vol.blockSize).toNat := hgt
          rw [BitVec.toNat_add] at hgt'
          rw [BitVec.toNat_sub_of_le (BitVec.le_def.mpr hlt.le)]
          omega
        next => exact Nat.le_refl _
      generalize (if copied + e.vol.blockSize > size then size - copied else e.vol.blockSize) = bytes
        at hbytes ⊢
      have hblock := h.block
      split
      next =>
        refine within_bind.mpr ⟨copyBytesB_within fun i _ _ => holeByte_within i, fun m1 _ => ?_⟩
        exact ih h
      next =>
        refine within_bind.mpr ⟨h.readBlock disk _ _, fun blkA _ => ?_⟩
        refine within_bind.mpr ⟨copyBytesB_within fun i _ hi => ?_, fun m1 _ => ih h⟩
        exact (readAt_within blkA i).mpr (by omega)
    next => exact within_pure _

end Bound

/-! ## Any calls after mounting -/

section Runs

variable {M : Type} (disk : Disk) (peek : M → Ext2 → U32 → Except Trap U8)
  (behind : M → Ext2 → Nat → U8) (store : M → U32 → U8 → Except Trap M)

def Ext2Call.runB (s : Ext2 × M) : Ext2Call → Traced Nat Trap (Ext2 × M)
  | .ls dirIno => do
    let (e, _) ← ext2LsB disk (behind s.2) s.1 dirIno
    return (e, s.2)
  | .find dirIno name => do
    let (e, _) ← ext2FindB disk (behind s.2) (peek s.2) s.1 dirIno name
    return (e, s.2)
  | .inodeSize inum => do
    let (e, _) ← ext2InodeSizeB disk s.1 inum
    return (e, s.2)
  | .readFile inum buf maxSize => do
    let (e, m, _) ← ext2ReadFileB disk store s.1 s.2 inum buf maxSize
    return (e, m)
  | .pread inum buf offset size => do
    let (e, c) ← ext2PreadB disk store s.1 s.2 inum buf offset size
    return (e, c.port)

def runCallsB : List Ext2Call → Ext2 × M → Traced Nat Trap (Ext2 × M)
  | [], s => return s
  | c :: calls, s => do
    let s ← c.runB disk peek behind store s
    runCallsB calls s

/-- Mounting, then the calls. -/
def mountThenB (calls : List Ext2Call) (e : Ext2) (m : M) : Traced Nat Trap (Ext2 × M) := do
  let e ← ext2InitB disk e
  runCallsB disk peek behind store calls (e, m)

/-- Without the notes, and with a caller's memory that never faults, these are the calls of the
driver after the boot. -/
theorem Ext2Call.runB_result (peek : M → Ext2 → U32 → U8) (poke : M → U32 → U8 → M) (s : Ext2 × M)
    (c : Ext2Call) :
    (c.runB disk (fun m e va => .ok (peek m e va)) behind (fun m va b => .ok (poke m va b)) s).result =
      c.run disk peek behind poke s := by
  cases c with
  | ls dirIno =>
    simp only [runB, run, result_bind, ext2LsB_result, result_pure]
    rfl
  | find dirIno name =>
    simp only [runB, run, result_bind, ext2FindB_result, result_pure]
    rfl
  | inodeSize inum =>
    simp only [runB, run, result_bind, ext2InodeSizeB_result, result_pure]
    rfl
  | readFile inum buf maxSize =>
    simp only [runB, run, result_bind, ext2ReadFileB_result, result_pure]
    rfl
  | pread inum buf offset size =>
    simp only [runB, run, result_bind, ext2PreadB_result, result_pure]
    rfl

theorem mountThenB_result (peek : M → Ext2 → U32 → U8) (poke : M → U32 → U8 → M)
    (calls : List Ext2Call) (m : M) :
    (mountThenB disk (fun m e va => .ok (peek m e va)) behind (fun m va b => .ok (poke m va b)) calls
      (ext2Unmounted (mbrFindPartition disk)) m).result =
        bootThen disk peek behind poke calls m := by
  have hruns : ∀ calls s, (runCallsB disk (fun m e va => .ok (peek m e va)) behind
      (fun m va b => .ok (poke m va b)) calls s).result = runCalls disk peek behind poke calls s := by
    intro calls
    induction calls with
    | nil => exact fun s => rfl
    | cons c calls ih =>
      intro s
      rw [runCallsB, runCalls, result_bind, Ext2Call.runB_result]
      exact bind_congr_ok fun s1 _ => ih s1
  unfold mountThenB bootThen ext2Boot
  rw [result_bind, ext2InitB_result]
  exact bind_congr_ok fun e _ => hruns calls (e, m)

end Runs

section Bounded

variable {M : Type} {disk : Disk} {peek : M → Ext2 → U32 → Except Trap U8}
  {behind : M → Ext2 → Nat → U8} {store : M → U32 → U8 → Except Trap M}

/-- A call on a bounded volume stays in the buffers, and leaves the volume. -/
theorem Ext2Call.runB_within {s : Ext2 × M} (h : s.1.vol.Bounded) (c : Ext2Call) :
    (c.runB disk peek behind store s).Within (· < blkSize) ∧
      ∀ s', (c.runB disk peek behind store s).result = .ok s' → s'.1.vol = s.1.vol := by
  obtain ⟨e, m⟩ := s
  cases c with
  | ls dirIno =>
    refine ⟨within_bind.mpr ⟨?_, fun _ _ => within_pure _⟩, fun s' hs => ?_⟩
    · exact within_bind.mpr ⟨h.readDir disk dirIno, fun _ _ => within_pure _⟩
    · simp only [runB, result_bind, ext2LsB_result] at hs
      obtain ⟨r, hr, hs⟩ := bind_ok hs
      cases hs
      exact ext2Ls_vol hr
  | find dirIno name =>
    refine ⟨within_bind.mpr ⟨?_, fun _ _ => within_pure _⟩, fun s' hs => ?_⟩
    · refine within_bind.mpr ⟨h.readDir disk dirIno, fun _ _ => ?_⟩
      exact within_bind.mpr ⟨within_lift _, fun _ _ => within_pure _⟩
    · simp only [runB, result_bind, ext2FindB_result] at hs
      obtain ⟨r, hr, hs⟩ := bind_ok hs
      cases hs
      exact ext2Find_vol hr
  | inodeSize inum =>
    refine ⟨within_bind.mpr ⟨?_, fun _ _ => within_pure _⟩, fun s' hs => ?_⟩
    · exact within_bind.mpr ⟨h.readInode disk inum, fun _ _ => within_pure _⟩
    · simp only [runB, result_bind, ext2InodeSizeB_result] at hs
      obtain ⟨r, hr, hs⟩ := bind_ok hs
      cases hs
      exact ext2InodeSize_vol hr
  | readFile inum buf maxSize =>
    refine ⟨within_bind.mpr ⟨?_, fun _ _ => within_pure _⟩, fun s' hs => ?_⟩
    · exact within_bind.mpr ⟨h.readInode disk inum, fun r hr => readFileLoopB_within (h.after hr)⟩
    · simp only [runB, result_bind, ext2ReadFileB_result] at hs
      obtain ⟨⟨e1, m1, copied⟩, hr, hs⟩ := bind_ok hs
      cases hs
      exact ext2ReadFile_vol hr
  | pread inum buf offset size =>
    refine ⟨within_bind.mpr ⟨?_, fun _ _ => within_pure _⟩, fun s' hs => ?_⟩
    · refine within_bind.mpr ⟨h.readInode disk inum, fun r hr => ?_⟩
      obtain ⟨e1, inode⟩ := r
      simp only
      split
      next => exact within_pure _
      next => exact preadLoopB_within (h.after hr)
    · simp only [runB, result_bind, ext2PreadB_result] at hs
      obtain ⟨⟨e1, c⟩, hr, hs⟩ := bind_ok hs
      cases hs
      exact (ext2Pread_keeps (P := fun _ => True) (fun _ _ _ _ _ _ => trivial) hr trivial).2.1

theorem runCallsB_within : ∀ (calls : List Ext2Call) (s : Ext2 × M), s.1.vol.Bounded →
    (runCallsB disk peek behind store calls s).Within (· < blkSize) := by
  intro calls
  induction calls with
  | nil => exact fun s _ => within_pure _
  | cons c calls ih =>
    intro s h
    obtain ⟨hin, hvol⟩ : (c.runB disk peek behind store s).Within (· < blkSize) ∧
        ∀ s', (c.runB disk peek behind store s).result = .ok s' → s'.1.vol = s.1.vol :=
      c.runB_within h
    refine within_bind.mpr ⟨hin, fun s1 h1 => ih s1 ?_⟩
    rw [hvol s1 h1]
    exact h

/-- The block sizes that fit a buffer: three, and those shifted out of the word. -/
theorem sbBlockSize_le_iff (sb : Nat → U8) : (sbBlockSize sb).toNat ≤ blkSize ↔
    (load32 sb 24).toNat % 32 ≤ 2 ∨ 22 ≤ (load32 sb 24).toNat % 32 := by
  have hall : ∀ k < 32, (1024#32 <<< k).toNat ≤ 4096 ↔ k ≤ 2 ∨ 22 ≤ k := by decide
  exact hall _ (Nat.mod_lt _ (by omega))

/-- Mounting stays in `blk_a` where the descriptor's block does. -/
theorem ext2InitB_within {e0 : Ext2} {sb : Nat → U8}
    (hsb : ideReadSector disk (e0.vol.partLba + 2#32) = sb) (hmagic : load16 sb 56 = ext2Magic) :
    (ext2InitB disk e0).Within (· < blkSize) ↔ (sbBlockSize sb).toNat ≤ blkSize := by
  unfold ext2InitB
  simp only [hsb]
  rw [if_neg (not_not.mpr hmagic), within_bind, ext2ReadBlockB_within, Volume.sects_eq]
  refine Iff.trans ?_ sbBlockSize_fits
  refine and_iff_left fun blkA _ => ?_
  rw [within_bind_ok (result_touch _), within_touch, and_iff_left (within_pure _)]
  intro w hw
  rw [List.mem_range] at hw
  unfold blkSize
  omega

/-- **The buffers are never overrun**, by mounting or by any calls after it, exactly where the
superblock gives a block size that fits them. -/
theorem buffers_iff {e0 : Ext2} {sb : Nat → U8}
    (hsb : ideReadSector disk (e0.vol.partLba + 2#32) = sb) (hmagic : load16 sb 56 = ext2Magic)
    (peek : M → Ext2 → U32 → Except Trap U8) (behind : M → Ext2 → Nat → U8)
    (store : M → U32 → U8 → Except Trap M) (m : M) :
    (∀ calls, (mountThenB disk peek behind store calls e0 m).Within (· < blkSize)) ↔
      (load32 sb 24).toNat % 32 ≤ 2 ∨ 22 ≤ (load32 sb 24).toNat % 32 := by
  rw [← sbBlockSize_le_iff]
  constructor
  · exact fun hall => (ext2InitB_within hsb hmagic).mp (within_bind.mp (hall [])).1
  · intro hfits calls
    refine within_bind.mpr ⟨(ext2InitB_within hsb hmagic).mpr hfits, fun e he => ?_⟩
    rw [ext2InitB_result] at he
    rcases ext2Init_magic hsb hmagic with ⟨_, e', he', hb, hi⟩ | ⟨hlt, _⟩
    · rw [he] at he'
      cases he'
      refine runCallsB_within calls (e, m) ⟨?_, ?_⟩
      · rw [hb]
        exact hfits
      · rw [hi]
        exact sbInodeSize_ge sb
    · exact absurd hfits (Nat.not_le.mpr hlt)

end Bounded

/-- A superblock with the right magic number and `log` as its block size field. -/
def logSector (log : U8) : Nat → U8
  | 24 => log
  | 56 => 0x53#8
  | 57 => 0xEF#8
  | _ => 0#8

theorem buffers_iff_small : (mountThenB (fun _ => logSector 0#8) (fun (_ : Unit) _ _ => .ok 0#8)
    (fun _ _ _ => 0#8) (fun m _ _ => .ok m)
    [.ls ext2RootInode, .pread 12#32 0#32 0#32 600#32, .ls 12#32] (ext2Unmounted 0#32) ()).Within
      (· < blkSize) :=
  (buffers_iff rfl rfl _ _ _ ()).mpr (.inl (by decide)) _

/-- Blocks of 8192 bytes: mounting itself writes the second half behind `blk_a`. -/
theorem buffers_overrun : ¬∀ (disk : Disk) (e0 : Ext2),
    load16 (ideReadSector disk (e0.vol.partLba + 2#32)) 56 = ext2Magic →
      ∀ calls, (mountThenB disk (fun (_ : Unit) _ _ => .ok 0#8) (fun _ _ _ => 0#8)
        (fun m _ _ => .ok m) calls e0 ()).Within (· < blkSize) := by
  intro hall
  have hin := hall (fun _ => logSector 3#8) (ext2Unmounted 0#32) rfl []
  have hfits := (ext2InitB_within rfl rfl).mp (within_bind.mp hin).1
  exact absurd hfits (by decide)

end PepinOS
