import PepinOS.Lib.Trace
import PepinOS.Fs.Lookup

/-!
# The bytes the walk looks at

The guard of both walks bounds where a record starts, not where it ends. Here
`ext2_ls` and `ext2_find` are written once more, byte by byte, and every byte of `blk_b`
they look at is noted: `rec_len` first, then the inode, and of an entry the length of
its name and the name. Without the notes they are the functions of the driver
(`ext2LsR_result`, `ext2FindR_result`).

`dir_reads_inside_iff` is the exact condition on the block and the inode under which
neither looks beyond the block: the records the chain leads to have their header in it,
and the entries their name. Nothing in the driver checks it.
-/

namespace PepinOS

open Traced

def read16 (b : Nat → U8) (i : Nat) : Traced Nat Trap U16 := do
  let x0 ← readAt b i
  let x1 ← readAt b (i + 1)
  return x1 ++ x0

def read32 (b : Nat → U8) (i : Nat) : Traced Nat Trap U32 := do
  let x0 ← readAt b i
  let x1 ← readAt b (i + 1)
  let x2 ← readAt b (i + 2)
  let x3 ← readAt b (i + 3)
  return (x3 ++ x2) ++ (x1 ++ x0)

/-- The copy loop of `ext2_ls`: `n` bytes of the name from `i` on. -/
def nameR (b : Nat → U8) : Nat → Nat → Traced Nat Trap (List U8)
  | 0, _ => return []
  | n + 1, i => do
    let x ← readAt b i
    let name ← nameR b n (i + 1)
    return x :: name

/-- The loop of `ext2_ls`. -/
def lsLoopR (b : Nat → U8) (iSize blockSize : Nat) : Nat → Nat → Traced Nat Trap (List (List U8))
  | 0, _ => return []
  | n + 1, off =>
    if off < iSize ∧ off < blockSize then do
      let recLen ← read16 b (off + 4)
      if recLen.toNat = 0 then return []
      let ino ← read32 b off
      if ino ≠ 0#32 then
        let len ← readAt b (off + 6)
        let name ← nameR b len.toNat (off + 8)
        let names ← lsLoopR b iSize blockSize n (off + recLen.toNat)
        return name :: names
      lsLoopR b iSize blockSize n (off + recLen.toNat)
    else return []

/-- The comparison loop of `ext2_find`, `n` bytes of the name left from `i` on. -/
def dirMatchR (fetch : U32 → Except Trap U8) (b : Nat → U8) :
    Nat → Nat → U32 → Traced Nat Trap Bool
  | 0, _, p => do
    let c ← lift (fetch p)
    return c == 0#8
  | n + 1, i, p => do
    let c ← lift (fetch p)
    if c == 0#8 then return false
    let x ← readAt b i
    if c != x then return false
    dirMatchR fetch b n (i + 1) (p + 1#32)

/-- The loop of `ext2_find`. -/
def findLoopR (fetch : U32 → Except Trap U8) (b : Nat → U8) (iSize blockSize : Nat) (name : U32) :
    Nat → Nat → Traced Nat Trap U32
  | 0, _ => return 0#32
  | n + 1, off =>
    if off < iSize ∧ off < blockSize then do
      let recLen ← read16 b (off + 4)
      if recLen.toNat = 0 then return 0#32
      let ino ← read32 b off
      if ino ≠ 0#32 then
        let len ← readAt b (off + 6)
        let found ← dirMatchR fetch b len.toNat (off + 8) name
        if found then return ino
      findLoopR fetch b iSize blockSize name n (off + recLen.toNat)
    else return 0#32

def ext2LsR (disk : Disk) (behind : Ext2 → Nat → U8) (e : Ext2) (dirIno : U32) :
    Traced Nat Trap (Ext2 × List (List U8)) := do
  let (e, inode) ← lift (ext2ReadDir disk e dirIno)
  let names ← lsLoopR (dirBytes behind e) inode.iSize.toNat e.vol.blockSize.toNat
    e.vol.blockSize.toNat 0
  return (e, names)

def ext2FindR (disk : Disk) (behind : Ext2 → Nat → U8) (fetch : Ext2 → U32 → Except Trap U8)
    (e : Ext2) (dirIno name : U32) : Traced Nat Trap (Ext2 × U32) := do
  let (e, inode) ← lift (ext2ReadDir disk e dirIno)
  let ino ← findLoopR (fetch e) (dirBytes behind e) inode.iSize.toNat e.vol.blockSize.toNat name
    e.vol.blockSize.toNat 0
  return (e, ino)

/-! ## Without the notes -/

section Erase

variable {b : Nat → U8} {iSize blockSize : Nat}

@[simp] theorem read16_result (b : Nat → U8) (i : Nat) : (read16 b i).result = .ok (load16 b i) := rfl

@[simp] theorem read32_result (b : Nat → U8) (i : Nat) : (read32 b i).result = .ok (load32 b i) := rfl

theorem nameR_result : ∀ n i, (nameR b n i).result = .ok ((List.range' i n).map b) := by
  intro n
  induction n with
  | zero => exact fun i => rfl
  | succ n ih =>
    intro i
    simp only [nameR, result_bind, readAt_result, ok_bind, ih, result_pure, List.range'_succ,
      List.map_cons]

theorem deName_range' (b : Nat → U8) (off : Nat) :
    deName b off = (List.range' (off + 8) (b (off + 6)).toNat).map b := by
  unfold deName
  rw [List.range_eq_range', ← Nat.add_zero (off + 8), ← List.map_add_range', List.map_map]
  rfl

/-- How both loops begin a record: its length, and if that is not 0 its inode. -/
theorem record_result {β : Type} (off : Nat) (stop : β) (next : U16 → U32 → Traced Nat Trap β) :
    (read16 b (off + 4) >>= fun recLen => if recLen.toNat = 0 then pure stop
        else read32 b off >>= next recLen).result =
      if deRecLen b off = 0 then .ok stop
      else (next (load16 b (off + 4)) (deInode b off)).result := by
  rw [result_bind, read16_result, ok_bind]
  show (if deRecLen b off = 0 then _ else _ : Traced Nat Trap _).result = _
  split
  next => rfl
  next => rw [result_bind, read32_result, ok_bind, deInode]

theorem lsLoopR_result : ∀ n off,
    (lsLoopR b iSize blockSize n off).result = .ok (lsLoop b iSize blockSize n off) := by
  intro n
  induction n with
  | zero => exact fun off => rfl
  | succ n ih =>
    intro off
    rw [lsLoopR, lsLoop]
    split
    next =>
      rw [record_result]
      split
      next => rfl
      next =>
        split
        next =>
          simp only [result_bind, readAt_result, ok_bind, nameR_result, ← deName_range']
          show (lsLoopR b iSize blockSize n (off + deRecLen b off)).result >>= _ = _
          rw [ih]
          rfl
        next => exact ih _
    next => rfl

theorem dirMatchR_result (fetch : U32 → Except Trap U8) : ∀ n i p,
    (dirMatchR fetch b n i p).result = dirMatch fetch ((List.range' i n).map b) p := by
  intro n
  induction n with
  | zero =>
    intro i p
    rw [dirMatchR, result_bind, result_lift, List.range'_zero]
    rfl
  | succ n ih =>
    intro i p
    rw [dirMatchR, List.range'_succ, List.map_cons, dirMatch, result_bind, result_lift]
    refine bind_congr_ok fun c _ => ?_
    cases hc : c == 0#8 with
    | true => rfl
    | false =>
      rw [Bool.false_or]
      show (readAt b i >>= fun x => if c != x then _ else _ : Traced Nat Trap Bool).result = _
      rw [result_bind, readAt_result, ok_bind]
      cases c != b i with
      | true => rfl
      | false => exact ih _ _

theorem findLoopR_result (fetch : U32 → Except Trap U8) (name : U32) : ∀ n off,
    (findLoopR fetch b iSize blockSize name n off).result =
      findLoop fetch b iSize blockSize name n off := by
  intro n
  induction n with
  | zero => exact fun off => rfl
  | succ n ih =>
    intro off
    rw [findLoopR, findLoop]
    split
    next =>
      rw [record_result]
      split
      next => rfl
      next =>
        split
        next =>
          simp only [result_bind, readAt_result, ok_bind, dirMatchR_result, ← deName_range']
          refine bind_congr_ok fun found _ => ?_
          cases found with
          | true => rfl
          | false => exact ih _
        next => exact ih _
    next => rfl

/-- Both are the functions of the driver. -/
theorem ext2LsR_result (disk : Disk) (behind : Ext2 → Nat → U8) (e : Ext2) (dirIno : U32) :
    (ext2LsR disk behind e dirIno).result = ext2Ls disk behind e dirIno := by
  unfold ext2LsR ext2Ls
  rw [result_bind, result_lift]
  refine bind_congr_ok fun r _ => ?_
  obtain ⟨e1, inode⟩ := r
  simp only [result_bind, lsLoopR_result, ok_bind, result_pure]
  rfl

theorem ext2FindR_result (disk : Disk) (behind : Ext2 → Nat → U8)
    (fetch : Ext2 → U32 → Except Trap U8) (e : Ext2) (dirIno name : U32) :
    (ext2FindR disk behind fetch e dirIno name).result = ext2Find disk behind fetch e dirIno name := by
  unfold ext2FindR ext2Find
  rw [result_bind, result_lift]
  refine bind_congr_ok fun r _ => ?_
  obtain ⟨e1, inode⟩ := r
  simp only [result_bind, findLoopR_result, result_pure]
  rfl

end Erase

/-! ## What is looked at -/

/-- The record at `off` has its header inside the block and, if it is an entry, its name. The
byte with the file type is not looked at. -/
def RecordInside (b : Nat → U8) (blockSize off : Nat) : Prop :=
  off + 6 ≤ blockSize ∧ (isLive b off = true → off + 7 ≤ blockSize ∧
    (0 < (b (off + 6)).toNat → off + 8 + (b (off + 6)).toNat ≤ blockSize))

section Within

variable {b : Nat → U8} {iSize blockSize : Nat} {P : Nat → Prop}

theorem read16_within (b : Nat → U8) (i : Nat) : (read16 b i).Within P ↔ P i ∧ P (i + 1) := by
  unfold read16
  rw [within_bind_ok (readAt_result b i), within_bind_ok (readAt_result b (i + 1)), readAt_within,
    readAt_within]
  exact and_congr_right' (and_iff_left (within_pure _))

theorem read32_within (b : Nat → U8) (i : Nat) :
    (read32 b i).Within P ↔ P i ∧ P (i + 1) ∧ P (i + 2) ∧ P (i + 3) := by
  unfold read32
  rw [within_bind_ok (readAt_result b i), within_bind_ok (readAt_result b (i + 1)),
    within_bind_ok (readAt_result b (i + 2)), within_bind_ok (readAt_result b (i + 3)),
    readAt_within, readAt_within, readAt_within, readAt_within]
  exact and_congr_right' (and_congr_right' (and_congr_right' (and_iff_left (within_pure _))))

theorem nameR_within : ∀ n i,
    (nameR b n i).Within (· < blockSize) ↔ (0 < n → i + n ≤ blockSize) := by
  intro n
  induction n with
  | zero => exact fun i => ⟨fun _ h => absurd h (Nat.lt_irrefl 0), fun _ => within_pure _⟩
  | succ n ih =>
    intro i
    rw [nameR, within_bind_ok (readAt_result b i), within_bind_ok (nameR_result n (i + 1)),
      readAt_within, ih, and_iff_left (within_pure _)]
    omega

theorem recordInside_free {off : Nat} (h : ¬isLive b off = true) :
    RecordInside b blockSize off ↔ off + 6 ≤ blockSize :=
  and_iff_left fun hlive => absurd hlive h

theorem recordInside_live {off : Nat} (h : isLive b off = true) :
    RecordInside b blockSize off ↔ off + 7 ≤ blockSize ∧
      (0 < (b (off + 6)).toNat → off + 8 + (b (off + 6)).toNat ≤ blockSize) := by
  constructor
  · exact fun hin => hin.2 h
  · exact fun hin => ⟨by omega, fun _ => hin⟩

theorem record_within {β : Type} (off : Nat) (stop : β) (next : U16 → U32 → Traced Nat Trap β) :
    (read16 b (off + 4) >>= fun recLen => if recLen.toNat = 0 then pure stop
        else read32 b off >>= next recLen).Within P ↔
      (P (off + 4) ∧ P (off + 4 + 1)) ∧ (deRecLen b off ≠ 0 →
        (P off ∧ P (off + 1) ∧ P (off + 2) ∧ P (off + 3)) ∧
          (next (load16 b (off + 4)) (deInode b off)).Within P) := by
  rw [within_bind_ok (read16_result b (off + 4)), read16_within]
  refine and_congr_right' ?_
  show (if deRecLen b off = 0 then _ else _ : Traced Nat Trap _).Within P ↔ _
  split
  next hrec => exact iff_of_true (within_pure _) fun hne => absurd hrec hne
  next hrec =>
    rw [within_bind_ok (read32_result b off), read32_within, deInode]
    exact ⟨fun h _ => h, fun h => h hrec⟩

/-- The listing looks at the records of the walk. -/
theorem lsLoopR_within : ∀ n off, (lsLoopR b iSize blockSize n off).Within (· < blockSize) ↔
    ∀ o ∈ walkFrom b iSize blockSize n off, RecordInside b blockSize o := by
  intro n
  induction n with
  | zero => exact fun off => ⟨fun _ o ho => absurd ho List.not_mem_nil, fun _ => within_pure _⟩
  | succ n ih =>
    intro off
    rw [lsLoopR, walkFrom]
    split
    next hoff =>
      rw [record_within, List.forall_mem_cons]
      by_cases hrec : deRecLen b off = 0
      · rw [if_pos hrec, recordInside_free fun h => (isLive_iff.mp h).1 hrec,
          and_iff_left fun hne => absurd hrec hne, and_iff_left fun o ho => absurd ho List.not_mem_nil]
        omega
      · rw [if_neg hrec, imp_iff_right hrec]
        split
        next hino =>
          have hrest : (lsLoopR b iSize blockSize n (off + (load16 b (off + 4)).toNat)).Within
              (· < blockSize) ↔ _ := ih _
          rw [within_bind_ok (readAt_result b (off + 6)), within_bind_ok (nameR_result _ _),
            within_bind_ok (lsLoopR_result _ _), readAt_within, nameR_within, hrest,
            and_iff_left (within_pure _), recordInside_live (isLive_iff.mpr ⟨hrec, hino⟩)]
          constructor
          · rintro ⟨_, _, hlen, hname, hnext⟩
            exact ⟨⟨hlen, hname⟩, hnext⟩
          · rintro ⟨⟨hlen, hname⟩, hnext⟩
            exact ⟨by omega, by omega, hlen, hname, hnext⟩
        next hino =>
          have hrest : (lsLoopR b iSize blockSize n (off + (load16 b (off + 4)).toNat)).Within
              (· < blockSize) ↔ _ := ih _
          rw [hrest, recordInside_free fun h => hino (isLive_iff.mp h).2]
          constructor
          · rintro ⟨_, _, hnext⟩
            exact ⟨by omega, hnext⟩
          · rintro ⟨hhead, hnext⟩
            exact ⟨by omega, by omega, hnext⟩
    next => exact ⟨fun _ o ho => absurd ho List.not_mem_nil, fun _ => within_pure _⟩

/-- The comparison looks at bytes of the name only. -/
theorem dirMatchR_within (fetch : U32 → Except Trap U8) : ∀ n i p,
    (0 < n → i + n ≤ blockSize) → (dirMatchR fetch b n i p).Within (· < blockSize) := by
  intro n
  induction n with
  | zero => exact fun i p _ => within_bind.mpr ⟨within_lift _, fun c _ => within_pure _⟩
  | succ n ih =>
    intro i p hname
    have hend := hname (Nat.succ_pos n)
    refine within_bind.mpr ⟨within_lift _, fun c _ => ?_⟩
    cases c == 0#8 with
    | true => exact within_pure _
    | false =>
      refine (within_bind_ok (readAt_result b i)).mpr ⟨(readAt_within b i).mpr (by omega), ?_⟩
      cases c != b i with
      | true => exact within_pure _
      | false => exact ih (i + 1) (p + 1#32) fun _ => by omega

/-- The lookup looks at nothing that the listing does not look at. -/
theorem findLoopR_within (fetch : U32 → Except Trap U8) (name : U32) : ∀ n off,
    (∀ o ∈ walkFrom b iSize blockSize n off, RecordInside b blockSize o) →
      (findLoopR fetch b iSize blockSize name n off).Within (· < blockSize) := by
  intro n
  induction n with
  | zero => exact fun off _ => within_pure _
  | succ n ih =>
    intro off hin
    rw [walkFrom] at hin
    rw [findLoopR]
    split
    next hoff =>
      rw [if_pos hoff] at hin
      have hhere := hin off List.mem_cons_self
      have hnext : deRecLen b off ≠ 0 →
          (findLoopR fetch b iSize blockSize name n (off + deRecLen b off)).Within (· < blockSize) := by
        intro hrec
        rw [if_neg hrec] at hin
        exact ih _ fun o ho => hin o (List.mem_cons_of_mem _ ho)
      have hhead := hhere.1
      refine (record_within off _ _).mpr ⟨⟨by omega, by omega⟩, fun hrec => ?_⟩
      refine ⟨⟨by omega, by omega, by omega, by omega⟩, ?_⟩
      split
      next hino =>
        obtain ⟨hlen, hname⟩ := (recordInside_live (isLive_iff.mpr ⟨hrec, hino⟩)).mp hhere
        refine (within_bind_ok (readAt_result b (off + 6))).mpr
          ⟨(readAt_within b (off + 6)).mpr (by omega), ?_⟩
        refine within_bind.mpr ⟨dirMatchR_within fetch _ _ _ hname, fun found _ => ?_⟩
        cases found with
        | true => exact within_pure _
        | false => exact hnext hrec
      next => exact hnext hrec
    next => exact within_pure _

end Within

/-! ## When nothing beyond the block is looked at -/

/-- The condition on the image: the records that the chain from offset 0 leads to lie in the
first block of the directory. -/
def DirInside (disk : Disk) (vol : Volume) (inode : Inode) : Prop :=
  ∀ off ∈ walk (vol.blockByte disk (inode.iBlock 0)) inode.iSize.toNat vol.blockSize.toNat,
    RecordInside (vol.blockByte disk (inode.iBlock 0)) vol.blockSize.toNat off

section Inside

variable {b b' : Nat → U8} {iSize blockSize : Nat}

/-- Only the bytes of the block count: a chain that stays inside is the same whatever lies
behind. -/
theorem walkInside_congr (h : ∀ i, i < blockSize → b' i = b i)
    (hin : ∀ o ∈ walk b iSize blockSize, RecordInside b blockSize o) :
    ∀ o ∈ walk b' iSize blockSize, RecordInside b' blockSize o := by
  have hrec : ∀ o, RecordInside b blockSize o → deRecLen b' o = deRecLen b o := by
    intro o ho
    have := ho.1
    unfold deRecLen load16
    rw [h _ (by omega), h _ (by omega)]
  have hino : ∀ o, RecordInside b blockSize o → deInode b' o = deInode b o := by
    intro o ho
    have := ho.1
    exact load32_congr fun k hk => h _ (by omega)
  intro o ho
  unfold walk at ho hin
  rw [walkFrom_congr _ _ fun o ho => hrec o (hin o ho)] at ho
  have hold := hin o ho
  by_cases hlive : isLive b o = true
  · obtain ⟨hlen, hname⟩ := (recordInside_live hlive).mp hold
    have hlive' : isLive b' o = true := by
      unfold isLive
      rw [hrec o hold, hino o hold]
      exact hlive
    rw [recordInside_live hlive', h (o + 6) (by omega)]
    exact ⟨hlen, hname⟩
  · refine (recordInside_free fun hlive' => hlive ?_).mpr hold.1
    unfold isLive at hlive' ⊢
    rw [hrec o hold, hino o hold] at hlive'
    exact hlive'

end Inside

/-- What both look at, in terms of the buffers: the listing needs the whole condition, the
lookup no more. -/
theorem dirReads_within {disk : Disk} {behind : Ext2 → Nat → U8} {e e1 : Ext2} {dirIno : U32}
    {inode : Inode} (hdir : ext2ReadDir disk e dirIno = .ok (e1, inode)) :
    ((ext2LsR disk behind e dirIno).Within (· < e1.vol.blockSize.toNat) ∧
      ∀ fetch name, (ext2FindR disk behind fetch e dirIno name).Within (· < e1.vol.blockSize.toNat)) ↔
    ∀ off ∈ walk (dirBytes behind e1) inode.iSize.toNat e1.vol.blockSize.toNat,
      RecordInside (dirBytes behind e1) e1.vol.blockSize.toNat off := by
  have hread : (lift (ext2ReadDir disk e dirIno) : Traced Nat Trap _).result = .ok (e1, inode) :=
    hdir
  have hls : (ext2LsR disk behind e dirIno).Within (· < e1.vol.blockSize.toNat) ↔
      ∀ off ∈ walk (dirBytes behind e1) inode.iSize.toNat e1.vol.blockSize.toNat,
        RecordInside (dirBytes behind e1) e1.vol.blockSize.toNat off := by
    unfold ext2LsR
    rw [within_bind_ok hread, and_iff_right (within_lift _)]
    refine (within_bind_ok (lsLoopR_result _ _)).trans ?_
    rw [lsLoopR_within]
    exact and_iff_left (within_pure _)
  constructor
  · exact fun h => hls.mp h.1
  · intro hin
    refine ⟨hls.mpr hin, fun fetch name => ?_⟩
    unfold ext2FindR
    refine (within_bind_ok hread).mpr ⟨within_lift _, ?_⟩
    refine within_bind.mpr ⟨?_, fun _ _ => within_pure _⟩
    exact findLoopR_within (fetch e1) name _ _ hin

/-- The same in terms of the image, where an inode fits a block. -/
theorem dirReads_sound {disk : Disk} {e : Ext2} (hv : e.vol.Sound) (behind : Ext2 → Nat → U8)
    (dirIno : U32) :
    ((ext2LsR disk behind e dirIno).Within (· < e.vol.blockSize.toNat) ∧
      ∀ fetch name, (ext2FindR disk behind fetch e dirIno name).Within (· < e.vol.blockSize.toNat)) ↔
    DirInside disk e.vol (e.vol.inodeAt disk dirIno) := by
  obtain ⟨blkA, blkB, inode, hdir, hbyte, hblk⟩ := @ext2ReadDir_sound disk e hv dirIno
  have hfits := hv.fits
  have hblock : ∀ i, i < e.vol.blockSize.toNat → dirBytes behind ⟨e.vol, blkA, blkB⟩ i =
      e.vol.blockByte disk ((e.vol.inodeAt disk dirIno).iBlock 0) i := by
    intro i hi
    rw [← hblk i hi]
    exact if_pos (by omega)
  refine (dirReads_within hdir).trans ?_
  unfold DirInside
  rw [iSize_congr hbyte]
  constructor
  · exact walkInside_congr fun i hi => (hblock i hi).symm
  · exact walkInside_congr hblock

/-- **The directory functions stay in the block** exactly where the chain of records does, or
where reading the inode divides by zero first. -/
theorem dir_reads_inside_iff {disk : Disk} {e : Ext2} (hm : Mounted disk e.vol)
    (behind : Ext2 → Nat → U8) (dirIno : U32) :
    ((ext2LsR disk behind e dirIno).Within (· < e.vol.blockSize.toNat) ∧
      ∀ fetch name, (ext2FindR disk behind fetch e dirIno name).Within (· < e.vol.blockSize.toNat)) ↔
    (e.vol.inodeSize ≤ e.vol.blockSize → DirInside disk e.vol (e.vol.inodeAt disk dirIno)) := by
  by_cases hfit : e.vol.inodeSize ≤ e.vol.blockSize
  · rw [dirReads_sound (hm.sound hfit)]
    exact ⟨fun h _ => h, fun h => h hfit⟩
  · have hzero : e.vol.blockSize / e.vol.inodeSize = 0#32 := by
      apply BitVec.eq_of_toNat_eq
      rw [BitVec.toNat_udiv, Nat.div_eq_of_lt (Nat.lt_of_not_le hfit)]
      rfl
    have hdir : ext2ReadDir disk e dirIno = .error .exception := by
      unfold ext2ReadDir
      rw [ext2ReadInode_divides (.inr hzero)]
      rfl
    refine ⟨fun _ h => absurd h hfit, fun _ => ⟨?_, fun fetch name => ?_⟩⟩
    · exact (within_bind_error hdir).mpr (within_lift _)
    · exact (within_bind_error hdir).mpr (within_lift _)

theorem dir_reads_inside_two : ∃ e : Ext2, (ext2LsR twoBlocks.disk (fun _ _ => 0#8) e 2#32).Within
    (· < e.vol.blockSize.toNat) := by
  obtain ⟨e, _, hm, hv⟩ := rootImage_mounted twoRecords
  refine ⟨e, ((dir_reads_inside_iff hm (fun _ _ => 0#8) 2#32).mpr fun _ off hoff => ?_).1⟩
  have hk : 0 < 2 := by omega
  obtain ⟨hrec, hino, hname⟩ := hv.record (fun _ _ => rfl) hk
  have hwalk : walk (e.vol.dirBlock twoBlocks.disk (e.vol.inodeAt twoBlocks.disk 2#32) 0)
      (e.vol.inodeAt twoBlocks.disk 2#32).iSize.toNat e.vol.blockSize.toNat = [0] := by
    rw [hv.blockSize_toNat, show (e.vol.inodeAt twoBlocks.disk 2#32).iSize.toNat = 2048 from
      hv.rootSize_toNat]
    exact walk_single (by omega) (by omega) hrec
  have hmem : off ∈ walk (e.vol.dirBlock twoBlocks.disk (e.vol.inodeAt twoBlocks.disk 2#32) 0)
      (e.vol.inodeAt twoBlocks.disk 2#32).iSize.toNat e.vol.blockSize.toNat := hoff
  rw [hwalk, List.mem_singleton] at hmem
  subst hmem
  have hlen :
      (e.vol.dirBlock twoBlocks.disk (e.vol.inodeAt twoBlocks.disk 2#32) 0 (0 + 6)).toNat = 1 := by
    have hlen := congrArg List.length hname
    unfold deName at hlen
    rw [List.length_map, List.length_range, List.length_singleton] at hlen
    exact hlen
  show RecordInside (e.vol.dirBlock twoBlocks.disk (e.vol.inodeAt twoBlocks.disk 2#32) 0) _ 0
  unfold RecordInside
  rw [hlen, hv.blockSize_toNat]
  omega

/-- One record, four bytes shorter than the block. -/
def shortRecord : Nat → U8
  | 0 => 12#8
  | 4 => 0xFC#8
  | 5 => 3#8
  | 6 => 1#8
  | 7 => 1#8
  | 8 => 0x61#8
  | _ => 0#8

/-- The next record starts in the last four bytes of the block; its `rec_len` is behind it. -/
theorem dir_reads_outside : ¬∀ (disk : Disk) (e : Ext2), Mounted disk e.vol →
    ∀ (behind : Ext2 → Nat → U8) (dirIno : U32),
      (ext2LsR disk behind e dirIno).Within (· < e.vol.blockSize.toNat) ∧
      ∀ fetch name, (ext2FindR disk behind fetch e dirIno name).Within (· < e.vol.blockSize.toNat) := by
  intro hall
  obtain ⟨e, _, hm, hv⟩ := rootImage_mounted shortRecord
  have hin := (dirReads_sound hv.sound (fun _ _ => 0#8) 2#32).mp
    (hall (rootImage shortRecord).disk e hm (fun _ _ => 0#8) 2#32)
  have hb : ∀ j, j < 1024 → e.vol.dirBlock (rootImage shortRecord).disk
      (e.vol.inodeAt (rootImage shortRecord).disk 2#32) 0 j = shortRecord (0 * 1024 + j) :=
    fun j hj => hv.dirBlock (by omega) hj
  have hrec : deRecLen (e.vol.dirBlock (rootImage shortRecord).disk
      (e.vol.inodeAt (rootImage shortRecord).disk 2#32) 0) 0 = 1020 := by
    unfold deRecLen load16
    rw [hb _ (by omega), hb _ (by omega)]
    rfl
  have hmem : 1020 ∈ walkFrom (e.vol.dirBlock (rootImage shortRecord).disk
      (e.vol.inodeAt (rootImage shortRecord).disk 2#32) 0) 2048 1024 (1022 + 1 + 1) 0 := by
    rw [walkFrom, if_pos ⟨by omega, by omega⟩, hrec, if_neg (by omega), walkFrom,
      if_pos ⟨by omega, by omega⟩]
    exact List.mem_cons_of_mem _ List.mem_cons_self
  unfold DirInside at hin
  rw [hv.rootSize_toNat, hv.blockSize_toNat] at hin
  have hlast := (hin 1020 hmem).1
  omega

end PepinOS
