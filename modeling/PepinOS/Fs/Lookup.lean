import PepinOS.Fs.RootImage

/-!
# Directories of more than one block

A directory is a file whose blocks are tiled by records. The files of the driver have
twelve direct blocks, and `ext2_pread` and `ext2_read_file` walk all of them;
`ext2_find` reads `i_block[0]` and stops at its end. In a well-formed directory, one
whose records tile its blocks and name nothing twice, the lookup is complete for a name
exactly where no entry with that name lies in a later block (`find_complete_iff`).
-/

namespace PepinOS

/-- Block `k` of a directory. -/
def Volume.dirBlock (disk : Disk) (vol : Volume) (inode : Inode) (k : Nat) : Nat → U8 :=
  vol.blockByte disk (inode.iBlock k)

/-- How many blocks it has. -/
def Volume.dirBlocks (vol : Volume) (inode : Inode) : Nat :=
  inode.iSize.toNat / vol.blockSize.toNat

/-- The entries of block `k`. -/
def Volume.dirEntries (disk : Disk) (vol : Volume) (inode : Inode) (k : Nat) : List Nat :=
  entries (vol.dirBlock disk inode k) vol.blockSize.toNat vol.blockSize.toNat

/-- The entry at offset `off` of block `k` has the name `s`. -/
def Volume.HasEntry (disk : Disk) (vol : Volume) (inode : Inode) (s : List U8) (k off : Nat) : Prop :=
  k < vol.dirBlocks inode ∧ off ∈ vol.dirEntries disk inode k ∧
    deName (vol.dirBlock disk inode k) off = s

/-- A well-formed directory: whole direct blocks, each tiled by its records, no name twice. -/
structure WellFormedDir (disk : Disk) (vol : Volume) (inode : Inode) : Prop where
  whole : inode.iSize.toNat = vol.dirBlocks inode * vol.blockSize.toNat
  direct : vol.dirBlocks inode ≤ 12
  tiled : ∀ k, k < vol.dirBlocks inode →
    ∀ off ∈ walk (vol.dirBlock disk inode k) vol.blockSize.toNat vol.blockSize.toNat,
      8 ≤ deRecLen (vol.dirBlock disk inode k) off ∧
      off + deRecLen (vol.dirBlock disk inode k) off ≤ vol.blockSize.toNat ∧
      (deInode (vol.dirBlock disk inode k) off ≠ 0#32 →
        8 + (vol.dirBlock disk inode k (off + 6)).toNat ≤
          deRecLen (vol.dirBlock disk inode k) off)
  distinct : ∀ s k off k' off', vol.HasEntry disk inode s k off → vol.HasEntry disk inode s k' off' →
    k = k' ∧ off = off'

/-- `ext2_find` gives the inode of the entry with the name `s`, whichever block it lies in,
and 0 exactly where there is none. -/
def FindComplete (disk : Disk) (behind : Ext2 → Nat → U8) (fetch : Ext2 → U32 → Except Trap U8)
    (e : Ext2) (dirIno name : U32) (s : List U8) : Prop :=
  let inode := e.vol.inodeAt disk dirIno
  ∃ e' ino, ext2Find disk behind fetch e dirIno name = .ok (e', ino) ∧
    (∀ k off, e.vol.HasEntry disk inode s k off → ino = deInode (e.vol.dirBlock disk inode k) off) ∧
    (ino = 0#32 ↔ ∀ k off, ¬e.vol.HasEntry disk inode s k off)

section Lookup

variable {disk : Disk} {behind : Ext2 → Nat → U8} {fetch : Ext2 → U32 → Except Trap U8} {e : Ext2}
  {dirIno name : U32} {s : List U8}

/-- Where the name is unique, the lookup gives the inode of the entry that has it. -/
theorem lookup_unique {b : Nat → U8} {offs : List Nat} {off : Nat} (hoff : off ∈ offs)
    (hname : deName b off = s) (hone : ∀ o ∈ offs, deName b o = s → o = off) :
    lookup b s offs = deInode b off := by
  induction offs with
  | nil => cases hoff
  | cons o offs ih =>
    rw [lookup_cons]
    split
    next h => rw [hone o List.mem_cons_self (beq_iff_eq.mp h)]
    next h =>
      rcases List.mem_cons.mp hoff with rfl | hoff
      · exact absurd (beq_iff_eq.mpr hname) h
      · exact ih hoff fun o' ho => hone o' (List.mem_cons_of_mem _ ho)

/-- An empty directory has no entries. -/
theorem entries_empty (b : Nat → U8) (blockSize : Nat) : entries b 0 blockSize = [] := by
  unfold entries entriesFrom
  cases blockSize with
  | zero => rfl
  | succ n =>
    rw [walkFrom, if_neg fun h => Nat.not_lt_zero _ h.1]
    rfl

/-- Past the end of the block the size of the directory does not count. -/
theorem entries_block {b : Nat → U8} {iSize blockSize : Nat} (h : blockSize ≤ iSize) :
    entries b iSize blockSize = entries b blockSize blockSize := by
  have hwalk : ∀ n off, walkFrom b iSize blockSize n off = walkFrom b blockSize blockSize n off := by
    intro n
    induction n with
    | zero => exact fun off => rfl
    | succ n ih =>
      intro off
      have hguard : (off < iSize ∧ off < blockSize) ↔ off < blockSize ∧ off < blockSize := by omega
      simp only [walkFrom, ih, hguard]
  unfold entries entriesFrom
  rw [hwalk]

theorem dirEntries_inode {vol : Volume} {inode : Inode} {k off : Nat}
    (h : vol.HasEntry disk inode s k off) : deInode (vol.dirBlock disk inode k) off ≠ 0#32 :=
  (entries_live h.2.1).2

/-- What `ext2_find` does in a well-formed directory: the lookup in its first block. -/
theorem ext2Find_first (hv : e.vol.Sound) (hd : WellFormedDir disk e.vol (e.vol.inodeAt disk dirIno))
    (hs : ∀ e', StringAt (fetch e') s name) :
    ∃ e', ext2Find disk behind fetch e dirIno name = .ok (e',
      if e.vol.dirBlocks (e.vol.inodeAt disk dirIno) = 0 then 0#32
      else lookup (e.vol.dirBlock disk (e.vol.inodeAt disk dirIno) 0) s
        (e.vol.dirEntries disk (e.vol.inodeAt disk dirIno) 0)) := by
  obtain ⟨blkA, blkB, inode, hdir, hbyte, hblk⟩ := @ext2ReadDir_sound disk e hv dirIno
  refine ⟨⟨e.vol, blkA, blkB⟩, ?_⟩
  have hblock : ∀ i, i < e.vol.blockSize.toNat → dirBytes behind ⟨e.vol, blkA, blkB⟩ i =
      e.vol.dirBlock disk (e.vol.inodeAt disk dirIno) 0 i := by
    intro i hi
    have hfits := hv.fits
    refine Eq.trans ?_ (hblk i hi)
    exact if_pos (by omega)
  unfold ext2Find
  simp only [hdir, ok_bind, findLoop_eq (hs _), iSize_congr hbyte]
  show Except.ok (_, lookup _ s (entries _ _ _)) = _
  congr 2
  have hwhole := hd.whole
  split
  next h0 =>
    rw [h0, Nat.zero_mul] at hwhole
    rw [hwhole, entries_empty, lookup_nil]
  next h0 =>
    have hlong : e.vol.blockSize.toNat ≤ (e.vol.inodeAt disk dirIno).iSize.toNat := by
      rw [hwhole]
      exact Nat.le_mul_of_pos_left _ (Nat.pos_of_ne_zero h0)
    have htiled := hd.tiled 0 (Nat.pos_of_ne_zero h0)
    have hsame : entries (dirBytes behind ⟨e.vol, blkA, blkB⟩) e.vol.blockSize.toNat
        e.vol.blockSize.toNat = e.vol.dirEntries disk (e.vol.inodeAt disk dirIno) 0 := by
      refine entries_congr hblock fun o ho => ?_
      obtain ⟨h8, hend, _⟩ := htiled o ho
      omega
    rw [entries_block hlong, hsame]
    refine lookup_congr fun off hoff => ?_
    obtain ⟨hmem, hlive⟩ := List.mem_filter.mp hoff
    obtain ⟨h8, hend, hname⟩ := htiled off hmem
    have hlen := hname (isLive_iff.mp hlive).2
    exact ⟨deName_congr hblock (by omega) (by omega), deInode_congr hblock (by omega)⟩

end Lookup

/-! ## A directory of two blocks -/

/-- The file `a`, inode 12, in the first block, the file `b`, inode 13, in the second. -/
def twoRecords : Nat → U8
  | 0 => 12#8
  | 5 => 4#8
  | 6 => 1#8
  | 7 => 1#8
  | 8 => 0x61#8
  | 1024 => 13#8
  | 1029 => 4#8
  | 1030 => 1#8
  | 1031 => 1#8
  | 1032 => 0x62#8
  | _ => 0#8

def twoBlocks : Image := rootImage twoRecords

section TwoBlocks

variable {vol : Volume} (hv : RootVolume vol) {blocks : Nat → U8}

include hv

theorem RootVolume.dirBlock {k : Nat} (hk : k < 2) {j : Nat} (hj : j < 1024) :
    vol.dirBlock (rootImage blocks).disk (vol.inodeAt (rootImage blocks).disk 2#32) k j =
      blocks (k * 1024 + j) :=
  hv.blockByte (hv.rootBlock hk) (by omega) hj

theorem RootVolume.rootSize_toNat :
    (vol.inodeAt (rootImage blocks).disk 2#32).iSize.toNat = 2048 := by
  rw [hv.rootSize]
  rfl

theorem RootVolume.dirBlocks :
    vol.dirBlocks (vol.inodeAt (rootImage blocks).disk 2#32) = 2 := by
  unfold Volume.dirBlocks
  rw [hv.rootSize_toNat, hv.blockSize_toNat]

variable (hb : ∀ a, a < 2048 → blocks a = twoRecords a)

include hb

/-- The one record of each block. -/
theorem RootVolume.record {k : Nat} (hk : k < 2) :
    let b := vol.dirBlock (rootImage blocks).disk (vol.inodeAt (rootImage blocks).disk 2#32) k
    deRecLen b 0 = 1024 ∧ deInode b 0 = BitVec.ofNat 32 (12 + k) ∧
      deName b 0 = [BitVec.ofNat 8 (0x61 + k)] := by
  have hbyte : ∀ j, j < 1024 →
      vol.dirBlock (rootImage blocks).disk (vol.inodeAt (rootImage blocks).disk 2#32) k j =
      twoRecords (k * 1024 + j) := fun j hj => (hv.dirBlock hk hj).trans (hb _ (by omega))
  generalize vol.dirBlock (rootImage blocks).disk (vol.inodeAt (rootImage blocks).disk 2#32) k = b
    at hbyte
  have hk' : k = 0 ∨ k = 1 := by omega
  refine ⟨?_, ?_, ?_⟩
  · unfold deRecLen load16
    rw [hbyte _ (by omega), hbyte _ (by omega)]
    rcases hk' with rfl | rfl <;> rfl
  · unfold deInode load32
    rw [hbyte _ (by omega), hbyte _ (by omega), hbyte _ (by omega), hbyte _ (by omega)]
    rcases hk' with rfl | rfl <;> rfl
  · have hlen : (b (0 + 6)).toNat = 1 := by
      rw [hbyte _ (by omega)]
      rcases hk' with rfl | rfl <;> rfl
    unfold deName
    rw [hlen]
    show [b 8] = _
    rw [hbyte _ (by omega)]
    rcases hk' with rfl | rfl <;> rfl

theorem RootVolume.walk {k : Nat} (hk : k < 2) :
    PepinOS.walk (vol.dirBlock (rootImage blocks).disk (vol.inodeAt (rootImage blocks).disk 2#32) k)
      vol.blockSize.toNat vol.blockSize.toNat = [0] := by
  rw [hv.blockSize_toNat]
  exact walk_single (by omega) (by omega) (hv.record hb hk).1

theorem RootVolume.hasEntry (s : List U8) (k off : Nat) :
    vol.HasEntry (rootImage blocks).disk (vol.inodeAt (rootImage blocks).disk 2#32) s k off ↔
      k < 2 ∧ off = 0 ∧ s = [BitVec.ofNat 8 (0x61 + k)] := by
  have hblocks : vol.dirBlocks (vol.inodeAt (rootImage blocks).disk 2#32) = 2 := hv.dirBlocks
  unfold Volume.HasEntry
  rw [hblocks]
  constructor
  · rintro ⟨hk, hoff, rfl⟩
    have hmem := (List.mem_filter.mp hoff).1
    rw [show walkFrom _ _ _ _ _ = _ from hv.walk hb hk, List.mem_singleton] at hmem
    subst hmem
    exact ⟨hk, rfl, (hv.record hb hk).2.2⟩
  · rintro ⟨hk, rfl, rfl⟩
    refine ⟨hk, List.mem_filter.mpr ⟨?_, ?_⟩, (hv.record hb hk).2.2⟩
    · rw [show walkFrom _ _ _ _ _ = _ from hv.walk hb hk]
      exact List.mem_singleton_self 0
    · rw [isLive_iff, (hv.record hb hk).1, (hv.record hb hk).2.1]
      rcases (show k = 0 ∨ k = 1 by omega) with rfl | rfl <;> decide

theorem RootVolume.wellFormedDir :
    WellFormedDir (rootImage blocks).disk vol (vol.inodeAt (rootImage blocks).disk 2#32) := by
  have hblocks : vol.dirBlocks (vol.inodeAt (rootImage blocks).disk 2#32) = 2 := hv.dirBlocks
  refine ⟨?_, ?_, ?_, ?_⟩
  · rw [hblocks, hv.blockSize_toNat]
    exact hv.rootSize_toNat
  · rw [hblocks]
    omega
  · intro k hk off hoff
    rw [hblocks] at hk
    rw [hv.walk hb hk, List.mem_singleton] at hoff
    subst hoff
    obtain ⟨hrec, _, hname⟩ := hv.record hb hk
    have hlen := congrArg List.length hname
    unfold deName at hlen
    rw [List.length_map, List.length_range, List.length_singleton] at hlen
    rw [hrec, hlen, hv.blockSize_toNat]
    omega
  · intro s k off k' off' h h'
    obtain ⟨hk, rfl, hs⟩ := (hv.hasEntry hb s k off).mp h
    obtain ⟨hk', rfl, hs'⟩ := (hv.hasEntry hb s k' off').mp h'
    refine ⟨?_, rfl⟩
    rw [hs] at hs'
    rcases (show k = 0 ∨ k = 1 by omega) with rfl | rfl <;>
      rcases (show k' = 0 ∨ k' = 1 by omega) with rfl | rfl <;> first | rfl | cases hs'

end TwoBlocks

/-! ## When a lookup is complete -/

section Complete

variable {disk : Disk} {behind : Ext2 → Nat → U8} {fetch : Ext2 → U32 → Except Trap U8} {e : Ext2}
  {dirIno name : U32} {s : List U8}

/-- A name that lies in a later block is not found. -/
theorem ext2Find_later (hv : e.vol.Sound) (hd : WellFormedDir disk e.vol (e.vol.inodeAt disk dirIno))
    (hs : ∀ e', StringAt (fetch e') s name) {k off : Nat} (hk : 1 ≤ k)
    (hlater : e.vol.HasEntry disk (e.vol.inodeAt disk dirIno) s k off) :
    ∃ e', ext2Find disk behind fetch e dirIno name = .ok (e', 0#32) := by
  obtain ⟨e1, h1⟩ : ∃ e1, ext2Find disk behind fetch e dirIno name = .ok (e1, _) :=
    ext2Find_first hv hd hs
  rw [h1]
  refine ⟨e1, ?_⟩
  congr 2
  split
  next => rfl
  next h0 =>
    refine (lookup_eq_zero fun o ho => (entries_live ho).2).mpr fun hmem => ?_
    obtain ⟨o, ho, hname⟩ := List.mem_map.mp hmem
    have hsame := hd.distinct s 0 o k off ⟨Nat.pos_of_ne_zero h0, ho, hname⟩ hlater
    omega

/-- A complete lookup leaves no entry of the name to a later block. -/
theorem FindComplete.first (hv : e.vol.Sound)
    (hd : WellFormedDir disk e.vol (e.vol.inodeAt disk dirIno)) (hs : ∀ e', StringAt (fetch e') s name)
    (h : FindComplete disk behind fetch e dirIno name s) (k off : Nat) (hk : 1 ≤ k) :
    ¬e.vol.HasEntry disk (e.vol.inodeAt disk dirIno) s k off := by
  intro hlater
  obtain ⟨e1, ino, h1, hfound, _⟩ := h
  obtain ⟨e2, h2⟩ : ∃ e2, ext2Find disk behind fetch e dirIno name = .ok (e2, 0#32) :=
    ext2Find_later hv hd hs hk hlater
  rw [h1] at h2
  cases h2
  exact dirEntries_inode hlater (hfound k off hlater).symm

/-- Where no later block has the name, the lookup in the first block is complete. -/
theorem FindComplete.of_first (hv : e.vol.Sound)
    (hd : WellFormedDir disk e.vol (e.vol.inodeAt disk dirIno)) (hs : ∀ e', StringAt (fetch e') s name)
    (hfirst : ∀ k off, 1 ≤ k → ¬e.vol.HasEntry disk (e.vol.inodeAt disk dirIno) s k off) :
    FindComplete disk behind fetch e dirIno name s := by
  obtain ⟨e', hfind⟩ : ∃ e', ext2Find disk behind fetch e dirIno name = .ok (e', _) :=
    ext2Find_first hv hd hs
  have hblock : ∀ k off, e.vol.HasEntry disk (e.vol.inodeAt disk dirIno) s k off → k = 0 :=
    fun k off hhas => Nat.eq_zero_of_not_pos fun hk => hfirst k off hk hhas
  refine ⟨e', _, hfind, ?_, ?_⟩
  · intro k off hhas
    obtain rfl := hblock k off hhas
    rw [if_neg (Nat.ne_of_gt hhas.1)]
    apply lookup_unique hhas.2.1 hhas.2.2
    exact fun o ho hname => (hd.distinct s 0 o 0 off ⟨hhas.1, ho, hname⟩ hhas).2
  · split
    next h0 => exact ⟨fun _ k off hhas => absurd hhas.1 (by omega), fun _ => rfl⟩
    next h0 =>
      have hzero : lookup (e.vol.dirBlock disk (e.vol.inodeAt disk dirIno) 0) s
          (e.vol.dirEntries disk (e.vol.inodeAt disk dirIno) 0) = 0#32 ↔ _ :=
        lookup_eq_zero fun o ho => (entries_live ho).2
      rw [hzero]
      constructor
      · rintro hnone k off hhas
        obtain rfl := hblock k off hhas
        exact hnone (List.mem_map.mpr ⟨off, hhas.2.1, hhas.2.2⟩)
      · rintro hnone hmem
        obtain ⟨o, ho, hname⟩ := List.mem_map.mp hmem
        exact hnone 0 o ⟨Nat.pos_of_ne_zero h0, ho, hname⟩

/-- **A lookup is complete** exactly for the names that no entry of a later block has. -/
theorem find_complete_iff {disk : Disk} {behind : Ext2 → Nat → U8}
    {fetch : Ext2 → U32 → Except Trap U8} {e : Ext2} {dirIno name : U32} {s : List U8}
    (hv : e.vol.Sound) (hd : WellFormedDir disk e.vol (e.vol.inodeAt disk dirIno))
    (hs : ∀ e', StringAt (fetch e') s name) :
    FindComplete disk behind fetch e dirIno name s ↔
      ∀ k off, 1 ≤ k → ¬e.vol.HasEntry disk (e.vol.inodeAt disk dirIno) s k off :=
  ⟨fun h => h.first hv hd hs, FindComplete.of_first hv hd hs⟩

end Complete

theorem find_complete_iff_a : ∃ e, FindComplete twoBlocks.disk (fun _ _ => 0#8)
    (fun _ => oneLetter 0x61#8) e 2#32 0#32 [0x61#8] := by
  obtain ⟨e, _, _, hv⟩ := rootImage_mounted twoRecords
  refine ⟨e, (find_complete_iff hv.sound (hv.wellFormedDir fun _ _ => rfl)
    fun _ => oneLetter_string (by decide)).mpr ?_⟩
  intro k off hk hhas
  obtain ⟨hlt, _, hname⟩ := (hv.hasEntry (fun _ _ => rfl) _ k off).mp hhas
  obtain rfl : k = 1 := by omega
  cases hname

/-- The file `b`, inode 13, is not found. -/
theorem find_incomplete : ¬∀ (disk : Disk) (behind : Ext2 → Nat → U8)
    (fetch : Ext2 → U32 → Except Trap U8) (e : Ext2) (dirIno name : U32) (s : List U8),
    e.vol.Sound → WellFormedDir disk e.vol (e.vol.inodeAt disk dirIno) →
      (∀ e', StringAt (fetch e') s name) → FindComplete disk behind fetch e dirIno name s := by
  intro hall
  obtain ⟨e, _, _, hv⟩ := rootImage_mounted twoRecords
  have hs : ∀ _ : Ext2, StringAt (oneLetter 0x62#8) [0x62#8] 0#32 :=
    fun _ => oneLetter_string (by decide)
  have hfind := hall twoBlocks.disk (fun _ _ => 0#8) (fun _ => oneLetter 0x62#8) e 2#32 0#32 [0x62#8]
    hv.sound (hv.wellFormedDir fun _ _ => rfl) hs
  exact hfind.first hv.sound (hv.wellFormedDir fun _ _ => rfl) hs 1 0 (Nat.le_refl 1)
    ((hv.hasEntry (fun _ _ => rfl) _ 1 0).mpr ⟨by omega, rfl, rfl⟩)

end PepinOS
