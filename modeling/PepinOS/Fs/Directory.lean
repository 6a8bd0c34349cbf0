import Mathlib.Data.List.Find
import Mathlib.Data.List.TakeWhile
import PepinOS.Fs.DemoDisk

/-!
# The walk through a directory block

`ext2_ls` and `ext2_find` each have their own copy of the same walk: from offset 0, by
`rec_len`, while the offset is below the size of the directory and the block. `walk` is
that walk alone, the offsets it visits, whatever the block holds. The listing is the
names of its live entries (`lsLoop_eq`), the lookup the first of them with the given
name (`findLoop_eq`): the comparison of `ext2_find`, with its early exit at the end of
the string, is equality of names for every string and every entry (`dirMatch_eq`).

From the two follows that they agree (`ls_find_agree`). What neither does is look
beyond the first block. `find_complete_iff` is what that means for a lookup.
-/

namespace PepinOS

/-! ## The walk -/

/-- The offsets of the records visited from `off` on, `n` turns at most. -/
def walkFrom (b : Nat → U8) (iSize blockSize : Nat) : Nat → Nat → List Nat
  | 0, _ => []
  | n + 1, off =>
    if off < iSize ∧ off < blockSize then
      off :: if deRecLen b off = 0 then []
        else walkFrom b iSize blockSize n (off + deRecLen b off)
    else []

def walk (b : Nat → U8) (iSize blockSize : Nat) : List Nat := walkFrom b iSize blockSize blockSize 0

/-- A record that is an entry: the walk goes on after it, and it is not free. -/
def isLive (b : Nat → U8) (off : Nat) : Bool := deRecLen b off != 0 && deInode b off != 0#32

def entriesFrom (b : Nat → U8) (iSize blockSize n off : Nat) : List Nat :=
  (walkFrom b iSize blockSize n off).filter (isLive b)

/-- The entries of the block. -/
def entries (b : Nat → U8) (iSize blockSize : Nat) : List Nat :=
  entriesFrom b iSize blockSize blockSize 0

/-- The inode of the first entry of `offs` with the name `s`, 0 when there is none. -/
def lookup (b : Nat → U8) (s : List U8) (offs : List Nat) : U32 :=
  ((offs.find? fun off => deName b off == s).map (deInode b)).getD 0#32

section Walk

variable {b : Nat → U8} {iSize blockSize : Nat}

theorem isLive_iff {off : Nat} : isLive b off = true ↔ deRecLen b off ≠ 0 ∧ deInode b off ≠ 0#32 := by
  unfold isLive
  rw [Bool.and_eq_true, bne_iff_ne, bne_iff_ne]

theorem entries_live {off : Nat} (h : off ∈ entries b iSize blockSize) :
    deRecLen b off ≠ 0 ∧ deInode b off ≠ 0#32 :=
  isLive_iff.mp (List.mem_filter.mp h).2

/-- One turn of the walk. -/
theorem entriesFrom_succ (n off : Nat) : entriesFrom b iSize blockSize (n + 1) off =
    if off < iSize ∧ off < blockSize then
      if deRecLen b off = 0 then []
      else
        if deInode b off = 0#32 then entriesFrom b iSize blockSize n (off + deRecLen b off)
        else off :: entriesFrom b iSize blockSize n (off + deRecLen b off)
    else [] := by
  unfold entriesFrom
  rw [walkFrom]
  split
  next =>
    split
    next hrec =>
      rw [List.filter_cons_of_neg fun h => (isLive_iff.mp h).1 hrec]
      rfl
    next hrec =>
      split
      next hino => exact List.filter_cons_of_neg fun h => (isLive_iff.mp h).2 hino
      next hino => exact List.filter_cons_of_pos (isLive_iff.mpr ⟨hrec, hino⟩)
  next => rfl

/-- The listing is the names of the entries. -/
theorem lsLoop_eq : ∀ n off, lsLoop b iSize blockSize n off =
    (entriesFrom b iSize blockSize n off).map (deName b) := by
  intro n
  induction n with
  | zero => exact fun off => rfl
  | succ n ih =>
    intro off
    rw [lsLoop, entriesFrom_succ]
    split
    next =>
      split
      next => rfl
      next =>
        rw [ih]
        by_cases hino : deInode b off = 0#32
        · rw [if_neg (not_not.mpr hino), if_pos hino]
          rfl
        · rw [if_pos hino, if_neg hino]
          rfl
    next => rfl

/-! ## Names -/

/-- The NUL-terminated string at `p` is `s`. -/
def StringAt (fetch : U32 → Except Trap U8) : List U8 → U32 → Prop
  | [], p => fetch p = .ok 0#8
  | c :: s, p => c ≠ 0#8 ∧ fetch p = .ok c ∧ StringAt fetch s (p + 1#32)

variable {fetch : U32 → Except Trap U8}

/-- The comparison loop decides equality, also for names that hold a NUL. -/
theorem dirMatch_eq : ∀ {name s : List U8} {p : U32}, StringAt fetch s p →
    dirMatch fetch name p = .ok (name == s) := by
  intro name
  induction name with
  | nil =>
    intro s p hs
    cases s with
    | nil =>
      rw [dirMatch, show fetch p = .ok 0#8 from hs]
      rfl
    | cons c s =>
      obtain ⟨hc, hfetch, _⟩ := hs
      rw [dirMatch, hfetch, ok_bind, beq_eq_false_iff_ne.mpr hc]
      rfl
  | cons x name ih =>
    intro s p hs
    cases s with
    | nil =>
      rw [dirMatch, show fetch p = .ok 0#8 from hs]
      rfl
    | cons c s =>
      obtain ⟨hc, hfetch, hs⟩ := hs
      rw [dirMatch, hfetch, ok_bind, beq_eq_false_iff_ne.mpr hc, Bool.false_or]
      by_cases hx : c = x
      · subst hx
        rw [if_neg (by simp), ih hs, List.cons_beq_cons, beq_self_eq_true, Bool.true_and]
      · rw [if_pos (bne_iff_ne.mpr hx), List.cons_beq_cons,
          beq_eq_false_iff_ne.mpr fun h => hx h.symm]
        rfl

/-- A record as long as the block is the only one. -/
theorem walk_single (hpos : 0 < blockSize) (hsize : 0 < iSize) (hrec : deRecLen b 0 = blockSize) :
    walk b iSize blockSize = [0] := by
  obtain ⟨n, rfl⟩ := Nat.exists_eq_succ_of_ne_zero (Nat.ne_of_gt hpos)
  unfold walk
  rw [walkFrom, if_pos ⟨hsize, hpos⟩, hrec, if_neg (Nat.succ_ne_zero n), Nat.zero_add]
  cases n with
  | zero => rfl
  | succ n => rw [walkFrom, if_neg fun h => Nat.lt_irrefl _ h.2]

theorem lookup_nil (b : Nat → U8) (s : List U8) : lookup b s [] = 0#32 := rfl

theorem lookup_cons {s : List U8} (off : Nat) (offs : List Nat) :
    lookup b s (off :: offs) = if deName b off == s then deInode b off else lookup b s offs := by
  unfold lookup
  cases hname : deName b off == s with
  | true =>
    rw [List.find?_cons_of_pos (p := fun off => deName b off == s) hname]
    rfl
  | false =>
    rw [List.find?_cons_of_neg (p := fun off => deName b off == s)
      (by rw [hname]; exact Bool.false_ne_true)]
    rfl

/-- The lookup is the first entry with the name. -/
theorem findLoop_eq {s : List U8} {p : U32} (hs : StringAt fetch s p) :
    ∀ n off, findLoop fetch b iSize blockSize p n off =
      .ok (lookup b s (entriesFrom b iSize blockSize n off)) := by
  intro n
  induction n with
  | zero => exact fun off => rfl
  | succ n ih =>
    intro off
    rw [findLoop, entriesFrom_succ]
    split
    next =>
      split
      next => rfl
      next =>
        by_cases hino : deInode b off = 0#32
        · rw [if_neg (not_not.mpr hino), if_pos hino]
          exact ih _
        · rw [if_pos hino, if_neg hino, dirMatch_eq hs, ok_bind, lookup_cons]
          cases deName b off == s with
          | true => rfl
          | false => exact ih _
    next => rfl

end Walk

/-! ## The listing and the lookup -/

/-- What is printed of a name: `print` stops at a NUL. -/
def printedName (name : List U8) : List U8 := name.takeWhile (· != 0#8)

/-- The headers visited, and the names of the entries, lie inside the buffer. -/
def WalkInside (b : Nat → U8) (iSize blockSize : Nat) : Prop :=
  ∀ off ∈ walk b iSize blockSize, off + 8 ≤ blkSize ∧
    (isLive b off = true → off + 8 + (b (off + 6)).toNat ≤ blkSize)

section Agree

variable {b b' : Nat → U8} {iSize blockSize N : Nat}

/-! Only the bytes below a bound `N` count, where the records visited end there. -/

theorem deRecLen_congr (h : ∀ i, i < N → b' i = b i) {off : Nat} (hoff : off + 8 ≤ N) :
    deRecLen b' off = deRecLen b off := by
  unfold deRecLen load16
  rw [h _ (by omega), h _ (by omega)]

theorem deInode_congr (h : ∀ i, i < N → b' i = b i) {off : Nat} (hoff : off + 8 ≤ N) :
    deInode b' off = deInode b off :=
  load32_congr fun k hk => h _ (by omega)

theorem deName_congr (h : ∀ i, i < N → b' i = b i) {off : Nat} (hoff : off + 8 ≤ N)
    (hname : off + 8 + (b (off + 6)).toNat ≤ N) : deName b' off = deName b off := by
  unfold deName
  rw [h (off + 6) (by omega)]
  refine List.map_congr_left fun j hj => h _ ?_
  rw [List.mem_range] at hj
  omega

/-- A walk depends on the lengths it finds. -/
theorem walkFrom_congr : ∀ n off,
    (∀ o ∈ walkFrom b iSize blockSize n off, deRecLen b' o = deRecLen b o) →
      walkFrom b' iSize blockSize n off = walkFrom b iSize blockSize n off := by
  intro n
  induction n with
  | zero => exact fun off _ => rfl
  | succ n ih =>
    intro off hrec
    rw [walkFrom] at hrec ⊢
    rw [walkFrom]
    split
    next hoff =>
      rw [if_pos hoff] at hrec
      rw [hrec off List.mem_cons_self]
      split
      next => rfl
      next h0 =>
        rw [if_neg h0] at hrec
        rw [ih _ fun o ho => hrec o (List.mem_cons_of_mem _ ho)]
    next => rfl

theorem entries_congr (h : ∀ i, i < N → b' i = b i)
    (hin : ∀ o ∈ walk b iSize blockSize, o + 8 ≤ N) :
    entries b' iSize blockSize = entries b iSize blockSize := by
  unfold entries entriesFrom
  rw [walkFrom_congr _ _ fun o ho => deRecLen_congr h (hin o ho)]
  refine List.filter_congr fun o ho => ?_
  unfold isLive
  rw [deRecLen_congr h (hin o ho), deInode_congr h (hin o ho)]

theorem WalkInside.entry (hin : WalkInside b iSize blockSize) {off : Nat}
    (hoff : off ∈ entries b iSize blockSize) :
    off + 8 ≤ blkSize ∧ off + 8 + (b (off + 6)).toNat ≤ blkSize := by
  obtain ⟨hmem, hlive⟩ := List.mem_filter.mp hoff
  exact ⟨(hin off hmem).1, (hin off hmem).2 hlive⟩

/-- A lookup in entries that read alike. -/
theorem lookup_congr {s : List U8} {offs : List Nat}
    (h : ∀ off ∈ offs, deName b' off = deName b off ∧ deInode b' off = deInode b off) :
    lookup b' s offs = lookup b s offs := by
  induction offs with
  | nil => rw [lookup_nil, lookup_nil]
  | cons off offs ih =>
    obtain ⟨hname, hino⟩ := h off List.mem_cons_self
    rw [lookup_cons, lookup_cons, hname, hino, ih fun o ho => h o (List.mem_cons_of_mem _ ho)]

/-- The lookup finds nothing exactly where no entry has the name. -/
theorem lookup_eq_zero {s : List U8} {offs : List Nat} (h : ∀ off ∈ offs, deInode b off ≠ 0#32) :
    lookup b s offs = 0#32 ↔ s ∉ offs.map (deName b) := by
  induction offs with
  | nil => exact ⟨fun _ => List.not_mem_nil, fun _ => lookup_nil b s⟩
  | cons off offs ih =>
    rw [lookup_cons, List.map_cons, List.mem_cons, not_or]
    split
    next hname =>
      constructor
      · exact fun h0 => absurd h0 (h off List.mem_cons_self)
      · exact fun hne => absurd (beq_iff_eq.mp hname).symm hne.1
    next hname =>
      rw [ih fun o ho => h o (List.mem_cons_of_mem _ ho)]
      constructor
      · exact fun hrest => ⟨fun hs => hname (beq_iff_eq.mpr hs.symm), hrest⟩
      · exact fun hne => hne.2

end Agree

/-- What the two reads of a directory leave on a sound volume: the inode of the table and its
first block. -/
theorem ext2ReadDir_sound {disk : Disk} {e : Ext2} (hv : e.vol.Sound) (dirIno : U32) :
    ∃ blkA blkB inode, ext2ReadDir disk e dirIno = .ok (⟨e.vol, blkA, blkB⟩, inode) ∧
      (∀ k, k < 128 → inode k = e.vol.inodeAt disk dirIno k) ∧
      ∀ i, i < e.vol.blockSize.toNat →
        blkB i = e.vol.blockByte disk ((e.vol.inodeAt disk dirIno).iBlock 0) i := by
  obtain ⟨e1, inode, h1⟩ := hv.readable.readInode disk dirIno
  have hbyte : ∀ k, k < 128 → inode k = e.vol.inodeAt disk dirIno k :=
    fun k hk => ext2ReadInode_byte hv h1 hk
  obtain ⟨_, _, blkA, _, rfl, _⟩ := ext2ReadInode_ok h1
  obtain ⟨blkB, hb⟩ := hv.readable.block disk (inode.iBlock 0) e.blkB
  refine ⟨blkA, blkB, inode, ?_, hbyte, fun i hi => ?_⟩
  · unfold ext2ReadDir
    simp only [h1, ok_bind, hb]
    rfl
  · rw [ext2ReadBlock_byte hb (by rw [hv.whole]; exact hi), iBlock_congr hbyte (by omega)]

/-- **The listing and the lookup agree**, on any content of the block: `ext2_find` gives the
inode of the first entry that `ext2_ls` prints under the name, and 0 when it prints none. -/
theorem ls_find_agree {disk : Disk} {behind behind' : Ext2 → Nat → U8}
    {fetch : Ext2 → U32 → Except Trap U8} {e e1 : Ext2} {dirIno p : U32} {inode : Inode} {s : List U8}
    (hdir : ext2ReadDir disk e dirIno = .ok (e1, inode))
    (hin : WalkInside e1.blkB inode.iSize.toNat e1.vol.blockSize.toNat)
    (hnul : ∀ off ∈ entries e1.blkB inode.iSize.toNat e1.vol.blockSize.toNat,
      0#8 ∉ deName e1.blkB off)
    (hs : StringAt (fetch e1) s p) :
    ∃ names ino, ext2Ls disk behind e dirIno = .ok (e1, names) ∧
      ext2Find disk behind' fetch e dirIno p = .ok (e1, ino) ∧
      names.map printedName =
        (entries e1.blkB inode.iSize.toNat e1.vol.blockSize.toNat).map
          (fun off => printedName (deName e1.blkB off)) ∧
      ino = (((entries e1.blkB inode.iSize.toNat e1.vol.blockSize.toNat).find?
        fun off => printedName (deName e1.blkB off) == s).map (deInode e1.blkB)).getD 0#32 ∧
      (ino = 0#32 ↔ s ∉ names.map printedName) := by
  have hbuf : ∀ behind : Ext2 → Nat → U8, ∀ i, i < blkSize → dirBytes behind e1 i = e1.blkB i :=
    fun behind i hi => if_pos hi
  have hplain : ∀ off ∈ entries e1.blkB inode.iSize.toNat e1.vol.blockSize.toNat,
      printedName (deName e1.blkB off) = deName e1.blkB off := by
    intro off hoff
    refine List.takeWhile_eq_self_iff.mpr fun c hc => bne_iff_ne.mpr fun h0 => ?_
    exact hnul off hoff (h0 ▸ hc)
  have hname : ∀ behind : Ext2 → Nat → U8, ∀ off ∈ entries e1.blkB inode.iSize.toNat
      e1.vol.blockSize.toNat, deName (dirBytes behind e1) off = deName e1.blkB off ∧
        deInode (dirBytes behind e1) off = deInode e1.blkB off := by
    intro behind off hoff
    obtain ⟨h8, hlen⟩ := hin.entry hoff
    exact ⟨deName_congr (hbuf behind) h8 hlen, deInode_congr (hbuf behind) h8⟩
  have hls : ext2Ls disk behind e dirIno =
      .ok (e1, (entries e1.blkB inode.iSize.toNat e1.vol.blockSize.toNat).map (deName e1.blkB)) := by
    unfold ext2Ls
    simp only [hdir, ok_bind, lsLoop_eq]
    show Except.ok (e1, (entries _ _ _).map _) = _
    rw [entries_congr (hbuf behind) fun o ho => (hin o ho).1,
      List.map_congr_left fun off ho => (hname behind off ho).1]
  have hfind : ext2Find disk behind' fetch e dirIno p =
      .ok (e1, lookup e1.blkB s (entries e1.blkB inode.iSize.toNat e1.vol.blockSize.toNat)) := by
    unfold ext2Find
    simp only [hdir, ok_bind, findLoop_eq hs]
    show Except.ok (e1, lookup _ s (entries _ _ _)) = _
    rw [entries_congr (hbuf behind') fun o ho => (hin o ho).1, lookup_congr (hname behind')]
  have hprinted : ((entries e1.blkB inode.iSize.toNat e1.vol.blockSize.toNat).map
      (deName e1.blkB)).map printedName =
        (entries e1.blkB inode.iSize.toNat e1.vol.blockSize.toNat).map (deName e1.blkB) := by
    rw [List.map_map]
    exact List.map_congr_left hplain
  refine ⟨_, _, hls, hfind, ?_, ?_, ?_⟩
  · rw [List.map_map]
    rfl
  · unfold lookup
    have hfirst : (entries e1.blkB inode.iSize.toNat e1.vol.blockSize.toNat).find?
        (fun off => deName e1.blkB off == s) =
          (entries e1.blkB inode.iSize.toNat e1.vol.blockSize.toNat).find?
            fun off => printedName (deName e1.blkB off) == s :=
      List.find?_congr fun off ho => by rw [hplain off ho]
    rw [hfirst]
  · rw [hprinted]
    exact lookup_eq_zero fun off ho => (entries_live ho).2

/-- The name `c` at address 0. -/
def oneLetter (c : U8) (va : U32) : Except Trap U8 := .ok (if va = 0#32 then c else 0#8)

theorem oneLetter_string {c : U8} (hc : c ≠ 0#8) : StringAt (oneLetter c) [c] 0#32 := ⟨hc, rfl, rfl⟩

theorem ls_find_agree_demo : ∃ e e1 names ino,
    ext2Ls demoDisk (fun _ _ => 0#8) e 2#32 = .ok (e1, names) ∧
    ext2Find demoDisk (fun _ _ => 1#8) (fun _ => oneLetter 0x33#8) e 2#32 0#32 = .ok (e1, ino) ∧
      (ino = 0#32 ↔ [0x33#8] ∉ names.map printedName) := by
  obtain ⟨e, _, hv⟩ := demoDisk_mounted
  obtain ⟨e1, inode, hdir, hv1, hsize, hblk⟩ := hv.root
  obtain ⟨hrec, hino, hname⟩ := demoRoot_record hblk
  have hwalk : walk e1.blkB inode.iSize.toNat e1.vol.blockSize.toNat = [0] := by
    rw [hsize, hv1, hv.blockSize]
    exact walk_single (Nat.succ_pos _) (Nat.succ_pos _) hrec
  have hin : WalkInside e1.blkB inode.iSize.toNat e1.vol.blockSize.toNat := by
    intro off hoff
    rw [hwalk, List.mem_singleton] at hoff
    subst hoff
    refine ⟨by decide, fun _ => ?_⟩
    have hlen := congrArg List.length hname
    unfold deName at hlen
    rw [List.length_map, List.length_range] at hlen
    rw [hlen]
    decide
  have hnul : ∀ off ∈ entries e1.blkB inode.iSize.toNat e1.vol.blockSize.toNat,
      0#8 ∉ deName e1.blkB off := by
    intro off hoff
    have hmem : off ∈ walk e1.blkB inode.iSize.toNat e1.vol.blockSize.toNat :=
      (List.mem_filter.mp hoff).1
    rw [hwalk, List.mem_singleton] at hmem
    rw [hmem, hname]
    decide
  obtain ⟨names, ino, hls, hfind, _, _, hiff⟩ := @ls_find_agree demoDisk (fun _ _ => 0#8)
    (fun _ _ => 1#8) (fun _ => oneLetter 0x33#8) e e1 2#32 0#32 inode [0x33#8] hdir hin hnul
    (oneLetter_string (by decide))
  exact ⟨e, e1, names, ino, hls, hfind, hiff⟩

end PepinOS
