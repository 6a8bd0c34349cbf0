import PepinOS.Fs.Ext2
import PepinOS.Lib.Poll

/-!
# Waiting for the drive

`ide_wait_ready` and `ide_wait_drq` read the status register again and again. What they
read is a sequence here, one value for each read, and a sector is read once both have
come to their end; `ext2_read_block` reads its sectors one after another, on what is left
of the sequence. `Drivers.Ide` and `Fs.Ext2` are this with a drive that always answers
(`ext2ReadBlockPolled_eq`).

A drive that fails sets ERR and clears BSY, and DRQ stays 0. `ide_wait_drq` does not look
at ERR: it goes on as long as the drive says so (`block_ends_iff`).
-/

namespace PepinOS

def ideSrBsy : U8 := 0x80#8
def ideSrDrq : U8 := 0x08#8
def ideSrErr : U8 := 0x01#8

/-- BSY is 0. -/
def isReady (s : U8) : Bool := s &&& ideSrBsy == 0#8

/-- BSY is 0 and DRQ is 1. -/
def hasData (s : U8) : Bool := !(s &&& ideSrBsy != 0#8 || s &&& ideSrDrq == 0#8)

/-- `ide_wait_ready`, from the `k`-th read of the status on. -/
def ideWaitReady (st : Nat → U8) (n k : Nat) : Option Nat := poll isReady st n k

/-- `ide_wait_drq`. -/
def ideWaitDrq (st : Nat → U8) (n k : Nat) : Option Nat := poll hasData st n k

/-- `ide_read_sector`: how far it has read the status, and the bytes. -/
def ideReadSectorPolled (st : Nat → U8) (disk : Disk) (n : Nat) (lba : U32) (k : Nat) :
    Option (Nat × (Nat → U8)) := do
  -- in `ide_select_sector`
  let k ← ideWaitReady st n k
  let k ← ideWaitDrq st n k
  return (k, ideReadSector disk lba)

/-- The body of the loop of `ext2_read_block`. -/
def blockTurn (st : Nat → U8) (disk : Disk) (lba : U32) (n i : Nat) (s : Nat × (Nat → U8)) :
    Option (Nat × (Nat → U8)) := do
  let r ← ideReadSectorPolled st disk n (lba + BitVec.ofNat 32 i) s.1
  return (r.1, patch s.2 (i * 512) 512 r.2)

/-- `ext2_read_block`. -/
def ext2ReadBlockPolled (st : Nat → U8) (disk : Disk) (n : Nat) (vol : Volume) (block : U32)
    (buf : Nat → U8) (k : Nat) : Option (Nat × (Nat → U8)) :=
  let lba := vol.partLba + block * BitVec.ofNat 32 vol.sects
  forRangeM 0 vol.sects (blockTurn st disk lba n) (k, buf)

/-- From some read on the drive is not busy, and reports data or an error. -/
def Settles (st : Nat → U8) : Prop :=
  ∃ k, ∀ i, k ≤ i → isReady (st i) = true ∧
    (st i &&& ideSrDrq ≠ 0#8 ∨ st i &&& ideSrErr ≠ 0#8)

/-- From the `k`-th read on the status is, so many times, first not busy and then later
not busy with data. -/
def Serves (st : Nat → U8) : Nat → Nat → Prop
  | 0, _ => True
  | m + 1, k => ∃ i j, k ≤ i ∧ i < j ∧ isReady (st i) = true ∧ hasData (st j) = true ∧
      Serves st m (j + 1)

/-! ## One sector -/

section

variable {st : Nat → U8} {disk : Disk} {n n' k k' : Nat} {lba : U32}

/-- The status that has let a sector be read. -/
theorem sector_found {sector : Nat → U8}
    (h : ideReadSectorPolled st disk n lba k = some (k', sector)) :
    sector = ideReadSector disk lba ∧ ∃ i j, k ≤ i ∧ i < j ∧ k' = j + 1 ∧
      isReady (st i) = true ∧ hasData (st j) = true := by
  obtain ⟨k1, hready, h⟩ := Option.bind_eq_some_iff.mp h
  obtain ⟨k2, hdrq, h⟩ := Option.bind_eq_some_iff.mp h
  cases h
  obtain ⟨i, hki, hk1, hi⟩ := poll_found hready
  obtain ⟨j, hkj, hk2, hj⟩ := poll_found hdrq
  exact ⟨rfl, i, j, hki, by omega, hk2, hi, hj⟩

variable (disk lba) in
/-- With such a status the sector is read, no later than there. -/
theorem sector_ends {i j : Nat} (hki : k ≤ i) (hij : i < j) (hi : isReady (st i) = true)
    (hj : hasData (st j) = true) :
    ∃ n k', ideReadSectorPolled st disk n lba k = some (k', ideReadSector disk lba) ∧
      k' ≤ j + 1 := by
  obtain ⟨n1, k1, hready, hk1⟩ := poll_ends hki hi
  obtain ⟨n2, k2, hdrq, hk2⟩ := poll_ends (show k1 ≤ j by omega) hj
  refine ⟨max n1 n2, k2, ?_, hk2⟩
  unfold ideReadSectorPolled ideWaitReady ideWaitDrq
  rw [poll_mono hready (Nat.le_max_left ..)]
  simp only [Option.bind_eq_bind, Option.bind_some]
  rw [poll_mono hdrq (Nat.le_max_right ..)]
  rfl

theorem sector_mono {r : Nat × (Nat → U8)} (h : ideReadSectorPolled st disk n lba k = some r)
    (hle : n ≤ n') : ideReadSectorPolled st disk n' lba k = some r := by
  obtain ⟨k1, hready, h⟩ := Option.bind_eq_some_iff.mp h
  obtain ⟨k2, hdrq, h⟩ := Option.bind_eq_some_iff.mp h
  have hready' : ideWaitReady st n' k = some k1 := poll_mono hready hle
  have hdrq' : ideWaitDrq st n' k1 = some k2 := poll_mono hdrq hle
  unfold ideReadSectorPolled
  rw [hready']
  simp only [Option.bind_eq_bind, Option.bind_some]
  rw [hdrq']
  exact h

/-- What is served from a later read on is served from an earlier one on. -/
theorem Serves.earlier {m : Nat} (h : Serves st m k) (hle : k' ≤ k) : Serves st m k' := by
  cases m with
  | zero => trivial
  | succ m =>
    obtain ⟨i, j, hki, hrest⟩ := h
    exact ⟨i, j, Nat.le_trans hle hki, hrest⟩

end

/-! ## One block -/

section

variable {st : Nat → U8} {disk : Disk} {vol : Volume} {block : U32} {buf : Nat → U8} {k : Nat}

/-- A turn reads one sector. -/
theorem blockTurn_some {lba : U32} {n i : Nat} {s t : Nat × (Nat → U8)}
    (h : blockTurn st disk lba n i s = some t) :
    ideReadSectorPolled st disk n (lba + BitVec.ofNat 32 i) s.1 =
      some (t.1, ideReadSector disk (lba + BitVec.ofNat 32 i)) ∧
    t.2 = patch s.2 (i * 512) 512 (ideReadSector disk (lba + BitVec.ofNat 32 i)) := by
  obtain ⟨⟨k1, sector⟩, hread, h⟩ := Option.bind_eq_some_iff.mp h
  cases h
  obtain ⟨rfl, _⟩ := sector_found hread
  exact ⟨hread, rfl⟩

theorem blockTurn_of {lba : U32} {n i k' : Nat} {s : Nat × (Nat → U8)} {sector : Nat → U8}
    (h : ideReadSectorPolled st disk n (lba + BitVec.ofNat 32 i) s.1 = some (k', sector)) :
    blockTurn st disk lba n i s = some (k', patch s.2 (i * 512) 512 sector) := by
  unfold blockTurn
  rw [h]
  rfl

theorem blockTurns_mono {lba : U32} {n n' : Nat} (hle : n ≤ n') {m i : Nat}
    {s s' : Nat × (Nat → U8)} (h : forFromM m i (blockTurn st disk lba n) s = some s') :
    forFromM m i (blockTurn st disk lba n') s = some s' := by
  induction m generalizing i s with
  | zero => exact h
  | succ m ih =>
    obtain ⟨t, hturn, hrest⟩ := Option.bind_eq_some_iff.mp h
    obtain ⟨hread, ht⟩ := blockTurn_some hturn
    have hturn' := blockTurn_of (sector_mono hread hle)
    rw [← ht] at hturn'
    rw [forFromM, hturn']
    exact ih hrest

/-- The loop has found the status it waits for at each of its turns. -/
theorem blockTurns_serves {lba : U32} {n m i : Nat} {s s' : Nat × (Nat → U8)}
    (h : forFromM m i (blockTurn st disk lba n) s = some s') : Serves st m s.1 := by
  induction m generalizing i s with
  | zero => trivial
  | succ m ih =>
    obtain ⟨t, hturn, hrest⟩ := Option.bind_eq_some_iff.mp h
    obtain ⟨_, a, b, ha, hab, ht, hready, hdata⟩ := sector_found (blockTurn_some hturn).1
    refine ⟨a, b, ha, hab, hready, hdata, ?_⟩
    rw [← ht]
    exact ih hrest

/-- And if there is such a status for each, it comes to its end. -/
theorem blockTurns_end {lba : U32} {m i : Nat} {s : Nat × (Nat → U8)} (h : Serves st m s.1) :
    ∃ n s', forFromM m i (blockTurn st disk lba n) s = some s' := by
  induction m generalizing i s with
  | zero => exact ⟨0, s, rfl⟩
  | succ m ih =>
    obtain ⟨a, b, ha, hab, hready, hdata, hrest⟩ := h
    obtain ⟨n1, k1, hread, hk1⟩ := sector_ends disk (lba + BitVec.ofNat 32 i) ha hab hready
      hdata
    have hturn := blockTurn_of hread
    obtain ⟨n2, s', hloop⟩ := ih (i := i + 1)
      (s := (k1, patch s.2 (i * 512) 512 (ideReadSector disk (lba + BitVec.ofNat 32 i))))
      (hrest.earlier hk1)
    refine ⟨max n1 n2, s', ?_⟩
    have hturn' := blockTurn_of (sector_mono hread (Nat.le_max_left n1 n2))
    rw [forFromM, hturn']
    exact blockTurns_mono (Nat.le_max_right ..) hloop

/-- **When a block is read**: exactly if the status is ready, and then has data, once for
each sector. -/
theorem block_ends_iff : (∃ n r, ext2ReadBlockPolled st disk n vol block buf k = some r) ↔
    Serves st vol.sects k := by
  constructor
  · intro h
    obtain ⟨n, r, h⟩ := h
    exact blockTurns_serves (s := (k, buf)) h
  · intro h
    exact blockTurns_end (s := (k, buf)) h

theorem sector_ends_iff {lba : U32} : (∃ n r, ideReadSectorPolled st disk n lba k = some r) ↔
    Serves st 1 k := by
  constructor
  · intro h
    obtain ⟨n, r, h⟩ := h
    obtain ⟨_, i, j, hki, hij, _, hi, hj⟩ := sector_found h
    exact ⟨i, j, hki, hij, hi, hj, trivial⟩
  · intro h
    obtain ⟨i, j, hki, hij, hi, hj, _⟩ := h
    obtain ⟨n, k', hread, _⟩ := sector_ends disk lba hki hij hi hj
    exact ⟨n, _, hread⟩

/-- A block that is read is what `ext2ReadBlock` says. -/
theorem ext2ReadBlockPolled_eq {n : Nat} {r : Nat × (Nat → U8)}
    (h : ext2ReadBlockPolled st disk n vol block buf k = some r) (hfit : vol.sects * 512 ≤ blkSize) :
    ext2ReadBlock disk vol block buf = .ok r.2 := by
  have hloop : r.2 = forRange 0 vol.sects (fun i b => patch b (i * 512) 512 (ideReadSector disk
      (vol.partLba + block * BitVec.ofNat 32 vol.sects + BitVec.ofNat 32 i))) buf :=
    forRangeM_map Prod.snd (fun i s t hturn => (blockTurn_some hturn).2) h
  unfold ext2ReadBlock
  rw [if_pos hfit, hloop]

/-- Once the drive has settled, data again and again is enough. -/
theorem Settles.serves (hset : Settles st) (hdrq : ∀ k, ∃ i, k ≤ i ∧ st i &&& ideSrDrq ≠ 0#8)
    (m k : Nat) : Serves st m k := by
  obtain ⟨k0, hset⟩ := hset
  induction m generalizing k with
  | zero => trivial
  | succ m ih =>
    obtain ⟨j, hj, hdata⟩ := hdrq (max k k0 + 1)
    refine ⟨max k k0, j, Nat.le_max_left .., by omega, (hset _ (Nat.le_max_right ..)).1, ?_, ih _⟩
    have hready := (hset j (by omega)).1
    unfold isReady at hready
    unfold hasData
    simp only [beq_iff_eq] at hready
    simp [hready, hdata]

end

/-- **When reading ends**, a sector and a block: whatever the drive reports, exactly if it
reports data often enough. -/
theorem read_ends_iff (st : Nat → U8) (disk : Disk) (lba : U32) (vol : Volume) (block : U32)
    (buf : Nat → U8) (k : Nat) :
    ((∃ n r, ideReadSectorPolled st disk n lba k = some r) ↔ Serves st 1 k) ∧
    ((∃ n r, ext2ReadBlockPolled st disk n vol block buf k = some r) ↔ Serves st vol.sects k) :=
  ⟨sector_ends_iff, block_ends_iff⟩

/-- A bad sector: ERR and no DRQ, for ever. -/
theorem error_hangs : ∃ st : Nat → U8, Settles st ∧
    (∀ disk n lba k, ideReadSectorPolled st disk n lba k = none) ∧
    ∀ disk n vol block buf k, 0 < vol.sects → ext2ReadBlockPolled st disk n vol block buf k = none := by
  have hserves : ∀ m k, ¬Serves (fun _ => 0x41#8) (m + 1) k := by
    intro m k h
    obtain ⟨i, j, _, _, _, hdata, _⟩ := h
    have herr : hasData 0x41#8 = false := rfl
    exact absurd (herr.symm.trans hdata) Bool.false_ne_true
  have hready : isReady 0x41#8 = true := rfl
  have herr : 0x41#8 &&& ideSrErr ≠ 0#8 := by decide
  refine ⟨fun _ => 0x41#8, ⟨0, fun i _ => ⟨hready, Or.inr herr⟩⟩, fun disk n lba k => ?_,
    fun disk n vol block buf k hpos => ?_⟩
  · apply Option.eq_none_iff_forall_not_mem.mpr
    intro r hr
    exact hserves 0 k (sector_ends_iff.mp ⟨n, r, hr⟩)
  · apply Option.eq_none_iff_forall_not_mem.mpr
    intro r hr
    have h := block_ends_iff.mp ⟨n, r, hr⟩
    obtain ⟨m, hm⟩ := Nat.exists_eq_succ_of_ne_zero (Nat.ne_of_gt hpos)
    rw [hm] at h
    exact hserves m k h

end PepinOS
