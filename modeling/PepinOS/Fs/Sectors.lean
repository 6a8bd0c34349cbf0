import PepinOS.Fs.Layout
import PepinOS.Lib.TraceSpec

/-!
# The sectors of a block

Which sectors `ext2_read_block` transfers: the block read of `Fs.Ext2` with a note of the
registers before each transfer, so of the 28 bits the drive puts together from them. The
sector numbers of a block are `part_lba + block * (block_size / 512) + i` in exact
integers (`Volume.sectors`); the driver computes them in 32 bits, of which
`ide_select_sector` passes 28 on, and the processor reports neither.

So the drive is asked for the exact numbers modulo 2^28 (`ext2ReadBlockT_trace`), and a
block is read from its own place if it lies below that limit to its end
(`read_unaliased_iff`). A block number beyond it, which nothing between an inode and the
drive rejects, brings in sectors of another block as its content.
-/

namespace PepinOS

open Traced

/-- `ide_read_sector`, the registers noted. -/
def ideReadSectorT (disk : Disk) (lba : U32) : Traced IdeRegs Trap (Nat → U8) := do
  touch [ideSelectSector lba]
  return ideReadSector disk lba

/-- The body of the loop of `ext2_read_block`. -/
def sectorTurn (disk : Disk) (lba : U32) (i : Nat) (b : Nat → U8) :
    Traced IdeRegs Trap (Nat → U8) := do
  let sector ← ideReadSectorT disk (lba + BitVec.ofNat 32 i)
  return patch b (i * 512) 512 sector

/-- `ext2_read_block`. -/
def ext2ReadBlockT (disk : Disk) (vol : Volume) (block : U32) (buf : Nat → U8) :
    Traced IdeRegs Trap (Nat → U8) :=
  let lba := vol.partLba + block * BitVec.ofNat 32 vol.sects
  if vol.sects * 512 ≤ blkSize then forRangeT 0 vol.sects (sectorTurn disk lba) buf
  else lift (.error .untracked)

/-- The sectors of a block, in exact integers. -/
def Volume.sectors (vol : Volume) (block : U32) : List Nat :=
  (List.range (vol.blockSize.toNat / 512)).map fun i =>
    vol.partLba.toNat + block.toNat * (vol.blockSize.toNat / 512) + i

/-- A block read transfers the sectors of the block, each to its place, or nothing. -/
def Unaliased (disk : Disk) (vol : Volume) (block : U32) (buf : Nat → U8) : Prop :=
  let read := ext2ReadBlockT disk vol block buf
  (read.trace.map IdeRegs.lba28 = vol.sectors block ∧
    ∃ buf', read.result = .ok buf' ∧ ∀ j, j < vol.blockSize.toNat →
      buf' j = disk (vol.partLba.toNat + block.toNat * (vol.blockSize.toNat / 512) + j / 512)
        (j % 512)) ∨
  read.trace = []

/-! ## What is asked for -/

section

variable {disk : Disk} {vol : Volume} {block : U32} {buf : Nat → U8}

theorem sectorTurn_eq (lba : U32) (i : Nat) (b : Nat → U8) : sectorTurn disk lba i b =
    ⟨[ideSelectSector (lba + BitVec.ofNat 32 i)],
      .ok (patch b (i * 512) 512 (ideReadSector disk (lba + BitVec.ofNat 32 i)))⟩ := rfl

/-- Without the notes it is the block read. -/
theorem ext2ReadBlockT_result :
    (ext2ReadBlockT disk vol block buf).result = ext2ReadBlock disk vol block buf := by
  unfold ext2ReadBlockT ext2ReadBlock
  by_cases hfit : vol.sects * 512 ≤ blkSize
  · rw [if_pos hfit, if_pos hfit, forRangeT_noted (sectorTurn_eq _)]
  · rw [if_neg hfit, if_neg hfit]
    rfl

/-- The drive is asked for the exact sector numbers, modulo its size. -/
theorem ext2ReadBlockT_trace (disk : Disk) (block : U32) (buf : Nat → U8)
    (hfit : vol.sects * 512 ≤ blkSize) :
    (ext2ReadBlockT disk vol block buf).trace.map IdeRegs.lba28 =
      (vol.sectors block).map (· % 2 ^ 28) := by
  unfold ext2ReadBlockT Volume.sectors
  rw [if_pos hfit, forRangeT_noted (sectorTurn_eq _), ← vol.sects_eq, Nat.sub_zero,
    ← List.range_eq_range', List.map_map, List.map_flatMap]
  simp only [List.map_singleton, ideSelectSector_lba28, blockLba_mod]
  exact List.map_eq_flatMap.symm

theorem sectors_ne_nil (hpos : 512 ≤ vol.blockSize.toNat) : vol.sectors block ≠ [] := by
  intro hnil
  have hlen := congrArg List.length hnil
  rw [Volume.sectors, List.length_map, List.length_range, List.length_nil] at hlen
  omega

/-- The sector numbers are below the drive's limit exactly if the end of the block is. -/
theorem sectors_mod_iff (hpos : 512 ≤ vol.blockSize.toNat) :
    (vol.sectors block).map (· % 2 ^ 28) = vol.sectors block ↔
      vol.partLba.toNat + (block.toNat + 1) * (vol.blockSize.toNat / 512) ≤ 2 ^ 28 := by
  have hcount : 0 < vol.blockSize.toNat / 512 := by omega
  rw [Nat.add_mul, Nat.one_mul, ← Nat.add_assoc]
  unfold Volume.sectors
  rw [List.map_map, List.map_inj_left]
  simp only [List.mem_range, Function.comp_apply]
  generalize vol.blockSize.toNat / 512 = n at *
  generalize vol.partLba.toNat + block.toNat * n = first
  constructor
  · intro hall
    have hlast := hall (n - 1) (by omega)
    omega
  · intro hend i hi
    omega

/-- Byte `j` of what a block read gives. -/
theorem ext2ReadBlock_sector {buf' : Nat → U8} (h : ext2ReadBlock disk vol block buf = .ok buf')
    (hwhole : vol.sects * 512 = vol.blockSize.toNat) {j : Nat} (hj : j < vol.blockSize.toNat) :
    buf' j = disk ((vol.partLba.toNat + block.toNat * (vol.blockSize.toNat / 512) + j / 512) %
      2 ^ 28) (j % 512) := by
  rw [ext2ReadBlock_byte h (by omega), ← vol.sects_eq]
  unfold Volume.blockByte
  rw [ideReadSector_eq, blockLba_mod]

end

/-- **Where a block is read from**: its own sectors, exactly if the drive has that many. -/
theorem read_unaliased_iff (disk : Disk) (vol : Volume) (block : U32) (buf : Nat → U8)
    (hsize : vol.blockSize = 1024#32 ∨ vol.blockSize = 2048#32 ∨ vol.blockSize = 4096#32) :
    Unaliased disk vol block buf ↔
      vol.partLba.toNat + (block.toNat + 1) * (vol.blockSize.toNat / 512) ≤ 2 ^ 28 := by
  have hbytes : vol.sects * 512 = vol.blockSize.toNat ∧ 512 ≤ vol.blockSize.toNat ∧
      vol.blockSize.toNat ≤ blkSize := by
    rw [vol.sects_eq]
    rcases hsize with h | h | h <;> rw [h] <;> decide
  obtain ⟨hwhole, hpos, hle⟩ := hbytes
  have hfit : vol.sects * 512 ≤ blkSize := hwhole ▸ hle
  have htrace := ext2ReadBlockT_trace disk block buf hfit
  rw [← sectors_mod_iff hpos]
  constructor
  · rintro (⟨hread, _⟩ | hnone)
    · rw [← htrace, hread]
    · rw [hnone] at htrace
      exact absurd (List.map_eq_nil_iff.mp htrace.symm) (sectors_ne_nil hpos)
  · intro hexact
    refine Or.inl ⟨htrace.trans hexact, ?_⟩
    have hend := (sectors_mod_iff hpos).mp hexact
    obtain ⟨buf', hbuf⟩ := ext2ReadBlock_fits disk block buf hfit
    refine ⟨buf', ext2ReadBlockT_result.trans hbuf, fun j hj => ?_⟩
    rw [ext2ReadBlock_sector hbuf hwhole hj, Nat.mod_eq_of_lt]
    rw [Nat.add_mul, Nat.one_mul] at hend
    have hlast : j / 512 < vol.blockSize.toNat / 512 := by omega
    omega

/-- Blocks of 1024 bytes in a partition from the given sector on. -/
def smallBlocks (partLba : U32) : Volume := ⟨1024#32, 128#32, 0#32, fun _ => 0#8, partLba⟩

theorem read_unaliased_five : Unaliased (fun lba _ => BitVec.ofNat 8 lba) (smallBlocks 2048#32) 5#32
    fun _ => 0#8 :=
  (read_unaliased_iff _ (smallBlocks 2048#32) 5#32 _ (Or.inl rfl)).mpr (by decide)

/-- The first block past the limit is read from the boot sector on. -/
theorem far_block_aliased : ∃ vol block, vol.blockSize = 1024#32 ∧ vol.partLba = 0#32 ∧
    ∀ disk buf, (ext2ReadBlockT disk vol block buf).trace.map IdeRegs.lba28 = [0, 1] ∧
      ¬Unaliased disk vol block buf := by
  refine ⟨smallBlocks 0#32, 0x08000000#32, rfl, rfl, fun disk buf => ?_⟩
  have htrace := ext2ReadBlockT_trace disk 0x08000000#32 buf
    (show (smallBlocks 0#32).sects * 512 ≤ blkSize by decide)
  have hread : ((smallBlocks 0#32).sectors 0x08000000#32).map (· % 2 ^ 28) = [0, 1] := by decide
  rw [hread] at htrace
  refine ⟨htrace, ?_⟩
  rintro (⟨hown, _⟩ | hnone)
  · exact absurd (htrace.symm.trans hown) (by decide)
  · rw [hnone] at htrace
    exact absurd htrace (List.cons_ne_nil _ _).symm

end PepinOS
