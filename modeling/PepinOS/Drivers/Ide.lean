import PepinOS.Lib.Types

/-!
# The IDE drive

`drivers/ide.c`, as far as reading goes. `ide_select_sector` spreads the sector
number over four registers, of which the last keeps four bits; the drive puts
the 28 bits together again. Its content is a function, never written (nothing
calls `ide_write_sector`), and it always answers here; the polling of the status
register is in `Fs.Polling`.
-/

namespace PepinOS

/-- The sectors of the drive, 512 bytes each, by LBA28 number. -/
abbrev Disk := Nat → Nat → U8

/-- The registers `ide_select_sector` writes. -/
structure IdeRegs where
  driveHead : U8
  secCount : U8
  lbaLo : U8
  lbaMid : U8
  lbaHi : U8

def ideSelectSector (lba : U32) : IdeRegs where
  driveHead := 0xE0#8 ||| ((lba >>> 24) &&& 0x0F#32).setWidth 8
  secCount := 1#8
  lbaLo := (lba &&& 0xFF#32).setWidth 8
  lbaMid := ((lba >>> 8) &&& 0xFF#32).setWidth 8
  lbaHi := ((lba >>> 16) &&& 0xFF#32).setWidth 8

/-- The sector number the drive sees. -/
def IdeRegs.lba28 (r : IdeRegs) : Nat :=
  (r.driveHead &&& 0x0F#8).toNat * 2 ^ 24 + r.lbaHi.toNat * 2 ^ 16 + r.lbaMid.toNat * 2 ^ 8 +
    r.lbaLo.toNat

/-- `ide_read_sector`: byte `i` of the 512 it puts in the buffer. -/
def ideReadSector (disk : Disk) (lba : U32) (i : Nat) : U8 :=
  disk (ideSelectSector lba).lba28 i

/-- The drive is asked for the low 28 bits of the sector number. -/
theorem ideSelectSector_lba28 (lba : U32) : (ideSelectSector lba).lba28 = lba.toNat % 2 ^ 28 := by
  have hbyte : ∀ x : U32, ((x &&& 0xFF#32).setWidth 8 : U8).toNat = x.toNat % 256 := by
    intro x
    have hlow : (x &&& 0xFF#32).toNat = x.toNat % 2 ^ 8 := toNat_and_lowMask x (k := 8) (by omega)
    rw [BitVec.toNat_setWidth, hlow]
    omega
  have hhead : (0xE0#8 ||| ((lba >>> 24) &&& 0x0F#32).setWidth 8) &&& 0x0F#8 =
      ((lba >>> 24) &&& 0x0F#32).setWidth 8 := by
    apply BitVec.eq_of_getLsbD_eq
    intro i hi
    rcases (show i = 0 ∨ i = 1 ∨ i = 2 ∨ i = 3 ∨ i = 4 ∨ i = 5 ∨ i = 6 ∨ i = 7 by omega) with
      h | h | h | h | h | h | h | h <;> subst h <;> simp
  have hnibble : ((lba >>> 24) &&& 0x0F#32).toNat = (lba >>> 24).toNat % 2 ^ 4 :=
    toNat_and_lowMask _ (k := 4) (by omega)
  have hlt := lba.isLt
  unfold IdeRegs.lba28 ideSelectSector
  simp only [hhead, hbyte, BitVec.toNat_setWidth, hnibble, toNat_ushiftRight]
  omega

end PepinOS
