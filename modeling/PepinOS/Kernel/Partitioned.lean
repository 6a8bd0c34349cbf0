import PepinOS.Kernel.Kmain
import PepinOS.Process.Partitioned
import PepinOS.Process.WildStore

/-!
# Booting from a partition

`mbr_find_partition` keeps the flat disk of development working beside the partitioned one. A
kernel on a disk whose first Linux partition starts at sector `p` gets from `kmain` to the
machine it would get to on the partition alone, `part_lba` apart, and what can happen after
that is the same on both (`partition_transparent`).
-/

namespace PepinOS

section Kmain

variable {k : KernelImage} {disk : Disk} {p : U32}
  (hbehind : ∀ e, k.behind (e.shift p) = k.behind e)

include hbehind

theorem showGreeting_shift (e : Ext2) (m : Mem) : showGreeting k disk (e.shift p) m =
    shifted p <$> showGreeting k (fromSector disk p) e m := by
  have hfetch : ∀ e' : Ext2, literalAt (textBytes "hola.txt") = literalAt (textBytes "hola.txt") :=
    fun _ => rfl
  refine bind_image (toOption_image (ext2Find_shift hbehind hfetch e ext2RootInode 0#32)) ?_
  rintro ⟨e1, ino⟩
  refine ite_image (fun _ => rfl) fun _ => ?_
  refine bind_image (toOption_image (ext2ReadFile_shift disk p _ k.content e1 m ino 127#32)) ?_
  rintro ⟨e2, m2, bytes⟩
  rfl

theorem elfExecName_shift (b : ElfBuf) (name : List U8) (e : Ext2) (s : Loader) :
    elfExecName b k.behind disk name (e.shift p) s =
      shifted p <$> elfExecName b k.behind (fromSector disk p) name e s := by
  have hfetch : ∀ e' : Ext2, literalAt name = literalAt name := fun _ => rfl
  refine bind_image (toOption_image (ext2Find_shift hbehind hfetch e ext2RootInode 0#32)) ?_
  rintro ⟨e1, ino⟩
  refine ite_image (fun _ => rfl) fun _ => ?_
  refine bind_image (toOption_image (ext2ReadFile_shift disk p _ b.addr e1 s.mem ino _)) ?_
  rintro ⟨e2, mem, size⟩
  refine ite_image (fun _ => rfl) fun _ => ite_image (fun _ => rfl) fun _ => ?_
  refine bind_image_same fun a => bind_image_same fun s => rfl

/-- `kmain` on the whole disk and on the partition. -/
theorem kmain_shift {i : Nat} (h : LinuxPartition disk i p)
    (hflat : mbrFindPartition (fromSector disk p) = 0#32) (m : Mem) (pool : Fin 8 → Task)
    (nodes : NodePool) (kb : Keyboard) (scr : Screen) (r : Regs) :
    kmain k disk m pool nodes kb scr r =
      Machine.shift p <$> kmain k (fromSector disk p) m pool nodes kb scr r := by
  refine bind_image (toOption_image (h.boot hflat)) fun e => ?_
  refine bind_image (toOption_image (ext2Ls_shift hbehind e ext2RootInode)) ?_
  rintro ⟨e1, names⟩
  refine bind_image (showGreeting_shift hbehind e1 _) ?_
  rintro ⟨e2, mem⟩
  -- the demo tasks do not come from the disk
  refine bind_image_same fun s => ?_
  exact bind_image (elfExecName_shift hbehind k.elfBuf _ e2 s) fun _ => rfl

end Kmain

/-- **A partition is as good as a disk.** `kmain` gets to the same machine, `part_lba` apart, and
from there the runs are the same, with the same events. -/
theorem partition_transparent {env : Env} {i : Nat} {p : U32} (h : LinuxPartition env.disk i p)
    (hflat : mbrFindPartition (fromSector env.disk p) = 0#32) (hb : env.Blind p) {k : KernelImage}
    (hbehind : ∀ e, k.behind (e.shift p) = k.behind e) (m : Mem) (pool : Fin 8 → Task)
    (nodes : NodePool) (kb : Keyboard) (scr : Screen) (r : Regs) :
    kmain k env.disk m pool nodes kb scr r =
      Machine.shift p <$> kmain k (fromSector env.disk p) m pool nodes kb scr r ∧
    ∀ hist n, (∃ s, kmain k env.disk m pool nodes kb scr r = some s ∧ Run (Step env) s hist n) ↔
      ∃ s n', kmain k (fromSector env.disk p) m pool nodes kb scr r = some s ∧ n = n'.shift p ∧
        Run (Step (env.onPartition p)) s hist n' := by
  have hkmain := kmain_shift hbehind h hflat m pool nodes kb scr r
  refine ⟨hkmain, fun hist n => ?_⟩
  rw [hkmain]
  constructor
  · rintro ⟨s, hs, hrun⟩
    obtain ⟨s0, hs0, rfl⟩ := Option.map_eq_some_iff.mp hs
    obtain ⟨n', hn, hrun'⟩ := (runs_shift hb).mp hrun
    exact ⟨s0, n', hs0, hn, hrun'⟩
  · rintro ⟨s0, n', hs0, hn, hrun'⟩
    refine ⟨s0.shift p, ?_, (runs_shift hb).mpr ⟨n', hn, hrun'⟩⟩
    rw [hs0]
    rfl

/-- A partition table with one entry, for Linux from sector 63 on. -/
def oneEntry : Nat → U8
  | 450 => 0x83#8
  | 454 => 63#8
  | 510 => 0x55#8
  | 511 => 0xAA#8
  | _ => 0#8

def partDisk : Disk := fun n => if n = 0 then oneEntry else demoSector

theorem partition_transparent_demo : LinuxPartition partDisk 0 63#32 ∧
    kmain lowImage partDisk (fun _ => 0#8) (fun _ => newTask 0 0 0 0 0 0 0)
      (fun _ => ⟨fun _ => 0#8, 0#32, 0#32, 0#32, none, false⟩) ⟨fun _ => 0#8, 0, 0, false⟩
      ⟨0#8, 0#8, 0#8, fun _ => 0#8⟩ zeroRegs =
    Machine.shift 63#32 <$> kmain lowImage (fromSector partDisk 63#32) (fun _ => 0#8)
      (fun _ => newTask 0 0 0 0 0 0 0) (fun _ => ⟨fun _ => 0#8, 0#32, 0#32, 0#32, none, false⟩)
      ⟨fun _ => 0#8, 0, 0, false⟩ ⟨0#8, 0#8, 0#8, fun _ => 0#8⟩ zeroRegs := by
  have hpart : LinuxPartition partDisk 0 63#32 :=
    ⟨⟨rfl, rfl⟩, by omega, rfl, fun j hj => absurd hj (Nat.not_lt_zero j), rfl⟩
  have hflat : mbrFindPartition (fromSector partDisk 63#32) = 0#32 := by
    have hmbr : ideReadSector (fromSector partDisk 63#32) 0#32 = demoSector := by
      funext j
      -- sector 63 is not the one with the table
      have hne : ((63#32).toNat + (0#32).toNat % 2 ^ 28) % 2 ^ 28 ≠ 0 := by decide
      rw [ideReadSector_eq]
      unfold fromSector partDisk
      rw [if_neg hne]
    unfold mbrFindPartition
    rw [hmbr]
    exact if_pos (.inl (by decide))
  have hb : (wildEnv partDisk).Blind 63#32 := ⟨fun _ _ => rfl, fun _ _ => rfl, fun _ _ => rfl⟩
  have hruns := @partition_transparent (wildEnv partDisk) 0 63#32 hpart hflat hb lowImage
    (fun _ => rfl) (fun _ => 0#8) (fun _ => newTask 0 0 0 0 0 0 0)
    (fun _ => ⟨fun _ => 0#8, 0#32, 0#32, 0#32, none, false⟩) ⟨fun _ => 0#8, 0, 0, false⟩
    ⟨0#8, 0#8, 0#8, fun _ => 0#8⟩ zeroRegs
  exact ⟨hpart, hruns.1⟩

end PepinOS
