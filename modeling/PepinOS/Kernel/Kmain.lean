import PepinOS.Arch.Gdt
import PepinOS.Fs.Named
import PepinOS.Fs.Overlay
import PepinOS.Fs.Validation
import PepinOS.Process.Launched
import PepinOS.Process.Privilege

/-!
# From the disk to the first program

`_start` and `kmain` of `kernel/kernel.c`, the messages apart: the tables of the processor,
paging and the page allocator, the mount, the listing of the root directory and the greeting
in `hola.txt`, the two demo tasks, the shell, and ring 3.

Elsewhere the files a program is loaded from and the state it is loaded into are given. Here
they come from the disk: `kmain_boots` says that on a mountable disk `kmain` gets to ring 3
in a booted machine, with the shell's image in memory as the file on the disk describes it.
-/

namespace PepinOS

/-- Where the linker put what `kmain` uses, and what lies behind `blk_b`. -/
structure KernelImage where
  elfBuf : ElfBuf
  /-- `content[128]` -/
  content : U32
  content_below : content.toNat + 128 ≤ kernelPdAddr
  ktss : U32
  entry : Stub → U32
  kidt : Nat → IdtDesc
  userTask : Nat
  userTaskB : Nat
  behind : Ext2 → Nat → U8

/-- An image with everything low. -/
def lowImage : KernelImage where
  elfBuf := lowBuf
  content := 0x8000#32
  content_below := by unfold kernelPdAddr; simp
  ktss := 0x9000#32
  entry := fun _ => 0x9100#32
  kidt := fun _ => ⟨0, 0, 0, 0⟩
  userTask := 0x9200
  userTaskB := 0x9600
  behind := fun _ _ => 0#8

section

variable (k : KernelImage) (disk : Disk)

/-- The greeting: `hola.txt` is read to `content` and printed. -/
def showGreeting (e : Ext2) (m : Mem) : Option (Ext2 × Mem) := do
  let (e, ino) ← (ext2Find disk k.behind (fun _ => literalAt (textBytes "hola.txt")) e ext2RootInode
    0#32).toOption
  if ino = 0#32 then return (e, m)
  let (e, m, bytes) ← (ext2ReadFile disk kernelStore e m ino k.content 127#32).toOption
  return (e, store8 m (k.content + bytes).toNat 0#8)

/-- `_start` and `kmain`. The task state is a variable of the kernel, as everywhere but in
`Arch.Gdt`; `sched_enter` is called with the registers `r`. -/
def kmain (m : Mem) (pool : Fin 8 → Task) (nodes : NodePool) (kb : Keyboard) (scr : Screen)
    (r : Regs) : Option Machine := do
  let m := initGdt k.ktss m
  let m := initIdt k.entry k.kidt m
  -- `init_paging`, `pmm_init(32 MB)`
  let s := freshLoader m 0x2000000#32 pool
  let e ← (ext2Boot disk).toOption
  let (e, _) ← (ext2Ls disk k.behind e ext2RootInode).toOption
  let (e, mem) ← showGreeting k disk e s.mem
  let s ← launchTasks k.userTask k.userTaskB { s with mem := mem }
  let (e, s) ← elfExecName k.elfBuf k.behind disk (textBytes "shell.elf") e s
  return schedEnter (bootKernel s.sched nodes kb scr) e s.mem r

end

/-! ## Before the tasks -/

section Greeting

variable {k : KernelImage} {disk : Disk} {e : Ext2}

/-- The greeting is written to `content`, and nowhere else. -/
theorem showGreeting_patch (hv : e.vol.Sound)
    (hd : WellFormedDir disk e.vol (e.vol.inodeAt disk ext2RootInode)) (m : Mem) :
    ∃ e' v, e'.vol = e.vol ∧
      showGreeting k disk e m = some (e', patch m k.content.toNat 128 v) := by
  have hwhole : ∀ m' : Mem, (∀ x, ¬InRun k.content.toNat 128 x → m' x = m x) →
      ∃ v, patch m k.content.toNat 128 v = m' := by
    intro m' hother
    refine ⟨fun j => m' (k.content.toNat + j), ?_⟩
    funext x
    by_cases hin : InRun k.content.toNat 128 x
    · rw [patch_in hin, Nat.add_sub_cancel' hin.1]
    · rw [patch_out hin, hother x hin]
  obtain ⟨e1, hvol1, hfind⟩ : ∃ e', e'.vol = e.vol ∧ ext2Find disk k.behind
      (fun _ => literalAt (textBytes "hola.txt")) e ext2RootInode 0#32 =
        .ok (e', e.vol.rootEntry disk (textBytes "hola.txt")) :=
    ext2Find_root k.behind hv hd (by decide) (by decide)
  by_cases hino : e.vol.rootEntry disk (textBytes "hola.txt") = 0#32
  · obtain ⟨v, hsame⟩ := hwhole m fun _ _ => rfl
    refine ⟨e1, v, hvol1, ?_⟩
    rw [hsame]
    simp [showGreeting, hfind, Except.toOption, hino]
  · have hbelow := k.content_below
    unfold kernelPdAddr at hbelow
    have hroom : k.content.toNat + (127#32 : U32).toNat ≤ 2 ^ 32 := by
      rw [BitVec.toNat_ofNat]
      omega
    obtain ⟨e2, hvol2, hread⟩ := ext2ReadFile_content disk (hvol1 ▸ hv) m
      (e.vol.rootEntry disk (textBytes "hola.txt")) hroom
    rw [hvol1] at hread
    generalize hbytes : (e.vol.content disk (e.vol.rootEntry disk (textBytes "hola.txt"))).take
      (127#32 : U32).toNat = bytes at hread
    have hlen : bytes.length ≤ 127 := hbytes ▸ List.length_take_le ..
    have hend :
        (k.content + BitVec.ofNat 32 bytes.length).toNat = k.content.toNat + bytes.length := by
      rw [BitVec.toNat_add, BitVec.toNat_ofNat]
      omega
    obtain ⟨v, hstored⟩ := hwhole
      (store8 (patch m k.content.toNat bytes.length fun k => bytes.getD k 0#8)
        (k.content + BitVec.ofNat 32 bytes.length).toNat 0#8) fun x hx => by
          unfold InRun at hx
          unfold store8
          rw [hend, Function.update_of_ne (by omega), patch_out (by unfold InRun; omega)]
    refine ⟨e2, v, hvol2.trans hvol1, ?_⟩
    rw [hstored]
    simp only [showGreeting, hfind, hread, Except.toOption, Option.bind_eq_bind, Option.bind_some,
      if_neg hino]
    rfl

end Greeting

theorem store8_patch_comm {m : Mem} {a n x : Nat} {v : Nat → U8} (b : U8) (h : a + n ≤ x) :
    store8 (patch m a n v) x b = patch (store8 m x b) a n v := by
  funext y
  unfold store8
  by_cases hy : y = x
  · rw [hy, Function.update_self, patch_out (by unfold InRun; omega), Function.update_self]
  · rw [Function.update_of_ne hy]
    unfold patch
    rw [Function.update_of_ne hy]

theorem setWord_patch_comm {m : Mem} {a n p i : Nat} {v : Nat → U8} (w : U32) (h : a + n ≤ p) :
    setWord (patch m a n v) p i w = patch (setWord m p i w) a n v := by
  funext y
  unfold setWord store32
  by_cases hy : p + 4 * i ≤ y ∧ y < p + 4 * i + 4
  · rw [if_pos hy, patch_out (by unfold InRun; omega), if_pos hy]
  · rw [if_neg hy]
    unfold patch
    simp only [if_neg hy]

/-- `init_paging` takes no notice of what lies below the tables. -/
theorem initPaging_patch {m : Mem} {a n : Nat} {v : Nat → U8} (h : a + n ≤ kernelPdAddr) :
    initPaging (patch m a n v) = patch (initPaging m) a n v := by
  have hpt : a + n ≤ kernelPtAddr := h.trans (by decide)
  have hzero : ∀ m, forRange 0 4096 (fun i m => store8 m (kernelPdAddr + i) 0#8) (patch m a n v) =
      patch (forRange 0 4096 (fun i m => store8 m (kernelPdAddr + i) 0#8) m) a n v :=
    forRange_comm (g := fun m => patch m a n v) fun i m =>
      store8_patch_comm 0#8 (h.trans (Nat.le_add_right ..))
  have hwords : ∀ (w : Nat → U32) (p c : Nat), a + n ≤ p → ∀ m,
      forRange 0 c (fun i m => setWord m p i (w i)) (patch m a n v) =
        patch (forRange 0 c (fun i m => setWord m p i (w i)) m) a n v :=
    fun w p c hp => forRange_comm (g := fun m => patch m a n v) fun i m =>
      setWord_patch_comm (w i) hp
  unfold initPaging memzero
  simp only [hzero, hwords _ _ _ hpt, hwords _ _ _ h]

/-! ## A disk with a shell -/

theorem Image.WellFormed.mountable {im : Image} (hw : im.WellFormed)
    (hpart : mbrFindPartition im.disk = im.partLba) : Mountable im.disk := by
  have hlog := hw.blockSize
  have hsize : 0 < im.blockSize ∧ im.blockSize ≤ 4096 := by
    unfold Image.blockSize
    rcases (show im.logBlockSize = 0 ∨ im.logBlockSize = 1 ∨ im.logBlockSize = 2 by omega)
      with h | h | h <;> rw [h] <;> decide
  constructor
  · unfold superblock
    rw [hpart, im.super_load16 (by omega)]
    exact hw.magic
  · unfold superblock
    rw [hpart, hw.sbBlockSize]
    exact hsize.2
  · unfold superblock
    rw [hpart, BitVec.le_def, hw.sbBlockSize, hw.sbInodeSize]
    exact Nat.le_of_dvd hsize.1 hw.inodeSize_dvd

/-- The file `shell.elf`, inode 12, in the first block; the second is one free record. -/
def shellRecord : Nat → U8
  | 0 => 12#8
  | 5 => 4#8
  | 6 => 9#8
  | 7 => 1#8
  | 8 => 0x73#8
  | 9 => 0x68#8
  | 10 => 0x65#8
  | 11 => 0x6C#8
  | 12 => 0x6C#8
  | 13 => 0x2E#8
  | 14 => 0x65#8
  | 15 => 0x6C#8
  | 16 => 0x66#8
  | 1029 => 4#8
  | _ => 0#8

/-- Behind the directory, the program of one segment. -/
def shellBlocks (a : Nat) : U8 := if a < 2048 then shellRecord a else oneSegment.mem (a - 2048)

/-- The file: that program, and zeros up to 600. -/
def shellFile : FileImage where
  bytes := (List.range 600).map oneSegment.mem
  size_le := by rw [List.length_map, List.length_range]; exact Nat.le_of_ble_eq_true rfl

theorem shellFile_mem : shellFile.mem = oneSegment.mem := by
  funext k
  unfold FileImage.mem shellFile
  by_cases hk : k < 600
  · rw [List.getD_eq_getElem _ _ (by rw [List.length_map, List.length_range]; exact hk),
      List.getElem_map, List.getElem_range]
    rfl
  · rw [List.getD_eq_default _ _ (by rw [List.length_map, List.length_range]; omega)]
    exact (List.getD_eq_default _ _ (by show 84 ≤ k; omega)).symm

theorem shellFile_segment : shellFile.phnum = 1 ∧ shellFile.segment 0 = ⟨0, 0x40000000, 84, 5000⟩ ∧
    shellFile.phoff 0 = 52 := by
  unfold FileImage.phnum FileImage.segment FileImage.phoff
  rw [shellFile_mem]
  exact ⟨rfl, rfl, rfl⟩

theorem shellFile_complete : shellFile.Complete := by
  have hlen : shellFile.bytes.length = 600 := by
    unfold shellFile
    rw [List.length_map, List.length_range]
  obtain ⟨hnum, _, hoff⟩ := shellFile_segment
  refine ⟨by omega, by rw [shellFile_mem]; decide, fun i hi => ?_⟩
  rw [show i = 0 by omega, hoff]
  omega

theorem shellFile_fits {i : Nat} (hi : i < shellFile.phnum) :
    (shellFile.segment i).Fits shellFile.bytes.length := by
  obtain ⟨hnum, hseg, _⟩ := shellFile_segment
  rw [show i = 0 by omega, hseg]
  refine ⟨by decide, ?_, rfl, by decide⟩
  unfold shellFile
  rw [List.length_map, List.length_range]
  decide

theorem shellFile_above : AboveKernel shellFile := by
  obtain ⟨hnum, hseg, _⟩ := shellFile_segment
  intro i hi _ v hv
  simp only [show i = 0 by omega, hseg, Segment.pages, Finset.mem_Ico] at hv
  omega

theorem shellFile_frames : shellFile.framesTaken ≤ 8 := by
  obtain ⟨hnum, hseg, _⟩ := shellFile_segment
  have hcard : (shellFile.segment 0).looped.card = 2 := by
    rw [hseg, Segment.looped, Nat.card_Ico]
    rfl
  have hturns : shellFile.loopTurns shellFile.phnum ≤ 2 := by
    rw [hnum, loopTurns_succ, hcard, show shellFile.loopTurns 0 = 0 from Finset.sum_range_zero _]
    split <;> omega
  have hle := framesTaken_le shellFile
  exact hle.trans (by omega)

theorem shellFile_page : shellFile.finalPage 0x40000 =
    some ((shellFile.segment 0).byte shellFile 0x40000) := by
  obtain ⟨hnum, hseg, hoff⟩ := shellFile_segment
  have hload : shellFile.isLoad 0 = true := by
    unfold FileImage.isLoad
    rw [hoff, shellFile_mem]
    rfl
  have hpage : 0x40000 ∈ (shellFile.segment 0).looped := by
    rw [hseg, Segment.looped, Finset.mem_Ico]
    exact ⟨Nat.le_refl _, Nat.le_of_ble_eq_true rfl⟩
  unfold FileImage.finalPage
  rw [if_neg (by omega), hnum]
  exact if_pos ⟨hload, hpage⟩

section ShellDisk

variable {vol : Volume} (hv : RootVolume vol)

include hv

theorem RootVolume.shellByte {k j : Nat} (hk : k < 2) (hj : j < 1024) :
    vol.dirBlock (rootImage shellBlocks).disk
      (vol.inodeAt (rootImage shellBlocks).disk ext2RootInode) k j = shellRecord (k * 1024 + j) := by
  exact (hv.dirBlock hk hj).trans (if_pos (by omega))

/-- The one record of each block. -/
theorem RootVolume.shellWalk {k : Nat} (hk : k < 2) :
    let b := vol.dirBlock (rootImage shellBlocks).disk
      (vol.inodeAt (rootImage shellBlocks).disk ext2RootInode) k
    deRecLen b 0 = 1024 ∧ PepinOS.walk b vol.blockSize.toNat vol.blockSize.toNat = [0] := by
  have hrec : deRecLen (vol.dirBlock (rootImage shellBlocks).disk
      (vol.inodeAt (rootImage shellBlocks).disk ext2RootInode) k) 0 = 1024 := by
    unfold deRecLen load16
    rw [hv.shellByte hk (by omega), hv.shellByte hk (by omega)]
    rcases (show k = 0 ∨ k = 1 by omega) with rfl | rfl <;> rfl
  refine ⟨hrec, ?_⟩
  rw [hv.blockSize_toNat]
  exact walk_single (by omega) (by omega) hrec

/-- The first block names the shell. -/
theorem RootVolume.shellEntry :
    let b := vol.dirBlock (rootImage shellBlocks).disk
      (vol.inodeAt (rootImage shellBlocks).disk ext2RootInode) 0
    deInode b 0 = 12#32 ∧ (b (0 + 6)).toNat = 9 ∧ deName b 0 = textBytes "shell.elf" := by
  have hbyte : ∀ j, j < 1024 → vol.dirBlock (rootImage shellBlocks).disk
      (vol.inodeAt (rootImage shellBlocks).disk ext2RootInode) 0 j = shellRecord (0 * 1024 + j) :=
    fun j hj => hv.shellByte (by omega) hj
  generalize vol.dirBlock (rootImage shellBlocks).disk
    (vol.inodeAt (rootImage shellBlocks).disk ext2RootInode) 0 = b at hbyte
  have hlen : (b (0 + 6)).toNat = 9 := by
    rw [hbyte _ (by omega)]
    rfl
  refine ⟨?_, hlen, ?_⟩
  · unfold deInode load32
    rw [hbyte _ (by omega), hbyte _ (by omega), hbyte _ (by omega), hbyte _ (by omega)]
    rfl
  · unfold deName
    rw [hlen]
    refine (List.map_congr_left fun j hj => ?_).trans
      (rfl : (List.range 9).map (fun j => shellRecord (8 + j)) = _)
    rw [List.mem_range] at hj
    rw [hbyte _ (by omega), Nat.zero_mul, Nat.zero_add, Nat.zero_add]

/-- The second block has no entry. -/
theorem RootVolume.shellFree :
    deInode (vol.dirBlock (rootImage shellBlocks).disk
      (vol.inodeAt (rootImage shellBlocks).disk ext2RootInode) 1) 0 = 0#32 := by
  unfold deInode load32
  rw [hv.shellByte (by omega) (by omega), hv.shellByte (by omega) (by omega),
    hv.shellByte (by omega) (by omega), hv.shellByte (by omega) (by omega)]
  rfl

theorem RootVolume.shellDir : WellFormedDir (rootImage shellBlocks).disk vol
    (vol.inodeAt (rootImage shellBlocks).disk ext2RootInode) := by
  have hblocks : vol.dirBlocks (vol.inodeAt (rootImage shellBlocks).disk ext2RootInode) = 2 :=
    hv.dirBlocks
  have hentry : ∀ s k off, vol.HasEntry (rootImage shellBlocks).disk
      (vol.inodeAt (rootImage shellBlocks).disk ext2RootInode) s k off → k = 0 ∧ off = 0 := by
    rintro s k off ⟨hk, hoff, -⟩
    rw [hblocks] at hk
    obtain ⟨hmem, hlive⟩ := List.mem_filter.mp hoff
    rw [show walkFrom _ _ _ _ _ = _ from (hv.shellWalk hk).2, List.mem_singleton] at hmem
    subst hmem
    refine ⟨?_, rfl⟩
    rcases (show k = 0 ∨ k = 1 by omega) with rfl | rfl
    · rfl
    · exact absurd hv.shellFree (isLive_iff.mp hlive).2
  refine ⟨?_, ?_, ?_, ?_⟩
  · rw [hblocks, hv.blockSize_toNat]
    exact hv.rootSize_toNat
  · rw [hblocks]
    omega
  · intro k hk off hoff
    rw [hblocks] at hk
    rw [(hv.shellWalk hk).2, List.mem_singleton] at hoff
    subst hoff
    have hrec := (hv.shellWalk hk).1
    refine ⟨?_, ?_, fun hino => ?_⟩
    · exact (show (8 : Nat) ≤ 1024 by omega).trans_eq hrec.symm
    · rw [hv.blockSize_toNat]
      exact (Nat.zero_add _).trans_le hrec.le
    · rcases (show k = 0 ∨ k = 1 by omega) with rfl | rfl
      · rw [hrec, hv.shellEntry.2.1]
        omega
      · exact absurd hv.shellFree hino
  · intro s k off k' off' h h'
    obtain ⟨rfl, rfl⟩ := hentry s k off h
    obtain ⟨rfl, rfl⟩ := hentry s k' off' h'
    exact ⟨rfl, rfl⟩

theorem RootVolume.shellContent :
    vol.content (rootImage shellBlocks).disk 12#32 = shellFile.bytes := by
  have hlen : vol.fileLen (vol.inodeAt (rootImage shellBlocks).disk 12#32) = 600 := by
    unfold Volume.fileLen
    rw [hv.fileSize, hv.blockSize_toNat]
    exact Nat.min_eq_left (Nat.le_of_ble_eq_true rfl)
  have hbytes : shellFile.bytes = (List.range 600).map oneSegment.mem := by
    simp only [shellFile]
  rw [hbytes, Volume.content, hlen]
  refine List.map_congr_left fun off hoff => ?_
  rw [List.mem_range] at hoff
  unfold Volume.fileByte
  rw [hv.blockSize_toNat, show off / 1024 = 0 by omega, hv.fileBlock]
  have hbyte : vol.blockByte (rootImage shellBlocks).disk 12#32 (off % 1024) =
      shellBlocks (2 * 1024 + off % 1024) :=
    hv.blockByte rfl (by omega) (Nat.mod_lt _ (by omega))
  have hne : ¬(12#32 : U32) = 0#32 := by decide
  simp only [if_neg hne, hbyte]
  unfold shellBlocks
  rw [if_neg (by omega), show 2 * 1024 + off % 1024 - 2048 = off by omega]

theorem RootVolume.shellRoot : vol.rootFile (rootImage shellBlocks).disk (textBytes "shell.elf") =
    some shellFile := by
  have hblocks : vol.dirBlocks (vol.inodeAt (rootImage shellBlocks).disk ext2RootInode) = 2 :=
    hv.dirBlocks
  obtain ⟨hino, _, hname⟩ := hv.shellEntry
  have hk : 0 < 2 := by omega
  obtain ⟨hrec, hwalk⟩ := hv.shellWalk hk
  have hmem : 0 ∈ vol.dirEntries (rootImage shellBlocks).disk
      (vol.inodeAt (rootImage shellBlocks).disk ext2RootInode) 0 := by
    refine List.mem_filter.mpr ⟨?_, isLive_iff.mpr ⟨?_, ?_⟩⟩
    · rw [show walkFrom _ _ _ _ _ = _ from hwalk]
      exact List.mem_singleton_self 0
    · rw [show deRecLen _ 0 = _ from hrec]
      omega
    · rw [show deInode _ 0 = _ from hino]
      decide
  have hlook : vol.rootEntry (rootImage shellBlocks).disk (textBytes "shell.elf") = 12#32 := by
    unfold Volume.rootEntry
    simp only [hblocks]
    rw [if_neg (by omega)]
    refine (lookup_unique hmem hname fun o ho _ => ?_).trans hino
    have ho' := (List.mem_filter.mp ho).1
    rw [show walkFrom _ _ _ _ _ = _ from hwalk] at ho'
    exact List.mem_singleton.mp ho'
  refine rootFile_some ?_ ?_
  · rw [hlook]
    decide
  · rw [hlook, hv.shellContent]
    exact List.take_of_length_le shellFile.size_le

end ShellDisk

/-- The disk boots as the image says. -/
theorem shellDisk_boot : ∃ e : Ext2, ext2Boot (rootImage shellBlocks).disk = .ok e ∧
    Mountable (rootImage shellBlocks).disk ∧ RootVolume e.vol := by
  have hpart : mbrFindPartition (rootImage shellBlocks).disk = 0#32 := by
    unfold mbrFindPartition
    exact if_pos (.inl (by decide))
  obtain ⟨e, he, _, hv⟩ := rootImage_mounted shellBlocks
  refine ⟨e, ?_, (rootImage_wellFormed shellBlocks).mountable hpart, hv⟩
  unfold ext2Boot
  rw [hpart]
  exact he

/-! ## The boot -/

section Boot

variable {k : KernelImage} {disk : Disk} {e : Ext2}

/-- Up to the shell nothing in `kmain` fails; what the greeting leaves in memory makes no
difference to the tasks. -/
theorem kmain_launches (hm : Mountable disk) (hboot : ext2Boot disk = .ok e)
    (hd : WellFormedDir disk e.vol (e.vol.inodeAt disk ext2RootInode)) (m : Mem)
    (pool : Fin 8 → Task) (nodes : NodePool) (kb : Keyboard) (scr : Screen) (r : Regs) :
    ∃ e' m1 s0, e'.vol = e.vol ∧
      launchTasks k.userTask k.userTaskB (freshLoader m1 0x2000000#32 pool) = some s0 ∧
      kmain k disk m pool nodes kb scr r =
        (elfExec k.elfBuf (e.vol.rootFile disk (textBytes "shell.elf")) s0).map fun s =>
          schedEnter (bootKernel s.sched nodes kb scr) e' s.mem r := by
  have hv := hm.sound hboot
  obtain ⟨e1, inode, hdir⟩ := hv.readable.readDir disk ext2RootInode
  obtain ⟨names, hls⟩ : ∃ names, ext2Ls disk k.behind e ext2RootInode = .ok (e1, names) := by
    unfold ext2Ls
    rw [hdir]
    exact ⟨_, rfl⟩
  have hvol1 := ext2ReadDir_vol hdir
  obtain ⟨e2, v, hvol2, hshow⟩ := showGreeting_patch (k := k) (e := e1) (hvol1 ▸ hv) (hvol1 ▸ hd)
    (initPaging (initIdt k.entry k.kidt (initGdt k.ktss m)))
  have hvol := hvol2.trans hvol1
  generalize hm1 : patch (initIdt k.entry k.kidt (initGdt k.ktss m)) k.content.toNat 128 v = m1
  have hfresh : { freshLoader (initIdt k.entry k.kidt (initGdt k.ktss m)) 0x2000000#32 pool with
      mem := patch (initPaging (initIdt k.entry k.kidt (initGdt k.ktss m))) k.content.toNat 128 v } =
      freshLoader m1 0x2000000#32 pool := by
    unfold freshLoader
    rw [← hm1, initPaging_patch k.content_below]
  obtain ⟨s0, hlaunch⟩ := @launchTasks_some k.userTask k.userTaskB _
    (freshLoader_ntasks m1 0x2000000#32 pool)
  obtain ⟨e3, hvol3, hexec⟩ : ∃ e', e'.vol = e2.vol ∧
      elfExecName k.elfBuf k.behind disk (textBytes "shell.elf") e2 s0 =
        (elfExec k.elfBuf (e2.vol.rootFile disk (textBytes "shell.elf")) s0).map fun s => (e', s) :=
    elfExecName_eq k.elfBuf k.behind (hvol ▸ hv) (hvol ▸ hd) (by decide) (by decide) s0
  refine ⟨e3, m1, s0, hvol3.trans hvol, hlaunch, ?_⟩
  unfold kmain
  rw [hboot, ← hvol]
  simp only [Except.toOption, Option.bind_eq_bind, Option.bind_some, hls, freshLoader_mem, hshow,
    hfresh, hlaunch, hexec, Option.bind_map]
  exact (Option.map_eq_bind ..).symm

/-- The buffer still has the file when the task is registered, so the task starts where
the file says. -/
theorem elfExec_entry {b : ElfBuf} {f : FileImage} {s s' : Loader} (hf : f.Complete)
    (hseg : ∀ i, i < f.phnum → f.isLoad i = true → (f.segment i).Fits f.bytes.length)
    (hpmm : PmmInv s.pmm) (hres : Reserved s.pmm) (hk : KernelDir s.mem)
    (hfree : f.framesTaken ≤ (lowFree s.pmm).card) (hrun : elfExec b (some f) s = some s') :
    ∃ pdPhys kstackTop, schedAddTask s.sched (load32 f.mem 24) 0x23#32 0x202#32
      (userStackVirt + 0xFF0#32) 0x33#32 pdPhys kstackTop = some s'.sched := by
  obtain ⟨pdPhys, s3, sp3, hexec, h3⟩ := elfExec_painted b hf hseg hpmm hres hk hfree
  have hentry : eEntry b s3.mem = load32 f.mem 24 := by
    have hsize := hf.size
    exact inBuffer_load32 (h3.inv.inBuffer (readFile_inBuffer b f s)) (by omega)
  have hsched : s3.sched = s.sched := h3.inv.sched
  rw [hexec] at hrun
  simp only [loadTask, hentry, hsched, Option.bind_eq_bind, Option.bind_eq_some_iff] at hrun
  obtain ⟨sched, hadd, hrun⟩ := hrun
  cases hrun
  exact ⟨_, _, hadd⟩

/-- **From the disk to the first program.** On a mountable disk whose root directory is well
formed, `kmain` gets to ring 3 in a booted machine. With no `shell.elf` the loader would
take there are the two demo tasks; with one that is complete, fits and has no page below
16 MB there is a third, which starts at the file's entry point, and through its directory the
processor finds in each page what the file has for it. A file with a page below 16 MB would
take memory away from the loader and the kernel themselves (see `Fs.Elf`). -/
theorem kmain_boots (hm : Mountable disk) (hboot : ext2Boot disk = .ok e)
    (hd : WellFormedDir disk e.vol (e.vol.inodeAt disk ext2RootInode)) (m : Mem)
    (pool : Fin 8 → Task) (nodes : NodePool) (kb : Keyboard) (scr : Screen) {r : Regs}
    (hfl : iopl r.eflags = 0#32) :
    ((∀ f, e.vol.rootFile disk (textBytes "shell.elf") = some f → ¬f.Passes) →
      ∃ m', kmain k disk m pool nodes kb scr r = some m' ∧ Booted m' ∧ m'.ext2.vol = e.vol ∧
        m'.kern.sched.ntasks = 2) ∧
    ∀ f, e.vol.rootFile disk (textBytes "shell.elf") = some f → f.Complete → AboveKernel f →
      (∀ i, i < f.phnum → f.isLoad i = true → (f.segment i).Fits f.bytes.length) →
      f.framesTaken ≤ 3072 →
      ∃ m' t, kmain k disk m pool nodes kb scr r = some m' ∧ Booted m' ∧ m'.ext2.vol = e.vol ∧
        m'.kern.sched.ntasks = 3 ∧ m'.kern.sched.pool 2 = t ∧
        t = newTask (load32 f.mem 24) 0x23#32 0x202#32 (userStackVirt + 0xFF0#32) 0x33#32 t.cr3
          t.kstackTop ∧
        (∀ (a : U32) d, f.finalPage (a.toNat / 4096) = some d →
          byteAt m'.mem t.cr3 a = some (d (a.toNat % 4096))) ∧
        ∀ a : U32, 4096 ≤ a.toNat / 4096 → f.finalPage (a.toNat / 4096) = none →
          byteAt m'.mem t.cr3 a = none := by
  obtain ⟨e', m1, s0, hvol, hlaunch, hkmain⟩ :=
    kmain_launches (k := k) hm hboot hd m pool nodes kb scr r
  obtain ⟨hready, hpmm0, hn0, _⟩ := launchTasks_ready (freshLoader_ready m1 0x2000000#32 pool)
    (freshLoader_ntasks m1 0x2000000#32 pool) hlaunch
  have hbooted : ∀ file s, elfExec k.elfBuf file s0 = some s →
      Booted (schedEnter (bootKernel s.sched nodes kb scr) e' s.mem r) :=
    fun file s hexec => .boot hlaunch (.step .start hexec) hfl
  rw [hkmain]
  constructor
  · intro hno
    obtain ⟨s', hexec, hn⟩ : ∃ s', elfExec k.elfBuf (e.vol.rootFile disk (textBytes "shell.elf")) s0 =
        some s' ∧ s'.sched.ntasks = 2 := by
      cases hfile : e.vol.rootFile disk (textBytes "shell.elf") with
      | none => exact ⟨s0, rfl, hn0⟩
      | some f =>
        obtain ⟨s', hexec, _, hsched⟩ := rejected_iff.mpr (hno f hfile)
        exact ⟨s', hexec, by rw [hsched]; exact hn0⟩
    rw [hexec]
    exact ⟨_, rfl, hbooted _ _ hexec, hvol, hn⟩
  · intro f hfile hf _ hseg hfits
    have hn : s0.sched.ntasks < maxTasks := by
      rw [hn0]
      exact Nat.lt_of_sub_pos (Nat.zero_lt_succ 5)
    have hfree : f.framesTaken ≤ (lowFree s0.pmm).card := by
      rw [hpmm0, freshLoader_pmm, lowFree_pmmInit]
      exact hfits
    obtain ⟨s', t, hexec, hn', ht, hpages, hblank⟩ := elfExec_overlay k.elfBuf hf hseg hready.pmm
      hready.reserved hready.kernel hn hfree
    obtain ⟨pdPhys, kstackTop, hadd⟩ := elfExec_entry hf hseg hready.pmm hready.reserved hready.kernel
      hfree hexec
    obtain ⟨_, _, hpool⟩ := schedAddTask_cases hadd
    have hslot : (⟨s0.sched.ntasks, hn⟩ : Fin 8) = 2 := Fin.ext hn0
    rw [hpool, Function.update_self] at ht
    rw [hfile, hexec]
    refine ⟨_, t, rfl, hbooted _ _ hexec, hvol, hn'.trans (by rw [hn0]), ?_, ?_, hpages, hblank⟩
    · show s'.sched.pool 2 = t
      rw [← hslot, hpool, Function.update_self]
      exact ht
    · rw [← ht]
      rfl

/-- With that disk the third task finds the first byte of the file at `0x40000000`. -/
theorem kmain_boots_shell : ∃ k disk m nodes kb scr m' t,
    kmain k disk m (fun _ => newTask 0 0 0 0 0 0 0) nodes kb scr zeroRegs = some m' ∧ Booted m' ∧
      m'.kern.sched.ntasks = 3 ∧ m'.kern.sched.pool 2 = t ∧
      t = newTask 0x40000034#32 0x23#32 0x202#32 (userStackVirt + 0xFF0#32) 0x33#32 t.cr3
        t.kstackTop ∧
      byteAt m'.mem t.cr3 0x40000000#32 = some 0x7F#8 := by
  obtain ⟨e, hboot, hm, hv⟩ := shellDisk_boot
  obtain ⟨m', t, hrun, hbooted, _, hn, hpool, ht, hpages, _⟩ :=
    (kmain_boots (k := lowImage) hm hboot hv.shellDir (fun _ => 0#8) (fun _ => newTask 0 0 0 0 0 0 0)
      (fun _ => ⟨fun _ => 0#8, 0#32, 0#32, 0#32, none, false⟩) ⟨fun _ => 0#8, 0, 0, false⟩
      ⟨0#8, 0#8, 0#8, fun _ => 0#8⟩ (by decide : iopl zeroRegs.eflags = 0#32)).2 shellFile hv.shellRoot
      shellFile_complete shellFile_above (fun i hi _ => shellFile_fits hi) (shellFile_frames.trans (by omega))
  have hentry : load32 shellFile.mem 24 = 0x40000034#32 := by
    rw [shellFile_mem]
    rfl
  have hfirst : (shellFile.segment 0).byte shellFile 0x40000 0 = 0x7F#8 := by
    unfold Segment.byte
    rw [shellFile_segment.2.1, shellFile_mem]
    rfl
  rw [hentry] at ht
  refine ⟨_, _, _, _, _, _, m', t, hrun, hbooted, hn, hpool, ht, ?_⟩
  rw [hpages 0x40000000#32 _ shellFile_page]
  exact congrArg some hfirst

end Boot

end PepinOS
