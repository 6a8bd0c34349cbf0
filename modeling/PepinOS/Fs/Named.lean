import PepinOS.Fs.Elf
import PepinOS.Fs.Lookup
import PepinOS.Fs.Positioned
import Mathlib.Data.List.GetD

/-!
# Programs by name

`elf_exec` takes a name. It looks it up in the root directory, reads the file into `elf_buf`
and loads what is there. `ext2ReadFile_content` says what a whole read leaves in the kernel's
memory, `Volume.rootFile` what file a name stands for on the disk, and `elfExecName_eq` that
`elf_exec` of the name is `elfExec` on that file.
-/

namespace PepinOS

/-- A string literal of the kernel, at 0. -/
def literalAt (s : List U8) (va : U32) : Except Trap U8 := .ok (s.getD va.toNat 0#8)

/-- A store of the kernel below the end of its identity map. -/
def kernelStore (m : Mem) (a : U32) (b : U8) : Except Trap Mem := .ok (store8 m a.toNat b)

/-- `elf_exec`. -/
def elfExecName (b : ElfBuf) (behind : Ext2 → Nat → U8) (disk : Disk) (name : List U8)
    (e : Ext2) (s : Loader) : Option (Ext2 × Loader) := do
  let (e, ino) ← (ext2Find disk behind (fun _ => literalAt name) e ext2RootInode 0#32).toOption
  if ino = 0#32 then return (e, s)
  let (e, mem, size) ← (ext2ReadFile disk kernelStore e s.mem ino b.addr
    (BitVec.ofNat 32 maxElfSize)).toOption
  let s := { s with mem := mem }
  if size < 52#32 then return (e, s)
  if !elfMagic b s.mem then return (e, s)
  let (pdPhys, s) ← procAllocPd s
  let s ← loadProgram b pdPhys s
  return (e, s)

/-! ## Reading a file -/

theorem literalAt_string {s : List U8} (h0 : 0#8 ∉ s) (hlen : s.length < 2 ^ 32) :
    StringAt (literalAt s) s 0#32 := by
  have key : ∀ t pre : List U8, pre ++ t = s →
      StringAt (literalAt s) t (BitVec.ofNat 32 pre.length) := by
    intro t
    induction t with
    | nil =>
      intro pre hpre
      rw [List.append_nil] at hpre
      show literalAt s (BitVec.ofNat 32 pre.length) = .ok 0#8
      unfold literalAt
      rw [hpre, BitVec.toNat_ofNat, Nat.mod_eq_of_lt hlen, List.getD_eq_default _ _ (Nat.le_refl _)]
    | cons c t ih =>
      intro pre hpre
      have hlt : pre.length < s.length := by
        rw [← hpre, List.length_append, List.length_cons]
        omega
      refine ⟨?_, ?_, ?_⟩
      · rintro rfl
        exact h0 (hpre ▸ List.mem_append_right _ List.mem_cons_self)
      · unfold literalAt
        rw [BitVec.toNat_ofNat, Nat.mod_eq_of_lt (by omega), ← hpre,
          List.getD_append_right _ _ _ _ (Nat.le_refl _), Nat.sub_self]
        rfl
      · have hnext := ih (pre ++ [c]) (by rw [List.append_assoc]; exact hpre)
        rw [List.length_append, List.length_singleton, BitVec.ofNat_add] at hnext
        exact hnext
  exact key s [] rfl

/-- One more byte. -/
theorem store8_patch (m : Mem) {a : Nat} (bytes : List U8) (b : U8) :
    store8 (patch m a bytes.length fun k => bytes.getD k 0#8) (a + bytes.length) b =
      patch m a (bytes ++ [b]).length fun k => (bytes ++ [b]).getD k 0#8 := by
  funext x
  unfold store8
  rw [List.length_append, List.length_singleton]
  by_cases hx : x = a + bytes.length
  · rw [hx, Function.update_self, patch_at (Nat.lt_succ_self _),
      List.getD_append_right _ _ _ _ (Nat.le_refl _), Nat.sub_self]
    rfl
  · rw [Function.update_of_ne hx]
    by_cases hin : InRun a bytes.length x
    · rw [patch_in hin, patch_in ⟨hin.1, by unfold InRun at hin; omega⟩,
        List.getD_append _ _ _ _ (by unfold InRun at hin; omega)]
    · rw [patch_out hin, patch_out (by unfold InRun at hin ⊢; omega)]

/-- **Reading a whole file into the kernel's memory**: as much of the content as the buffer
takes, and no other byte. -/
theorem ext2ReadFile_content (disk : Disk) {e : Ext2} (hv : e.vol.Sound) (m : Mem)
    (inum : U32) {buf maxSize : U32} (hbuf : buf.toNat + maxSize.toNat ≤ 2 ^ 32) :
    ∃ e', e'.vol = e.vol ∧ ext2ReadFile disk kernelStore e m inum buf maxSize = .ok (e',
      patch m buf.toNat ((e.vol.content disk inum).take maxSize.toNat).length
        (fun k => ((e.vol.content disk inum).take maxSize.toNat).getD k 0#8),
      BitVec.ofNat 32 ((e.vol.content disk inum).take maxSize.toNat).length) := by
  obtain ⟨e1, inode, hread⟩ := hv.readable.readInode disk inum
  have hvol := ext2ReadInode_vol hread
  have hbyte : ∀ k, k < 128 → inode k = e.vol.inodeAt disk inum k :=
    fun k hk => ext2ReadInode_byte hv hread hk
  have hsize : (if inode.iSize < maxSize then inode.iSize else maxSize).toNat =
      min inode.iSize.toNat maxSize.toNat := by
    split
    next hlt =>
      have hlt' : inode.iSize.toNat < maxSize.toNat := hlt
      omega
    next hge =>
      have hge' : ¬inode.iSize.toNat < maxSize.toNat := hge
      omega
  -- every store is to the byte after those stored so far
  have hstore : ∀ (c : Copied Mem) (b : U8),
      c.port = patch m buf.toNat c.bytes.length (fun k => c.bytes.getD k 0#8) →
      c.bytes.length < min inode.iSize.toNat maxSize.toNat →
      ∃ port, kernelStore c.port (buf + BitVec.ofNat 32 c.bytes.length) b = .ok port ∧
        port = patch m buf.toNat (c.bytes ++ [b]).length fun k => (c.bytes ++ [b]).getD k 0#8 := by
    intro c b hport hlt
    refine ⟨_, rfl, ?_⟩
    rw [hport, BitVec.toNat_add, BitVec.toNat_ofNat,
      Nat.mod_eq_of_lt (by omega : c.bytes.length < 2 ^ 32), Nat.mod_eq_of_lt (by omega)]
    exact store8_patch m c.bytes b
  have hempty : m = patch m buf.toNat 0 fun k => ([] : List U8).getD k 0#8 := by
    funext x
    exact (patch_out (by unfold InRun; omega)).symm
  obtain ⟨e2, c, hloop, hvol2, hport⟩ := preadLoop_total disk inode hstore 12 0 0 e1 ⟨m, []⟩
    (hvol ▸ hv.readable) hempty
  have hbytes := preadLoop_bytes (by rw [hvol]; exact hv.whole) (Nat.zero_le _) hloop
  have hcontent : c.bytes = (e.vol.content disk inum).take maxSize.toNat := by
    unfold Volume.content
    rw [hbytes, hvol, List.nil_append, List.length_nil, Nat.zero_mul, Nat.sub_zero, Nat.sub_zero,
      List.range_eq_range', ← List.map_take, take_range']
    unfold Volume.fileLen
    rw [← iSize_congr hbyte,
      show min (12 * e.vol.blockSize.toNat) (min inode.iSize.toNat maxSize.toNat) =
      min maxSize.toNat (min inode.iSize.toNat (12 * e.vol.blockSize.toNat)) by omega]
    refine List.map_congr_left fun off hoff => fileByte_congr hbyte ?_
    rw [List.mem_range'_1] at hoff
    omega
  refine ⟨e2, hvol2.trans hvol, ?_⟩
  rw [ext2ReadFile_loop, hread, ok_bind, hsize]
  simp only [hloop, Except.map, hport, hcontent]

/-! ## Programs by name -/

section

variable (disk : Disk) (vol : Volume) (name : List U8)

/-- The inode the first block of the root directory has for a name, 0 for none. -/
def Volume.rootEntry : U32 :=
  let dir := vol.inodeAt disk ext2RootInode
  if vol.dirBlocks dir = 0 then 0#32
  else lookup (vol.dirBlock disk dir 0) name (vol.dirEntries disk dir 0)

/-- The file with this name, as far as `elf_buf` takes it. -/
def Volume.rootFile : Option FileImage :=
  if vol.rootEntry disk name = 0#32 then none
  else some ⟨(vol.content disk (vol.rootEntry disk name)).take maxElfSize, List.length_take_le ..⟩

end

theorem rootFile_some {disk : Disk} {vol : Volume} {name : List U8} {f : FileImage}
    (hino : vol.rootEntry disk name ≠ 0#32)
    (hbytes : (vol.content disk (vol.rootEntry disk name)).take maxElfSize = f.bytes) :
    vol.rootFile disk name = some f := by
  unfold Volume.rootFile
  rw [if_neg hino]
  cases f
  subst hbytes
  rfl

section Named

variable (b : ElfBuf) (behind : Ext2 → Nat → U8) {disk : Disk} {e : Ext2} {name : List U8}

theorem ext2Find_root (hv : e.vol.Sound)
    (hd : WellFormedDir disk e.vol (e.vol.inodeAt disk ext2RootInode))
    (h0 : 0#8 ∉ name) (hlen : name.length < 2 ^ 32) :
    ∃ e', e'.vol = e.vol ∧ ext2Find disk behind (fun _ => literalAt name) e ext2RootInode 0#32 =
      .ok (e', e.vol.rootEntry disk name) := by
  obtain ⟨e', hfind⟩ := @ext2Find_first disk behind (fun _ => literalAt name) e ext2RootInode 0#32
    name hv hd fun _ => literalAt_string h0 hlen
  exact ⟨e', ext2Find_vol hfind, hfind⟩

/-- **`elf_exec` of a name** is the load of the file that has it. -/
theorem elfExecName_eq (hv : e.vol.Sound)
    (hd : WellFormedDir disk e.vol (e.vol.inodeAt disk ext2RootInode)) (h0 : 0#8 ∉ name)
    (hlen : name.length < 2 ^ 32) (s : Loader) :
    ∃ e', e'.vol = e.vol ∧ elfExecName b behind disk name e s =
      (elfExec b (e.vol.rootFile disk name) s).map fun s => (e', s) := by
  obtain ⟨e1, hvol1, hfind⟩ := ext2Find_root behind hv hd h0 hlen
  unfold Volume.rootFile
  by_cases hino : e.vol.rootEntry disk name = 0#32
  · refine ⟨e1, hvol1, ?_⟩
    rw [if_pos hino]
    simp [elfExecName, hfind, Except.toOption, hino, elfExec]
  · have hbelow := b.below
    unfold kernelPdAddr at hbelow
    have hroom : b.addr.toNat + (BitVec.ofNat 32 maxElfSize : U32).toNat ≤ 2 ^ 32 := by
      rw [BitVec.toNat_ofNat, Nat.mod_eq_of_lt (by decide)]
      omega
    obtain ⟨e2, hvol2, hread⟩ := ext2ReadFile_content disk (hvol1 ▸ hv) s.mem
      (e.vol.rootEntry disk name) hroom
    refine ⟨e2, hvol2.trans hvol1, ?_⟩
    rw [if_neg hino]
    rw [hvol1, BitVec.toNat_ofNat, Nat.mod_eq_of_lt (by decide)] at hread
    have hsize := List.length_take_le maxElfSize (e.vol.content disk (e.vol.rootEntry disk name))
    generalize hf : (⟨(e.vol.content disk (e.vol.rootEntry disk name)).take maxElfSize, hsize⟩ :
      FileImage) = f
    have hbytes : (e.vol.content disk (e.vol.rootEntry disk name)).take maxElfSize = f.bytes :=
      congrArg FileImage.bytes hf
    rw [hbytes] at hread hsize
    have hshort : BitVec.ofNat 32 f.bytes.length < 52#32 ↔ f.bytes.length < 52 := by
      unfold maxElfSize at hsize
      rw [BitVec.lt_def, BitVec.toNat_ofNat, Nat.mod_eq_of_lt (by omega)]
      rfl
    show elfExecName b behind disk name e s = (elfExec b (some f) s).map _
    simp only [elfExecName, hfind, hread, Except.toOption, elfExec, Option.bind_eq_bind,
      Option.bind_some, if_neg hino, hshort]
    show (if f.bytes.length < 52 then some (e2, readFile b f s)
      else if (!elfMagic b (readFile b f s).mem) = true then
        some (e2, readFile b f s)
      else (procAllocPd (readFile b f s)).bind fun a =>
        (loadProgram b a.1 a.2).bind fun s => some (e2, s)) = _
    split
    next => rfl
    next =>
      split
      next => rfl
      next =>
        rw [Option.map_bind]
        refine congrArg _ (funext fun a => ?_)
        exact (Option.map_eq_bind ..).symm

end Named

end PepinOS
