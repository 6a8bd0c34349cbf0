import PepinOS.Lib.TraceSpec
import PepinOS.Fs.LoadRun

/-!
# What the loader reads of `elf_buf`

`elf_exec` once more, with every byte it reads through `elf_buf` noted by its index. The
program headers are read at `elf_buf + e_phoff + i * e_phentsize`, the bytes of a segment at
`elf_buf + src_off + j`; both sums wrap, and the index is the distance from `elf_buf`
modulo 2³². Without the notes it is the loader (`elfExecR_result`).
-/

namespace PepinOS

open Traced

/-- The index in `elf_buf` of the byte at `a`. -/
def bufIndex (b : ElfBuf) (a : U32) : Nat := (a - b.addr).toNat

/-- A word at `a`. -/
def bufLoad32 (b : ElfBuf) (m : Mem) (a : U32) : Traced Nat Unit U32 := do
  touch ((List.range 4).map fun k => bufIndex b (a + BitVec.ofNat 32 k))
  lift (faulting (kload32 m a))

def bufLoad8 (b : ElfBuf) (m : Mem) (a : U32) : Traced Nat Unit U8 := do
  touch [bufIndex b a]
  lift (faulting (kload8 m a))

/-! ## The header of the file

It starts at index 0. -/

/-- Field at index `k`, of `n` bytes. -/
def field (k n : Nat) : Traced Nat Unit Unit := touch ((List.range n).map (k + ·))

def elfMagicR (b : ElfBuf) (m : Mem) : Traced Nat Unit Bool := do
  field 0 1
  if m b.addr.toNat != 0x7F#8 then return false
  field 1 1
  if m (b.addr.toNat + 1) != 0x45#8 then return false
  field 2 1
  if m (b.addr.toNat + 2) != 0x4C#8 then return false
  field 3 1
  return m (b.addr.toNat + 3) == 0x46#8

def ePhnumR (b : ElfBuf) (m : Mem) : Traced Nat Unit U16 := do
  field 44 2
  return ePhnum b m

def phAddrR (b : ElfBuf) (m : Mem) (i : Nat) : Traced Nat Unit U32 := do
  field 28 4
  field 42 2
  return phAddr b m i

def eEntryR (b : ElfBuf) (m : Mem) : Traced Nat Unit U32 := do
  field 24 4
  return eEntry b m

/-! ## Segments -/

def copyFileR (b : ElfBuf) (frame srcOff : U32) (bytes : Nat) (m : Mem) : Traced Nat Unit Mem :=
  forRangeT 0 bytes (fun j m => do
    let v ← bufLoad8 b m (b.addr + (srcOff + BitVec.ofNat 32 j))
    return store8 m (frame.toNat + j) v) m

def fillPageR (b : ElfBuf) (ph vaddr frame : U32) (m : Mem) : Traced Nat Unit Mem := do
  let pv ← bufLoad32 b m (ph + 8#32)
  let pf ← bufLoad32 b m (ph + 16#32)
  if vaddr < pv + pf then
    let po ← bufLoad32 b m (ph + 4#32)
    let srcOff := po + (vaddr - pv)
    let avail := po + pf - srcOff
    let bytes := if 4096#32 > avail then avail else 4096#32
    copyFileR b frame srcOff bytes.toNat m
  else return m

def loadPageR (b : ElfBuf) (pdPhys ph vaddr : U32) (s : Loader) : Traced Nat Unit Loader :=
  let (frame, pmm) := pmmAllocPage s.pmm
  if pageMapped frame then do
    let mem ← fillPageR b ph vaddr frame (memzero s.mem frame.toNat 4096)
    lift (faulting (procMapPage pdPhys vaddr frame elfFlags { s with mem := mem, pmm := pmm }))
  else lift (faulting none)

def loadSegmentR (b : ElfBuf) (pdPhys ph : U32) (s : Loader) : Traced Nat Unit Loader := do
  let pv ← bufLoad32 b s.mem (ph + 8#32)
  let pm ← bufLoad32 b s.mem (ph + 20#32)
  let vbase := pv &&& ~~~0xFFF#32
  let vend := (pv + pm + 0xFFF#32) &&& ~~~0xFFF#32
  forRangeT (vbase.toNat / 4096) (vend.toNat / 4096)
    (fun n s => loadPageR b pdPhys ph (BitVec.ofNat 32 (n * 4096)) s) s

def loadHeaderR (b : ElfBuf) (pdPhys : U32) (i : Nat) (s : Loader) : Traced Nat Unit Loader := do
  let ph ← phAddrR b s.mem i
  let ty ← bufLoad32 b s.mem ph
  if ty != ptLoad then return s else loadSegmentR b pdPhys ph s

def loadTaskR (b : ElfBuf) (pdPhys : U32) (s : Loader) : Traced Nat Unit Loader := do
  let entry ← eEntryR b s.mem
  let (kstackPhys, pmm) := pmmAllocPage s.pmm
  let sched ← lift (faulting (schedAddTask s.sched entry 0x23#32 0x202#32
    (userStackVirt + 0xFF0#32) 0x33#32 pdPhys (kstackPhys + 4096#32)))
  return { s with pmm := pmm, sched := sched }

def loadProgramR (b : ElfBuf) (pdPhys : U32) (s : Loader) : Traced Nat Unit Loader := do
  let phnum ← ePhnumR b s.mem
  let s ← forRangeT 0 phnum.toNat (loadHeaderR b pdPhys) s
  let s ← lift (faulting (loadStack pdPhys s))
  loadTaskR b pdPhys s

def elfExecR (b : ElfBuf) (file : Option FileImage) (s : Loader) : Traced Nat Unit Loader :=
  match file with
  | none => return s
  | some file =>
    let s := readFile b file s
    if file.bytes.length < 52 then return s
    else do
      let magic ← elfMagicR b s.mem
      if !magic then return s
      else
        let (pdPhys, s) ← lift (faulting (procAllocPd s))
        loadProgramR b pdPhys s

/-! ## Without the notes -/

@[simp] theorem bufLoad32_result (b : ElfBuf) (m : Mem) (a : U32) :
    (bufLoad32 b m a).result = faulting (kload32 m a) := rfl

@[simp] theorem bufLoad8_result (b : ElfBuf) (m : Mem) (a : U32) :
    (bufLoad8 b m a).result = faulting (kload8 m a) := rfl

theorem elfMagicR_result (b : ElfBuf) (m : Mem) : (elfMagicR b m).result = .ok (elfMagic b m) := by
  unfold elfMagicR elfMagic bne
  cases m b.addr.toNat == 0x7F#8 with
  | false => rfl
  | true =>
    cases m (b.addr.toNat + 1) == 0x45#8 with
    | false => rfl
    | true =>
      cases m (b.addr.toNat + 2) == 0x4C#8 with
      | false => rfl
      | true => rfl

theorem copyFileR_result (b : ElfBuf) (frame srcOff : U32) (bytes : Nat) (m : Mem) :
    (copyFileR b frame srcOff bytes m).result = faulting (copyFile b frame srcOff bytes m) := by
  refine forRangeT_result (fun j m => ?_) 0 bytes m
  rw [Option.bind_eq_bind, faulting_bind, result_bind]
  rfl

theorem fillPageR_result (b : ElfBuf) (ph vaddr frame : U32) (m : Mem) :
    (fillPageR b ph vaddr frame m).result = faulting (fillPage b ph vaddr frame m) := by
  unfold fillPageR fillPage pVaddr pFilesz pOffset
  simp only [Option.bind_eq_bind, faulting_bind, result_bind, bufLoad32_result]
  refine bind_congr_ok fun pv _ => bind_congr_ok fun pf _ => ?_
  split
  next =>
    simp only [faulting_bind, result_bind, bufLoad32_result, copyFileR_result]
  next => rfl

theorem loadPageR_result (b : ElfBuf) (pdPhys ph vaddr : U32) (s : Loader) :
    (loadPageR b pdPhys ph vaddr s).result = faulting (loadPage b pdPhys ph vaddr s) := by
  unfold loadPageR loadPage
  simp only
  split
  next =>
    simp only [Option.bind_eq_bind, faulting_bind, result_bind, fillPageR_result, result_lift]
  next => rfl

theorem loadSegmentR_result (b : ElfBuf) (pdPhys ph : U32) (s : Loader) :
    (loadSegmentR b pdPhys ph s).result = faulting (loadSegment b pdPhys ph s) := by
  unfold loadSegmentR loadSegment pVaddr pMemsz
  simp only [Option.bind_eq_bind, faulting_bind, result_bind, bufLoad32_result]
  refine bind_congr_ok fun pv _ => bind_congr_ok fun pm _ => ?_
  exact forRangeT_result (fun n t => loadPageR_result ..) _ _ s

theorem loadHeaderR_result (b : ElfBuf) (pdPhys : U32) (i : Nat) (s : Loader) :
    (loadHeaderR b pdPhys i s).result = faulting (loadHeader b pdPhys i s) := by
  unfold loadHeaderR loadHeader pType
  have hph : (phAddrR b s.mem i).result = .ok (phAddr b s.mem i) := rfl
  simp only [Option.bind_eq_bind, faulting_bind, result_bind, bufLoad32_result, hph, ok_bind]
  refine bind_congr_ok fun ty _ => ?_
  split
  next => rfl
  next => exact loadSegmentR_result ..

theorem loadProgramR_result (b : ElfBuf) (pdPhys : U32) (s : Loader) :
    (loadProgramR b pdPhys s).result = faulting (loadProgram b pdPhys s) := by
  unfold loadProgramR loadProgram
  have hnum : (ePhnumR b s.mem).result = .ok (ePhnum b s.mem) := rfl
  simp only [Option.bind_eq_bind, faulting_bind, result_bind, hnum, ok_bind,
    forRangeT_result (loadHeaderR_result b pdPhys), result_lift]
  refine bind_congr_ok fun s1 _ => bind_congr_ok fun s2 _ => ?_
  unfold loadTaskR loadTask
  have hentry : (eEntryR b s2.mem).result = .ok (eEntry b s2.mem) := rfl
  simp only [Option.bind_eq_bind, faulting_bind, result_bind, hentry, ok_bind, result_lift]
  rfl

/-- It is the loader. -/
theorem elfExecR_result (b : ElfBuf) (file : Option FileImage) (s : Loader) :
    (elfExecR b file s).result = faulting (elfExec b file s) := by
  cases file with
  | none => rfl
  | some f =>
    unfold elfExecR elfExec
    simp only
    split
    next => rfl
    next =>
      simp only [result_bind, elfMagicR_result, ok_bind]
      split
      next => rfl
      next =>
        simp only [result_bind, faulting_bind, result_lift]
        exact bind_congr_ok fun r _ => loadProgramR_result b r.1 r.2

end PepinOS
