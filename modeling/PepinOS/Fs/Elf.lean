import PepinOS.Process.Task

/-!
# The ELF loader

`fs/elf.c`. A program arrives as the bytes `ext2_read_file` left in the static
buffer `elf_buf`; the loader allocates a page directory, walks the program
headers, and for each page of a `PT_LOAD` segment allocates a frame, clears it,
copies what the file has for it and maps it. The user stack and the kernel stack
follow, and the task is registered.

The code dereferences frame addresses directly, through the kernel's identity
map (`pageMapped`, `kload32`, `kstore32`). The program
headers are read where the source reads them, with no bound on `e_phoff`: they
may come from anywhere in the mapped memory.

That the identity map stays as `init_paging` made it is supposed throughout. The new
directory shares the kernel's tables, so a page below 16 MB that a segment asks for is
redirected for the kernel too, and what the loader then reads and writes there is up
to what the TLB still holds; here it goes on with the physical address. So of a file
with a page below 16 MB only what is read off the entries themselves is meant to hold.
`e_phnum` is read once, not at each turn: nothing changes it while no page of `elf_buf`
is redirected and none was marked free.
-/

namespace PepinOS

def maxElfSize : Nat := 65536
def userStackVirt : U32 := 0x40100000#32
def ptLoad : U32 := 1#32

/-- Where the linker put `elf_buf`: in the kernel image, below the page tables. -/
structure ElfBuf where
  addr : U32
  below : addr.toNat + maxElfSize ≤ kernelPdAddr

/-- A file as `ext2_read_file` delivers it to a buffer of `MAX_ELF_SIZE` bytes. -/
structure FileImage where
  bytes : List U8
  size_le : bytes.length ≤ maxElfSize

/-- `proc_alloc_pd`: a fresh directory, copied from the kernel's. -/
def procAllocPd (s : Loader) : Option (U32 × Loader) :=
  let (pdPhys, pmm) := pmmAllocPage s.pmm
  if pageMapped pdPhys then
    let mem := forRange 0 1024 (fun i m => setWord m pdPhys.toNat i (word m kernelPdAddr i)) s.mem
    some (pdPhys, { s with mem := mem, pmm := pmm })
  else none

/-- The first half of `proc_map_page`: the page table of the directory entry is
made when the entry is not present. -/
def procEnsureTable (pdPhys : U32) (pdIdx : Nat) (s : Loader) : Option Loader := do
  let pde ← kload32 s.mem (wordPtr pdPhys pdIdx)
  if !present pde then
    let (ptPhys, pmm) := pmmAllocPage s.pmm
    if pageMapped ptPhys then
      let mem := forRange 0 1024 (fun i m => setWord m ptPhys.toNat i 0#32) s.mem
      let mem ← kstore32 mem (wordPtr pdPhys pdIdx)
        (ptPhys ||| pagePresent ||| pageWrite ||| pageUser)
      some { s with mem := mem, pmm := pmm }
    else none
  else some s

/-- `proc_map_page`. -/
def procMapPage (pdPhys virt phys flags : U32) (s : Loader) : Option Loader := do
  let s ← procEnsureTable pdPhys (pdIndex virt) s
  let pde ← kload32 s.mem (wordPtr pdPhys (pdIndex virt))
  let mem ← kstore32 s.mem (wordPtr (pde &&& ~~~0xFFF#32) (ptIndex virt)) (phys ||| flags)
  some { s with mem := mem }

def elfFlags : U32 := pagePresent ||| pageWrite ||| pageUser

/-! ## Headers

Field offsets of `elf32_hdr_t` and `elf32_phdr_t`. -/

def eEntry (b : ElfBuf) (m : Mem) : U32 := load32 m (b.addr.toNat + 24)
def ePhoff (b : ElfBuf) (m : Mem) : U32 := load32 m (b.addr.toNat + 28)
def ePhentsize (b : ElfBuf) (m : Mem) : U16 := load16 m (b.addr.toNat + 42)
def ePhnum (b : ElfBuf) (m : Mem) : U16 := load16 m (b.addr.toNat + 44)

def pType (m : Mem) (ph : U32) : Option U32 := kload32 m ph
def pOffset (m : Mem) (ph : U32) : Option U32 := kload32 m (ph + 4#32)
def pVaddr (m : Mem) (ph : U32) : Option U32 := kload32 m (ph + 8#32)
def pFilesz (m : Mem) (ph : U32) : Option U32 := kload32 m (ph + 16#32)
def pMemsz (m : Mem) (ph : U32) : Option U32 := kload32 m (ph + 20#32)

/-- `ph`, the address of program header `i`. -/
def phAddr (b : ElfBuf) (m : Mem) (i : Nat) : U32 :=
  b.addr + ePhoff b m + BitVec.ofNat 32 i * (ePhentsize b m).setWidth 32

/-- The magic check, on the bytes of `e_ident`. -/
def elfMagic (b : ElfBuf) (m : Mem) : Bool :=
  m b.addr.toNat == 0x7F#8 && m (b.addr.toNat + 1) == 0x45#8 &&
    m (b.addr.toNat + 2) == 0x4C#8 && m (b.addr.toNat + 3) == 0x46#8

/-! ## Segments -/

/-- `for (j = 0; j < bytes; j++) fp[j] = elf_buf[src_off + j]`. -/
def copyFile (b : ElfBuf) (frame srcOff : U32) (bytes : Nat) (m : Mem) : Option Mem :=
  forRangeM 0 bytes (fun j m => do
    let v ← kload8 m (b.addr + (srcOff + BitVec.ofNat 32 j))
    some (store8 m (frame.toNat + j) v)) m

/-- Step b of the page loop: the bytes the file has for the page at `vaddr`. -/
def fillPage (b : ElfBuf) (ph vaddr frame : U32) (m : Mem) : Option Mem := do
  let pv ← pVaddr m ph
  let pf ← pFilesz m ph
  if vaddr < pv + pf then
    let po ← pOffset m ph
    let srcOff := po + (vaddr - pv)
    let avail := po + pf - srcOff
    let bytes := if 4096#32 > avail then avail else 4096#32
    copyFile b frame srcOff bytes.toNat m
  else some m

/-- One turn of the page loop: allocate, clear, copy, map. -/
def loadPage (b : ElfBuf) (pdPhys ph vaddr : U32) (s : Loader) : Option Loader := do
  let (frame, pmm) := pmmAllocPage s.pmm
  if pageMapped frame then
    let mem ← fillPage b ph vaddr frame (memzero s.mem frame.toNat 4096)
    procMapPage pdPhys vaddr frame elfFlags { s with mem := mem, pmm := pmm }
  else none

/-- The page loop of one `PT_LOAD` header. The bounds are page-aligned, so
`vaddr += 4096` steps through the page numbers between them. -/
def loadSegment (b : ElfBuf) (pdPhys ph : U32) (s : Loader) : Option Loader := do
  let pv ← pVaddr s.mem ph
  let pm ← pMemsz s.mem ph
  let vbase := pv &&& ~~~0xFFF#32
  let vend := (pv + pm + 0xFFF#32) &&& ~~~0xFFF#32
  forRangeM (vbase.toNat / 4096) (vend.toNat / 4096)
    (fun n s => loadPage b pdPhys ph (BitVec.ofNat 32 (n * 4096)) s) s

/-- One turn of the header loop. -/
def loadHeader (b : ElfBuf) (pdPhys : U32) (i : Nat) (s : Loader) : Option Loader := do
  let ph := phAddr b s.mem i
  let ty ← pType s.mem ph
  if ty != ptLoad then some s else loadSegment b pdPhys ph s

/-- Step 5: one cleared page for the user stack. -/
def loadStack (pdPhys : U32) (s : Loader) : Option Loader :=
  let (frame, pmm) := pmmAllocPage s.pmm
  if pageMapped frame then
    procMapPage pdPhys userStackVirt frame elfFlags
      { s with mem := memzero s.mem frame.toNat 4096, pmm := pmm }
  else none

/-- Steps 6 and 7: the kernel stack, and the registration. -/
def loadTask (b : ElfBuf) (pdPhys : U32) (s : Loader) : Option Loader := do
  let (kstackPhys, pmm) := pmmAllocPage s.pmm
  let sched ← schedAddTask s.sched (eEntry b s.mem) 0x23#32 0x202#32 (userStackVirt + 0xFF0#32)
    0x33#32 pdPhys (kstackPhys + 4096#32)
  some { s with pmm := pmm, sched := sched }

/-- Steps 4 to 7 of `elf_exec`, for a directory already made. -/
def loadProgram (b : ElfBuf) (pdPhys : U32) (s : Loader) : Option Loader := do
  let s ← forRangeM 0 (ePhnum b s.mem).toNat (loadHeader b pdPhys) s
  let s ← loadStack pdPhys s
  loadTask b pdPhys s

/-- The file in the buffer. -/
def readFile (b : ElfBuf) (file : FileImage) (s : Loader) : Loader :=
  { s with mem := patch s.mem b.addr.toNat file.bytes.length (fun k => file.bytes.getD k 0#8) }

theorem readFile_mem (b : ElfBuf) (file : FileImage) (s : Loader) : (readFile b file s).mem =
    patch s.mem b.addr.toNat file.bytes.length (fun k => file.bytes.getD k 0#8) := rfl

/-- A file in the buffer ends below the kernel's tables. -/
theorem FileImage.end_le (f : FileImage) (b : ElfBuf) :
    b.addr.toNat + f.bytes.length ≤ 0x200000 := by
  have hsize := f.size_le
  have hbelow := b.below
  unfold kernelPdAddr at hbelow
  omega

/-- The buffer lies below the kernel's tables. -/
theorem ElfBuf.notMem_high (b : ElfBuf) {x : Nat} (hx : 512 ≤ x / 4096) :
    ¬InRun b.addr.toNat maxElfSize x := by
  have hbelow := b.below
  unfold kernelPdAddr at hbelow
  unfold InRun
  omega

/-- Reading a file changes the buffer only. -/
theorem readFile_other {b : ElfBuf} {file : FileImage} {s : Loader} {x : Nat}
    (hx : ¬InRun b.addr.toNat maxElfSize x) : (readFile b file s).mem x = s.mem x := by
  have hsize := file.size_le
  rw [readFile_mem]
  exact patch_out (by unfold InRun at hx ⊢; omega)

theorem readFile_high {b : ElfBuf} {file : FileImage} {s : Loader} {x : Nat}
    (hx : 512 ≤ x / 4096) : (readFile b file s).mem x = s.mem x :=
  readFile_other (b.notMem_high hx)

/-- `elf_exec`, from what `ext2_find` and `ext2_read_file` gave for the name. -/
def elfExec (b : ElfBuf) (file : Option FileImage) (s : Loader) : Option Loader :=
  match file with
  | none => some s
  | some file =>
    let s := readFile b file s
    if file.bytes.length < 52 then some s
    else if !elfMagic b s.mem then some s
    else (procAllocPd s).bind fun (pdPhys, s) => loadProgram b pdPhys s

end PepinOS
