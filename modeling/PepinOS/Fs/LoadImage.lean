import PepinOS.Fs.LoadSteps

/-!
# The image a file describes

For a well-formed file (`Loadable`) the loader runs to its end and builds
exactly the image of the program headers: `elfExec_image`. The file is
`Loadable` when its headers lie in it, its segments neither wrap nor share a
page nor touch the stack page, and each segment starts at the same offset in its
page as in the file; `AboveKernel` adds that none touches the kernel's directory
entries. The condition on the offsets is what makes `src_off = p_offset + (vaddr - p_vaddr)`
right for the first page of an unaligned segment, where `vaddr - p_vaddr` is negative modulo 2³².

`Progress` carries the loops: which pages are done, that each of them holds what
the file says (`Wanted`), and that the frames still to be taken are there
(`budget`: the pages not done, the tables not made, the kernel stack). The
allocator hands out the lowest free page, so the budget counts free pages below
`identityTop` only.
-/

namespace PepinOS

/-! ## The file -/

/-- Byte `k` of the file, and zero behind its end. -/
def FileImage.mem (f : FileImage) : Mem := fun k => f.bytes.getD k 0#8

/-- A `PT_LOAD` header, in numbers. -/
structure Segment where
  offset : Nat
  vaddr : Nat
  filesz : Nat
  memsz : Nat

/-- Where program header `i` starts in the file. -/
def FileImage.phoff (f : FileImage) (i : Nat) : Nat :=
  (load32 f.mem 28).toNat + i * (load16 f.mem 42).toNat

def FileImage.phnum (f : FileImage) : Nat := (load16 f.mem 44).toNat

def FileImage.isLoad (f : FileImage) (i : Nat) : Bool := load32 f.mem (f.phoff i) == ptLoad

def FileImage.segment (f : FileImage) (i : Nat) : Segment where
  offset := (load32 f.mem (f.phoff i + 4)).toNat
  vaddr := (load32 f.mem (f.phoff i + 8)).toNat
  filesz := (load32 f.mem (f.phoff i + 16)).toNat
  memsz := (load32 f.mem (f.phoff i + 20)).toNat

/-- The virtual pages of a segment. -/
def Segment.pages (g : Segment) : Finset Nat :=
  Finset.Ico (g.vaddr / 4096) ((g.vaddr + g.memsz + 0xFFF) / 4096)

/-- What the loader asks of one segment of a file of `size` bytes. -/
structure Segment.Ok (g : Segment) (size : Nat) : Prop where
  filesz_le : g.filesz ≤ g.memsz
  in_file : g.offset + g.filesz ≤ size
  congr : g.offset % 4096 = g.vaddr % 4096
  no_wrap : g.vaddr + g.memsz + 0xFFF < 2 ^ 32
  off_stack : 0x40100 ∉ g.pages

/-- A complete ELF32 file with sane segments. -/
structure Loadable (f : FileImage) : Prop where
  size : 52 ≤ f.bytes.length
  magic : f.mem 0 = 0x7F#8 ∧ f.mem 1 = 0x45#8 ∧ f.mem 2 = 0x4C#8 ∧ f.mem 3 = 0x46#8
  headers : ∀ i, i < f.phnum → f.phoff i + 32 ≤ f.bytes.length
  segment : ∀ i, i < f.phnum → f.isLoad i = true → (f.segment i).Ok f.bytes.length
  disjoint : ∀ i j, i < f.phnum → j < f.phnum → f.isLoad i = true → f.isLoad j = true → i ≠ j →
    Disjoint (f.segment i).pages (f.segment j).pages

/-- The part of `Loadable` that reading the headers takes. -/
structure FileImage.Complete (f : FileImage) : Prop where
  size : 52 ≤ f.bytes.length
  magic : f.mem 0 = 0x7F#8 ∧ f.mem 1 = 0x45#8 ∧ f.mem 2 = 0x4C#8 ∧ f.mem 3 = 0x46#8
  headers : ∀ i, i < f.phnum → f.phoff i + 32 ≤ f.bytes.length

theorem Loadable.complete {f : FileImage} (hf : Loadable f) : f.Complete :=
  ⟨hf.size, hf.magic, hf.headers⟩

/-- The part of `Segment.Ok` that copying the segment takes. -/
structure Segment.Placed (g : Segment) (size : Nat) : Prop where
  filesz_le : g.filesz ≤ g.memsz
  in_file : g.offset + g.filesz ≤ size
  congr : g.offset % 4096 = g.vaddr % 4096
  no_wrap : g.vaddr + g.memsz + 0xFFF < 2 ^ 32

theorem Segment.Ok.placed {g : Segment} {size : Nat} (h : g.Ok size) : g.Placed size :=
  ⟨h.filesz_le, h.in_file, h.congr, h.no_wrap⟩

/-- No segment asks for a page of the kernel's directory entries. -/
def AboveKernel (f : FileImage) : Prop :=
  ∀ i, i < f.phnum → f.isLoad i = true → ∀ v ∈ (f.segment i).pages, 4096 ≤ v

/-- The pages of the first `n` headers. -/
def FileImage.pagesUpTo (f : FileImage) (n : Nat) : Finset Nat :=
  ((Finset.range n).filter (fun i => f.isLoad i = true)).biUnion (fun i => (f.segment i).pages)

/-- All pages a load maps: the segments' and the stack's. -/
def FileImage.allPages (f : FileImage) : Finset Nat := insert 0x40100 (f.pagesUpTo f.phnum)

/-- The free frames the kernel can reach. -/
def lowFree (p : Pmm) : Finset Nat := (freeSet p).filter (· < 4096)

/-- The frames a load takes: directory, kernel stack, pages, page tables. -/
def FileImage.frames (f : FileImage) : Nat :=
  2 + f.allPages.card + (f.allPages.image (· / 1024)).card

/-- What page `v` of a segment holds at offset `j` once loaded: the file as far
as the segment's part of it goes, then zeros. -/
def Segment.byte (g : Segment) (f : FileImage) (v j : Nat) : U8 :=
  if v * 4096 + j < g.vaddr + g.filesz then f.mem (g.offset + (v * 4096 + j) - g.vaddr) else 0#8

/-- `c` is what the file wants page `v` to hold. -/
def Wanted (f : FileImage) (v : Nat) (c : Nat → U8) : Prop :=
  (∀ i, i < f.phnum → f.isLoad i = true → v ∈ (f.segment i).pages →
    ∀ j, j < 4096 → c j = (f.segment i).byte f v j) ∧
  (v = 0x40100 → ∀ j, j < 4096 → c j = 0#8)

theorem Wanted.congr {f : FileImage} {v : Nat} {c c' : Nat → U8} (h : Wanted f v c)
    (he : ∀ j, j < 4096 → c' j = c j) : Wanted f v c' :=
  ⟨fun i hi hl hp j hj => (he j hj).trans (h.1 i hi hl hp j hj),
    fun hv j hj => (he j hj).trans (h.2 hv j hj)⟩

theorem pagesUpTo_succ {f : FileImage} {i : Nat} :
    f.pagesUpTo (i + 1) = if f.isLoad i = true then f.pagesUpTo i ∪ (f.segment i).pages
      else f.pagesUpTo i := by
  unfold FileImage.pagesUpTo
  rw [Finset.range_add_one, Finset.filter_insert]
  split
  next => rw [Finset.biUnion_insert, Finset.union_comm]
  next => rfl

theorem mem_pagesUpTo {f : FileImage} {n v : Nat} :
    v ∈ f.pagesUpTo n ↔ ∃ i, i < n ∧ f.isLoad i = true ∧ v ∈ (f.segment i).pages := by
  unfold FileImage.pagesUpTo
  rw [Finset.mem_biUnion]
  constructor
  · intro ⟨i, hi, hv⟩
    rw [Finset.mem_filter, Finset.mem_range] at hi
    exact ⟨i, hi.1, hi.2, hv⟩
  · intro ⟨i, hi, hl, hv⟩
    exact ⟨i, Finset.mem_filter.mpr ⟨Finset.mem_range.mpr hi, hl⟩, hv⟩

theorem segment_sub {f : FileImage} {i : Nat} (hi : i < f.phnum) (hl : f.isLoad i = true) :
    (f.segment i).pages ⊆ f.allPages := fun _ hv =>
  Finset.mem_insert_of_mem (mem_pagesUpTo.mpr ⟨i, hi, hl, hv⟩)

/-! ## The buffer -/

/-- The buffer still holds the file. -/
def InBuffer (b : ElfBuf) (f : FileImage) (m : Mem) : Prop :=
  ∀ k, k < f.bytes.length → m (b.addr.toNat + k) = f.mem k

theorem readFile_inBuffer (b : ElfBuf) (f : FileImage) (s : Loader) :
    InBuffer b f (readFile b f s).mem := by
  intro k hk
  show patch s.mem b.addr.toNat f.bytes.length (fun k => f.bytes.getD k 0#8) _ = _
  rw [patch_at hk]
  rfl

section

variable {b : ElfBuf} {f : FileImage} {m : Mem} (hb : InBuffer b f m)

include hb

theorem inBuffer_load32 {k : Nat} (hk : k + 4 ≤ f.bytes.length) :
    load32 m (b.addr.toNat + k) = load32 f.mem k := by
  unfold load32
  rw [show b.addr.toNat + k + 3 = b.addr.toNat + (k + 3) by omega,
    show b.addr.toNat + k + 2 = b.addr.toNat + (k + 2) by omega,
    show b.addr.toNat + k + 1 = b.addr.toNat + (k + 1) by omega, hb _ (by omega), hb _ (by omega),
    hb _ (by omega), hb _ (by omega)]

theorem inBuffer_load16 {k : Nat} (hk : k + 2 ≤ f.bytes.length) :
    load16 m (b.addr.toNat + k) = load16 f.mem k := by
  unfold load16
  rw [show b.addr.toNat + k + 1 = b.addr.toNat + (k + 1) by omega, hb _ (by omega),
    hb _ (by omega)]

theorem elfMagic_of_complete (hf : f.Complete) : elfMagic b m = true := by
  obtain ⟨h0, h1, h2, h3⟩ := hf.magic
  have hsize := hf.size
  unfold elfMagic
  rw [show b.addr.toNat = b.addr.toNat + 0 from rfl, hb 0 (by omega), hb 1 (by omega),
    hb 2 (by omega), hb 3 (by omega), h0, h1, h2, h3]
  rfl

theorem ePhnum_of_complete (hf : f.Complete) : (ePhnum b m).toNat = f.phnum := by
  have hsize := hf.size
  unfold ePhnum FileImage.phnum
  rw [inBuffer_load16 hb (by omega)]

theorem phAddr_of_complete (hf : f.Complete) {i : Nat} (hi : i < f.phnum) :
    (phAddr b m i).toNat = b.addr.toNat + f.phoff i := by
  have hsize := hf.size
  have hh := hf.headers i hi
  have hle := f.end_le b
  have hi16 : f.phnum < 65536 := (load16 f.mem 44).isLt
  unfold FileImage.phoff at hh ⊢
  unfold phAddr ePhoff ePhentsize
  rw [inBuffer_load32 hb (by omega), inBuffer_load16 hb (by omega), BitVec.toNat_add,
    BitVec.toNat_add, BitVec.toNat_mul, BitVec.toNat_ofNat, BitVec.toNat_setWidth]
  have h16 : (load16 f.mem 42).toNat < 65536 := (load16 f.mem 42).isLt
  rw [Nat.mod_eq_of_lt (a := i) (by omega), Nat.mod_eq_of_lt (a := (load16 f.mem 42).toNat)
    (by omega), Nat.mod_eq_of_lt (a := i * _) (by omega)]
  omega

/-- A field of header `i`, read where the loader reads it. -/
theorem kload32_header (hf : f.Complete) {i k : Nat} (hi : i < f.phnum) {ph : U32}
    (hph : ph.toNat = b.addr.toNat + f.phoff i) (hk : k + 4 ≤ 32) :
    kload32 m (ph + BitVec.ofNat 32 k) = some (load32 f.mem (f.phoff i + k)) := by
  have hh := hf.headers i hi
  have hle := f.end_le b
  have hak : (ph + BitVec.ofNat 32 k).toNat = b.addr.toNat + (f.phoff i + k) := by
    rw [BitVec.toNat_add, BitVec.toNat_ofNat, hph]
    omega
  unfold kload32 identityTop
  rw [if_pos (by omega), hak, inBuffer_load32 hb (by omega)]

/-- One turn of the header loop, from what the file says. -/
theorem loadHeader_of_complete (hf : f.Complete) {i : Nat} (hi : i < f.phnum) {s : Loader}
    (hm : s.mem = m) (pdPhys : U32) :
    loadHeader b pdPhys i s =
      if f.isLoad i = true then loadSegment b pdPhys (phAddr b m i) s else some s := by
  have hty : pType m (phAddr b m i) = some (load32 f.mem (f.phoff i)) := by
    have hfield := kload32_header hb hf hi (phAddr_of_complete hb hf hi) (k := 0) (by omega)
    rw [BitVec.add_zero] at hfield
    exact hfield
  simp only [loadHeader, hm, hty, Option.bind_eq_bind, Option.bind_some]
  unfold FileImage.isLoad
  by_cases hl : load32 f.mem (f.phoff i) = ptLoad
  · rw [if_neg (by rw [bne_iff_ne, not_not]; exact hl), if_pos (beq_iff_eq.mpr hl)]
  · rw [if_pos (bne_iff_ne.mpr hl), if_neg (fun heq => hl (beq_iff_eq.mp heq))]

/-- The page loop runs from the page of `p_vaddr` to the rounded end, which may have
wrapped to 0. -/
theorem loadSegment_of_complete (hf : f.Complete) {i : Nat} (hi : i < f.phnum) {ph : U32}
    (hph : ph.toNat = b.addr.toNat + f.phoff i) {s : Loader} (hm : s.mem = m) (pdPhys : U32) :
    loadSegment b pdPhys ph s =
      forRangeM ((f.segment i).vaddr / 4096)
        (((f.segment i).vaddr + (f.segment i).memsz + 0xFFF) % 2 ^ 32 / 4096)
        (fun n s => loadPage b pdPhys ph (BitVec.ofNat 32 (n * 4096)) s) s := by
  have hpv : pVaddr m ph = some (load32 f.mem (f.phoff i + 8)) := kload32_header hb hf hi hph
    (by omega)
  have hpm : pMemsz m ph = some (load32 f.mem (f.phoff i + 20)) := kload32_header hb hf hi hph
    (by omega)
  have hev : (f.segment i).vaddr = (load32 f.mem (f.phoff i + 8)).toNat := rfl
  have hem : (f.segment i).memsz = (load32 f.mem (f.phoff i + 20)).toNat := rfl
  generalize load32 f.mem (f.phoff i + 8) = pv at hpv hev
  generalize load32 f.mem (f.phoff i + 20) = pm at hpm hem
  have hlo : (pv &&& ~~~0xFFF#32).toNat / 4096 = (f.segment i).vaddr / 4096 := by
    rw [toNat_and_not_fff, hev]
    omega
  have hhi : ((pv + pm + 0xFFF#32) &&& ~~~0xFFF#32).toNat / 4096 =
      ((f.segment i).vaddr + (f.segment i).memsz + 0xFFF) % 2 ^ 32 / 4096 := by
    rw [toNat_and_not_fff, BitVec.toNat_add, BitVec.toNat_add, hev, hem, BitVec.toNat_ofNat]
    omega
  simp only [loadSegment, hm, hpv, hpm, Option.bind_eq_bind, Option.bind_some]
  rw [hlo, hhi]

/-- Copying from the file, within it: the run of bytes, and no fault. -/
theorem copyFile_total {frame srcOff : U32} {k n : Nat} (hfr : frame.toNat = k * 4096)
    (hk : 1024 ≤ k) (hsrc : srcOff.toNat + n ≤ f.bytes.length) :
    copyFile b frame srcOff n m =
      some (patch m (k * 4096) n (fun j => f.mem (srcOff.toNat + j))) := by
  have hle := f.end_le b
  obtain ⟨q, hq, hqe⟩ := forRangeM_total (f := fun j m => do
      let v ← kload8 m (b.addr + (srcOff + BitVec.ofNat 32 j))
      some (store8 m (frame.toNat + j) v)) (s := m)
    (fun j q => q = patch m (k * 4096) j (fun j => f.mem (srcOff.toNat + j))) (Nat.zero_le n)
    (funext fun x => (patch_out (by unfold InRun; omega)).symm) (by
      intro j q _ hj hqj
      have ha : (b.addr + (srcOff + BitVec.ofNat 32 j)).toNat =
          b.addr.toNat + (srcOff.toNat + j) := by
        rw [BitVec.toNat_add, BitVec.toNat_add, BitVec.toNat_ofNat]
        omega
      have hv : kload8 q (b.addr + (srcOff + BitVec.ofNat 32 j)) =
          some (f.mem (srcOff.toNat + j)) := by
        unfold kload8 identityTop
        rw [if_pos (by omega), ha, hqj, patch_out (by unfold InRun; omega), hb _ (by omega)]
      refine ⟨_, by rw [hv]; rfl, ?_⟩
      funext x
      rw [hqj, hfr]
      unfold store8
      by_cases hx : x = k * 4096 + j
      · subst hx
        rw [Function.update_self, patch_at (by omega)]
      · rw [Function.update_of_ne hx]
        by_cases hr : InRun (k * 4096) j x
        · rw [patch_in hr, patch_in (by unfold InRun at hr ⊢; omega)]
        · rw [patch_out hr, patch_out (by unfold InRun at hr ⊢; omega)])
  unfold copyFile
  rw [hq, hqe]

/-- Step b of the page loop, for a page of segment `i`. -/
theorem fillPage_total (hf : f.Complete) {i : Nat} (hi : i < f.phnum)
    (hg : (f.segment i).Placed f.bytes.length) {ph vaddr frame : U32}
    (hph : ph.toNat = b.addr.toNat + f.phoff i) {v k : Nat}
    (hv : v ∈ (f.segment i).pages) (hva : vaddr.toNat = v * 4096) (hfr : frame.toNat = k * 4096)
    (hk : 1024 ≤ k) (hzero : ∀ j, j < 4096 → m (k * 4096 + j) = 0#8) :
    ∃ m', fillPage b ph vaddr frame m = some m' ∧
      ∀ j, j < 4096 → m' (k * 4096 + j) = (f.segment i).byte f v j := by
  have hle := f.size_le
  unfold maxElfSize at hle
  obtain ⟨hfm, hin, hcong, hwrap⟩ := hg
  rw [Segment.pages, Finset.mem_Ico] at hv
  have hpv : pVaddr m ph = some (load32 f.mem (f.phoff i + 8)) := kload32_header hb hf hi hph
    (by omega)
  have hpf : pFilesz m ph = some (load32 f.mem (f.phoff i + 16)) := kload32_header hb hf hi hph
    (by omega)
  have hpo : pOffset m ph = some (load32 f.mem (f.phoff i + 4)) := kload32_header hb hf hi hph
    (by omega)
  unfold Segment.byte
  show ∃ m', fillPage b ph vaddr frame m = some m' ∧ ∀ j, j < 4096 → m' (k * 4096 + j) =
    if v * 4096 + j < (f.segment i).vaddr + (f.segment i).filesz then _ else _
  have hev : (f.segment i).vaddr = (load32 f.mem (f.phoff i + 8)).toNat := rfl
  have hef : (f.segment i).filesz = (load32 f.mem (f.phoff i + 16)).toNat := rfl
  have heo : (f.segment i).offset = (load32 f.mem (f.phoff i + 4)).toNat := rfl
  generalize load32 f.mem (f.phoff i + 8) = pv at hpv hev
  generalize load32 f.mem (f.phoff i + 16) = pf at hpf hef
  generalize load32 f.mem (f.phoff i + 4) = po at hpo heo
  generalize f.segment i = g at *
  have hvlt := vaddr.isLt
  have hsum : (pv + pf).toNat = pv.toNat + pf.toNat := by
    rw [BitVec.toNat_add, Nat.mod_eq_of_lt (by omega)]
  simp only [fillPage, hpv, hpf, hpo, Option.bind_eq_bind, Option.bind_some]
  by_cases hlt : vaddr < pv + pf
  · rw [if_pos hlt]
    rw [BitVec.lt_def, hsum, hva] at hlt
    -- the wrapped difference of an unaligned first page cancels against the offset
    have hsrc : (po + (vaddr - pv)).toNat + pv.toNat = po.toNat + v * 4096 := by
      rw [BitVec.toNat_add, BitVec.toNat_sub, hva]
      omega
    generalize po + (vaddr - pv) = src at hsrc ⊢
    have hslt := src.isLt
    have havail : (po + pf - src).toNat = pv.toNat + pf.toNat - v * 4096 := by
      rw [BitVec.toNat_sub, BitVec.toNat_add]
      omega
    have hbytes : (if 4096#32 > po + pf - src then po + pf - src else 4096#32).toNat =
        min 4096 (pv.toNat + pf.toNat - v * 4096) := by
      split
      next h => rw [gt_iff_lt, BitVec.lt_def, havail, BitVec.toNat_ofNat] at h; omega
      next h => rw [gt_iff_lt, BitVec.lt_def, havail, BitVec.toNat_ofNat] at h; simp; omega
    rw [hbytes, copyFile_total hb hfr hk (by omega)]
    refine ⟨_, rfl, fun j hj => ?_⟩
    split
    next hin' =>
      rw [patch_at (by omega)]
      congr 1
      omega
    next hout => rw [patch_out (by unfold InRun; omega), hzero j hj]
  · rw [if_neg hlt]
    rw [BitVec.lt_def, hsum, hva] at hlt
    have hend : g.vaddr + g.filesz ≤ v * 4096 := by omega
    refine ⟨m, rfl, fun j hj => ?_⟩
    rw [if_neg (Nat.not_lt.mpr (Nat.le_add_right_of_le hend)), hzero j hj]

end

end PepinOS
