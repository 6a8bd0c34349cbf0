import Mathlib.Algebra.BigOperators.Intervals
import PepinOS.Fs.ElfReads

/-!
# What `elf_exec` checks, and what it would have to

Two checks stand before a load: at least 52 bytes, and the magic number. `e_phoff`,
`e_phentsize`, `p_offset`, `p_filesz` and `p_vaddr` are used as they come. So a file
whose program headers or segments lie beyond its end is loaded with what memory holds
there, and one whose first page starts before `p_offset` modulo the page size is loaded
with what lies before `elf_buf`: of an unaligned segment the copy starts at
`p_offset - p_vaddr % 4096`.

`elf_validated_iff` is the exact condition on the file under which every byte read of
`elf_buf` is one of the file and no file that does not fit is let through. The loops are
followed with enough pages to go on (`Spending`), so that each header is come to.
-/

namespace PepinOS

open Traced

/-! ## The file -/

def FileImage.phentsize (f : FileImage) : Nat := (load16 f.mem 42).toNat

/-- The two checks of the loader let the file through. -/
structure FileImage.Passes (f : FileImage) : Prop where
  size : 52 ≤ f.bytes.length
  magic : f.mem 0 = 0x7F#8 ∧ f.mem 1 = 0x45#8 ∧ f.mem 2 = 0x4C#8 ∧ f.mem 3 = 0x46#8

/-- The program headers and the file ranges of the `PT_LOAD` headers lie in the file. -/
structure FileImage.Fits (f : FileImage) : Prop where
  table : ∀ i, i < f.phnum → ∀ k, k < f.phentsize → f.phoff i + k < f.bytes.length
  ranges : ∀ i, i < f.phnum → f.isLoad i = true → ∀ k, k < (f.segment i).filesz →
    (f.segment i).offset + k < f.bytes.length

/-- Where the page loop of a segment ends; the sum wraps. -/
def Segment.pageEnd (g : Segment) : Nat := (g.vaddr + g.memsz + 0xFFF) % 2 ^ 32 / 4096

/-- The page loop has a first page, and bytes of the file go there. -/
def Segment.Copies (g : Segment) : Prop :=
  g.vaddr / 4096 < g.pageEnd ∧ g.vaddr / 4096 * 4096 < (g.vaddr + g.filesz) % 2 ^ 32

/-- The fields read of header `i` lie in the file and, if its first page gets bytes of the
file, the page does not start before the file does. -/
structure FileImage.HeaderInside (f : FileImage) (i : Nat) : Prop where
  type : f.phoff i + 4 ≤ f.bytes.length
  fields : f.isLoad i = true → f.phoff i + 24 ≤ f.bytes.length
  start : f.isLoad i = true → (f.segment i).Copies →
    (f.segment i).vaddr % 4096 ≤ (f.segment i).offset ∧ (f.segment i).offset ≤ f.bytes.length

/-! ## Reading the buffer -/

theorem bufIndex_add {b : ElfBuf} {a : U32} {o : Nat} (ha : bufIndex b a = o) (k : Nat) :
    bufIndex b (a + BitVec.ofNat 32 k) = (o + k) % 2 ^ 32 := by
  unfold bufIndex at ha ⊢
  rw [show a + BitVec.ofNat 32 k - b.addr = a - b.addr + BitVec.ofNat 32 k by bv_omega,
    BitVec.toNat_add, ha, BitVec.toNat_ofNat]
  omega

/-- An index below the size of the buffer is an address in it. -/
theorem bufIndex_addr {b : ElfBuf} {a : U32} {o : Nat} (ha : bufIndex b a = o)
    (ho : o ≤ maxElfSize) : a.toNat = b.addr.toNat + o := by
  have hb := b.below
  unfold bufIndex at ha
  unfold kernelPdAddr maxElfSize at *
  bv_omega

section

variable {b : ElfBuf} {f : FileImage} {m : Mem} (hb : InBuffer b f m)

include hb

theorem bufLoad32_spec {a : U32} {o : Nat} (ha : bufIndex b a = o) :
    Spec (· < f.bytes.length) (bufLoad32 b m a) (o + 4 ≤ f.bytes.length) (· = load32 f.mem o) := by
  have hle := f.end_le b
  have hsize := f.size_le
  unfold maxElfSize at hsize
  have hin : (∀ w ∈ (List.range 4).map fun k => bufIndex b (a + BitVec.ofNat 32 k),
      w < f.bytes.length) ↔ o + 4 ≤ f.bytes.length := by
    rw [List.forall_mem_map]
    constructor
    · intro h
      have h0 := h 0 (by simp)
      have h3 := h 3 (by simp)
      rw [bufIndex_add ha] at h0 h3
      have ho : o < 2 ^ 32 := by
        rw [← ha]
        exact (a - b.addr).isLt
      omega
    · intro h k hk
      rw [List.mem_range] at hk
      rw [bufIndex_add ha]
      omega
  refine ((Spec.touch _).bind fun _ hG _ => ?_).iff ((and_iff_left trivial).trans hin)
  have ho := hin.mp hG
  have haddr := bufIndex_addr ha (by unfold maxElfSize; omega)
  refine Spec.lift ?_ (inBuffer_load32 hb ho)
  unfold kload32 identityTop
  rw [if_pos (by omega), haddr]
  rfl

/-- A field known to be inside. -/
theorem bufLoad32_inside {a : U32} {o : Nat} (ha : bufIndex b a = o) (ho : o + 4 ≤ f.bytes.length) :
    Spec (· < f.bytes.length) (bufLoad32 b m a) True (· = load32 f.mem o) :=
  (bufLoad32_spec hb ha).iff (iff_true_intro ho)

omit hb in
theorem bufLoad8_spec {a : U32} {o : Nat} (ha : bufIndex b a = o) :
    Spec (· < f.bytes.length) (bufLoad8 b m a) (o < f.bytes.length) fun _ => True := by
  have hle := f.end_le b
  have hsize := f.size_le
  refine ((Spec.touch _).bind fun _ hG _ => ?_).iff ((and_iff_left trivial).trans ?_)
  · have ho : o < f.bytes.length := by
      rw [← ha]
      exact hG _ (List.mem_singleton_self _)
    have haddr := bufIndex_addr ha (by omega)
    refine Spec.lift (a := m a.toNat) ?_ trivial
    unfold kload8 identityTop
    rw [if_pos (by omega)]
    rfl
  · rw [List.forall_mem_singleton, ha]

end

/-! ## A page -/

/-- The copy for the page at `vaddr` stays in a file of `size` bytes: the header has the file
range from `po` on, `pf` bytes for `pv`. -/
def CopyInside (size : Nat) (pv pf po vaddr : U32) : Prop :=
  vaddr < pv + pf → ∀ j, j < (if 4096#32 > po + pf - (po + (vaddr - pv)) then
      po + pf - (po + (vaddr - pv)) else 4096#32).toNat →
    (po + (vaddr - pv) + BitVec.ofNat 32 j).toNat < size

section

variable {size : Nat} {pv pf po va : U32}

/-- The number of bytes the loop copies for a page. -/
theorem copyLen_toNat (src : U32) : (if 4096#32 > po + pf - src then po + pf - src else
    4096#32).toNat = min 4096 (po + pf - src).toNat := by
  split
  next h => rw [gt_iff_lt, BitVec.lt_def, BitVec.toNat_ofNat] at h; omega
  next h => rw [gt_iff_lt, BitVec.lt_def, BitVec.toNat_ofNat] at h; rw [BitVec.toNat_ofNat]; omega

/-- The first page, where the segment fits: the copy starts `p_vaddr % 4096` bytes before the
file range. -/
theorem copyInside_first (hsize : size ≤ maxElfSize)
    (hrange : ∀ k, k < pf.toNat → po.toNat + k < size)
    (hva : va.toNat = pv.toNat / 4096 * 4096) :
    CopyInside size pv pf po va ↔ (va.toNat < (pv.toNat + pf.toNat) % 2 ^ 32 →
      pv.toNat % 4096 ≤ po.toNat ∧ po.toNat ≤ size) := by
  unfold maxElfSize at hsize
  have hend : 0 < pf.toNat → po.toNat + pf.toNat ≤ size := by
    intro h0
    have hlast := hrange (pf.toNat - 1) (by omega)
    omega
  unfold CopyInside
  rw [BitVec.lt_def, BitVec.toNat_add]
  refine forall_congr' fun hlt => ?_
  rw [copyLen_toNat]
  have hpf : pf.toNat ≤ size := by omega
  have hlen : (po + pf - (po + (va - pv))).toNat = pf.toNat + pv.toNat % 4096 := by bv_omega
  have hsrc : (po + (va - pv)).toNat = (po.toNat + 2 ^ 32 - pv.toNat % 4096) % 2 ^ 32 := by bv_omega
  rw [hlen]
  generalize po + (va - pv) = src at hsrc ⊢
  have hpos : 0 < pf.toNat + pv.toNat % 4096 := by omega
  constructor
  · intro h
    have h0 := h 0 (by omega)
    have hlast := h (min 4096 (pf.toNat + pv.toNat % 4096) - 1) (by omega)
    rw [BitVec.toNat_add, BitVec.toNat_ofNat] at h0 hlast
    omega
  · rintro ⟨hstart, hle⟩ j hj
    rw [BitVec.toNat_add, BitVec.toNat_ofNat]
    omega

/-- The later pages lie in the file range. -/
theorem copyInside_later (hsize : size ≤ maxElfSize)
    (hrange : ∀ k, k < pf.toNat → po.toNat + k < size) (hva : pv.toNat < va.toNat) :
    CopyInside size pv pf po va := by
  unfold maxElfSize at hsize
  unfold CopyInside
  rw [BitVec.lt_def, BitVec.toNat_add]
  intro hlt j hj
  rw [copyLen_toNat] at hj
  have hend : po.toNat + pf.toNat ≤ size := by
    have hlast := hrange (pf.toNat - 1) (by omega)
    omega
  have hpvpf : pv.toNat + pf.toNat < 2 ^ 32 := by omega
  have hsrc : (po + (va - pv)).toNat = po.toNat + va.toNat - pv.toNat := by bv_omega
  have hlen : (po + pf - (po + (va - pv))).toNat = pv.toNat + pf.toNat - va.toNat := by bv_omega
  rw [hlen] at hj
  rw [BitVec.toNat_add, hsrc, BitVec.toNat_ofNat]
  omega

/-- All pages of a segment that fits. -/
theorem copies_inside {g : Segment} (hsize : size ≤ maxElfSize) (hv : g.vaddr = pv.toNat)
    (hf : g.filesz = pf.toNat) (ho : g.offset = po.toNat)
    (hrange : ∀ k, k < g.filesz → g.offset + k < size) :
    (∀ v ∈ Finset.Ico (g.vaddr / 4096) g.pageEnd,
      CopyInside size pv pf po (BitVec.ofNat 32 (v * 4096))) ↔
    (g.Copies → g.vaddr % 4096 ≤ g.offset ∧ g.offset ≤ size) := by
  rw [hf, ho] at hrange
  have hend : g.pageEnd ≤ 1048576 := by
    unfold Segment.pageEnd
    omega
  have hva : ∀ v, v < g.pageEnd → (BitVec.ofNat 32 (v * 4096)).toNat = v * 4096 := by
    intro v hlt
    rw [BitVec.toNat_ofNat]
    omega
  unfold Segment.Copies
  rw [hv, hf, ho]
  constructor
  · rintro h ⟨hpage, hlt⟩
    have hfirst := h _ (Finset.mem_Ico.mpr ⟨Nat.le_refl _, hpage⟩)
    rw [copyInside_first hsize hrange (hva _ hpage), hva _ hpage] at hfirst
    exact hfirst hlt
  · intro h v hmem
    obtain ⟨hlo, hhi⟩ := Finset.mem_Ico.mp hmem
    rcases Nat.eq_or_lt_of_le hlo with rfl | hlater
    · rw [copyInside_first hsize hrange (hva _ hhi), hva _ hhi]
      exact fun hlt => h ⟨hhi, hlt⟩
    · refine copyInside_later hsize hrange ?_
      rw [hva v hhi]
      omega

end

section

variable {b : ElfBuf} {f : FileImage} {m : Mem}

/-- The copy writes page `k` only. -/
theorem copyFile_spec {frame srcOff : U32} {k n : Nat} (hfr : frame.toNat = k * 4096) (hn : n ≤ 4096) :
    Spec (· < f.bytes.length) (copyFileR b frame srcOff n m)
      (∀ j, j < n → (srcOff + BitVec.ofNat 32 j).toNat < f.bytes.length)
      fun m' => ∀ x, x / 4096 ≠ k → m' x = m x := by
  unfold copyFileR
  refine (Spec.loop (G := fun j => (srcOff + BitVec.ofNat 32 j).toNat < f.bytes.length)
    (fun _ (q : Mem) => ∀ x, x / 4096 ≠ k → q x = m x) (Nat.zero_le n) (fun x _ => rfl)
    fun j q _ hj hq => ?_).iff ⟨fun h j hj => h j (Nat.zero_le j) hj, fun h j _ hj => h j hj⟩
  have hidx : bufIndex b (b.addr + (srcOff + BitVec.ofNat 32 j)) =
      (srcOff + BitVec.ofNat 32 j).toNat := by
    unfold bufIndex
    rw [BitVec.add_comm, BitVec.add_sub_cancel]
  refine ((bufLoad8_spec hidx).bind fun v _ _ => Spec.pure ?_).iff (and_iff_left trivial)
  intro x hx
  unfold store8
  rw [Function.update_of_ne (by omega)]
  exact hq x hx

/-- Step b of the page loop, for a header at index `o` with its fields inside. -/
theorem fillPage_spec (hb : InBuffer b f m) {ph vaddr frame : U32} {o k : Nat}
    (hph : bufIndex b ph = o) (ho : o + 24 ≤ f.bytes.length) (hfr : frame.toNat = k * 4096) :
    Spec (· < f.bytes.length) (fillPageR b ph vaddr frame m)
      (CopyInside f.bytes.length (load32 f.mem (o + 8)) (load32 f.mem (o + 16))
        (load32 f.mem (o + 4)) vaddr)
      fun m' => ∀ x, x / 4096 ≠ k → m' x = m x := by
  have hsize := f.size_le
  unfold maxElfSize at hsize
  have hidx : ∀ j, j < 24 → bufIndex b (ph + BitVec.ofNat 32 j) = o + j := by
    intro j hj
    rw [bufIndex_add hph]
    omega
  unfold fillPageR
  refine ((bufLoad32_inside hb (hidx 8 (by omega)) (by omega)).bind fun pv _ hpv =>
    (bufLoad32_inside hb (hidx 16 (by omega)) (by omega)).bind fun pf _ hpf => ?_).iff
      ((and_iff_right trivial).trans (and_iff_right trivial))
  rw [← hpv, ← hpf]
  by_cases hlt : vaddr < pv + pf
  · rw [if_pos hlt]
    refine ((bufLoad32_inside hb (hidx 4 (by omega)) (by omega)).bind fun po _ hpo => ?_).iff
      (and_iff_right trivial)
    rw [← hpo]
    refine (copyFile_spec hfr ?_).iff ⟨fun h _ => h, fun h => h hlt⟩
    split
    next hgt => exact Nat.le_of_lt hgt
    next => exact Nat.le_refl _
  · rw [if_neg hlt]
    exact (Spec.pure fun x _ => rfl).iff (iff_of_true trivial fun h => absurd h hlt)

end

/-! ## The pages a load takes -/

/-- The pages of header `i`, by number. -/
def FileImage.turns (f : FileImage) (i : Nat) : Finset Nat :=
  if f.isLoad i = true then Finset.Ico ((f.segment i).vaddr / 4096) (f.segment i).pageEnd else ∅

/-- The directory entries of all of them. -/
def FileImage.entries (f : FileImage) : Finset Nat :=
  (Finset.range f.phnum).biUnion fun i => (f.turns i).image (· / 1024)

/-- The page directory, a frame for each page of each header, a table for each directory entry,
and one page to spare. -/
def FileImage.demand (f : FileImage) : Nat :=
  2 + ∑ i ∈ Finset.range f.phnum, (f.turns i).card + f.entries.card

/-- A load on its way, with pages for `rest` more. -/
def Spending (f : FileImage) (s0 : Loader) (pdPhys : U32) (rest : Nat) (s : Loader) : Prop :=
  ∃ sp, LoadInv s0 sp s ∧ pdPhys.toNat = sp.dir * 4096 ∧
    rest + 1 + (f.entries.filter (fun e => sp.tab e = none)).card ≤ (lowFree s.pmm).card

section

variable {b : ElfBuf} {f : FileImage} {s0 : Loader} (hb : InBuffer b f s0.mem) {pdPhys ph : U32}
  {o : Nat} (hph : bufIndex b ph = o)

include hb hph

/-- One turn of the page loop. -/
theorem loadPage_spec (ho : o + 24 ≤ f.bytes.length) {vaddr : U32} {v rest : Nat}
    (hva : vaddr.toNat / 4096 = v) (hv : v / 1024 ∈ f.entries) {s : Loader}
    (h : Spending f s0 pdPhys (rest + 1) s) :
    Spec (· < f.bytes.length) (loadPageR b pdPhys ph vaddr s)
      (CopyInside f.bytes.length (load32 f.mem (o + 8)) (load32 f.mem (o + 16))
        (load32 f.mem (o + 4)) vaddr)
      (Spending f s0 pdPhys rest) := by
  obtain ⟨sp, hinv, hpd, hbudget⟩ := h
  have htable : tableCost sp v ≤ (f.entries.filter (fun e => sp.tab e = none)).card :=
    tableCost_le hv
  obtain ⟨k, hk, hk4, haddr, _⟩ := alloc_low hinv.pmm (by omega)
  have hbuf : InBuffer b f (memzero s.mem (pmmAllocPage s.pmm).1.toNat 4096) := by
    rw [haddr]
    exact hinv.inBuffer_zeroed hb (hinv.free_ge hk)
  unfold loadPageR
  simp only
  rw [if_pos ((pageMapped_iff haddr).mpr hk4)]
  refine ((fillPage_spec hbuf hph ho haddr).bind fun mem _ hmem => ?_).iff (and_iff_left trivial)
  have hkept : ∀ x, x / 4096 ≠ (pmmAllocPage s.pmm).1.toNat / 4096 → mem x = s.mem x := by
    intro x hx
    rw [haddr, Nat.mul_div_cancel k (by omega)] at hx
    rw [hmem x hx, haddr]
    exact memzero_other hx
  obtain ⟨_, s', sp', hrun, hinv', hmaps, hcard⟩ :=
    mapFrame_total hinv hpd hva (by omega) hkept
  refine Spec.lift (congrArg faulting hrun) ⟨sp', hinv', by rw [hmaps.extends_.dir]; exact hpd, ?_⟩
  have htables := hmaps.tables hv
  omega

/-- The page loop of a `PT_LOAD` header whose fields are read at `o`. -/
theorem loadSegment_spec {g : Segment} (hvaddr : g.vaddr = (load32 f.mem (o + 8)).toNat)
    (hmemsz : g.memsz = (load32 f.mem (o + 20)).toNat)
    (hentries : ∀ v ∈ Finset.Ico (g.vaddr / 4096) g.pageEnd, v / 1024 ∈ f.entries)
    (hsize : o + 4 ≤ f.bytes.length) {rest : Nat} {s : Loader}
    (h : Spending f s0 pdPhys ((Finset.Ico (g.vaddr / 4096) g.pageEnd).card + rest) s) :
    Spec (· < f.bytes.length) (loadSegmentR b pdPhys ph s)
      (o + 24 ≤ f.bytes.length ∧ ∀ v ∈ Finset.Ico (g.vaddr / 4096) g.pageEnd,
        CopyInside f.bytes.length (load32 f.mem (o + 8)) (load32 f.mem (o + 16))
          (load32 f.mem (o + 4)) (BitVec.ofNat 32 (v * 4096)))
      (Spending f s0 pdPhys rest) := by
  have hle := f.size_le
  unfold maxElfSize at hle
  obtain ⟨sp, hinv, _, _⟩ := id h
  have hbuf := hinv.inBuffer hb
  have hidx : ∀ j, j < 24 → bufIndex b (ph + BitVec.ofNat 32 j) = o + j := by
    intro j hj
    rw [bufIndex_add hph]
    omega
  have hcond : ∀ {A : Prop}, o + 8 + 4 ≤ f.bytes.length ∧ o + 20 + 4 ≤ f.bytes.length ∧ A ↔
      o + 24 ≤ f.bytes.length ∧ A := by
    intro A
    constructor
    · exact fun hc => ⟨hc.2.1, hc.2.2⟩
    · exact fun hc => ⟨by omega, hc.1, hc.2⟩
  unfold loadSegmentR
  refine ((bufLoad32_spec hbuf (hidx 8 (by omega))).bind fun pv _ hpv =>
    (bufLoad32_spec hbuf (hidx 20 (by omega))).bind fun pm ho hpm => ?_).iff hcond
  have hlo : (pv &&& ~~~0xFFF#32).toNat / 4096 = g.vaddr / 4096 := by
    rw [toNat_and_not_fff, hvaddr, hpv]
    omega
  have hhi : ((pv + pm + 0xFFF#32) &&& ~~~0xFFF#32).toNat / 4096 = g.pageEnd := by
    unfold Segment.pageEnd
    rw [toNat_and_not_fff, hvaddr, hmemsz, BitVec.toNat_add, BitVec.toNat_add, BitVec.toNat_ofNat,
      hpv, hpm]
    omega
  simp only [hlo, hhi]
  have hend : g.pageEnd ≤ 1048576 := by
    unfold Segment.pageEnd
    omega
  rcases Nat.le_total (g.vaddr / 4096) g.pageEnd with hmono | hempty
  · refine (Spec.loop (G := fun n => CopyInside f.bytes.length (load32 f.mem (o + 8))
        (load32 f.mem (o + 16)) (load32 f.mem (o + 4)) (BitVec.ofNat 32 (n * 4096)))
      (fun n => Spending f s0 pdPhys (g.pageEnd - n + rest)) hmono ?_ fun n t hn1 hn2 ht => ?_).iff
      ?_ |>.post fun t ht => ?_
    · rw [Nat.card_Ico] at h
      exact h
    · have hva : (BitVec.ofNat 32 (n * 4096)).toNat / 4096 = n := by
        rw [BitVec.toNat_ofNat]
        omega
      refine loadPage_spec hb hph ho hva (hentries n (Finset.mem_Ico.mpr ⟨hn1, hn2⟩)) ?_
      rw [show g.pageEnd - (n + 1) + rest + 1 = g.pageEnd - n + rest by omega]
      exact ht
    · simp only [Finset.mem_Ico, and_imp]
    · rw [Nat.sub_self, Nat.zero_add] at ht
      exact ht
  · have hnone : Finset.Ico (g.vaddr / 4096) g.pageEnd = ∅ := Finset.Ico_eq_empty_of_le hempty
    rw [hnone] at h ⊢
    rw [Finset.card_empty, Nat.zero_add] at h
    exact (Spec.loop_empty hempty h).iff
      (iff_of_true trivial fun v hv => absurd hv (Finset.notMem_empty v))

end

/-! ## The header loop -/

/-- A field of the file's header, in a file of at least 52 bytes. -/
theorem field_spec {f : FileImage} {k n : Nat} (h : k + n ≤ f.bytes.length) :
    Spec (· < f.bytes.length) (field k n) True fun _ => True := by
  refine (Spec.touch _).iff (iff_true_intro ?_)
  rw [List.forall_mem_map]
  intro j hj
  rw [List.mem_range] at hj
  omega

section

variable {b : ElfBuf} {f : FileImage} (hp : f.Passes) (hfit : f.Fits)

include hp hfit

theorem phAddr_index {m : Mem} (hb : InBuffer b f m) {i : Nat} (hi : i < f.phnum) :
    bufIndex b (phAddr b m i) = f.phoff i := by
  have hsize := hp.size
  have hle := f.size_le
  unfold maxElfSize at hle
  have hent : f.phentsize = (load16 f.mem 42).toNat := rfl
  have hnum : f.phnum < 65536 := (load16 f.mem 44).isLt
  have hoff : f.phoff i = (load32 f.mem 28).toNat + i * f.phentsize := rfl
  -- the table fits, or every entry is empty and lies at `e_phoff`
  have hwrap : f.phoff i < 2 ^ 32 := by
    by_cases h0 : f.phentsize = 0
    · rw [hoff, h0, Nat.mul_zero]
      exact (load32 f.mem 28).isLt
    · have hin := hfit.table i hi 0 (by omega)
      omega
  have hmul : (BitVec.ofNat 32 i * (load16 f.mem 42).setWidth 32 : U32).toNat =
      (i * f.phentsize) % 2 ^ 32 := by
    have hent16 : f.phentsize < 65536 := (load16 f.mem 42).isLt
    rw [BitVec.toNat_mul, BitVec.toNat_ofNat, BitVec.toNat_setWidth, ← hent,
      Nat.mod_eq_of_lt (show i < 2 ^ 32 by omega),
      Nat.mod_eq_of_lt (show f.phentsize < 2 ^ 32 by omega)]
  unfold bufIndex phAddr ePhoff ePhentsize
  rw [inBuffer_load32 hb (by omega), inBuffer_load16 hb (by omega)]
  generalize (BitVec.ofNat 32 i * (load16 f.mem 42).setWidth 32 : U32) = w at hmul
  rw [show b.addr + load32 f.mem 28 + w - b.addr = load32 f.mem 28 + w by bv_omega,
    BitVec.toNat_add, hmul]
  omega

/-- One turn of the header loop. -/
theorem loadHeader_spec {s0 s : Loader} (hb : InBuffer b f s0.mem) {pdPhys : U32} {i rest : Nat}
    (hi : i < f.phnum) (h : Spending f s0 pdPhys ((f.turns i).card + rest) s) :
    Spec (· < f.bytes.length) (loadHeaderR b pdPhys i s) (f.HeaderInside i)
      (Spending f s0 pdPhys rest) := by
  have hsize := hp.size
  obtain ⟨sp, hinv, _, _⟩ := id h
  have hbuf := hinv.inBuffer hb
  have hph := phAddr_index hp hfit hbuf hi
  have hsplit : True ∧ f.phoff i + 4 ≤ f.bytes.length ∧ (f.isLoad i = true →
      f.phoff i + 24 ≤ f.bytes.length ∧ ((f.segment i).Copies →
        (f.segment i).vaddr % 4096 ≤ (f.segment i).offset ∧
          (f.segment i).offset ≤ f.bytes.length)) ↔ f.HeaderInside i := by
    constructor
    · rintro ⟨_, htype, hload⟩
      exact ⟨htype, fun hl => (hload hl).1, fun hl => (hload hl).2⟩
    · intro hin
      exact ⟨trivial, hin.type, fun hl => ⟨hin.fields hl, hin.start hl⟩⟩
  have haddr : Spec (· < f.bytes.length) (phAddrR b s.mem i) True (· = phAddr b s.mem i) := by
    have hphoff : Spec (· < f.bytes.length) (field 28 4) True fun _ => True := field_spec (by omega)
    have hphent : Spec (· < f.bytes.length) (field 42 2) True fun _ => True := field_spec (by omega)
    refine (hphoff.bind fun _ _ _ => hphent.bind fun _ _ _ =>
      Spec.pure (Q := (· = phAddr b s.mem i)) rfl).iff ?_
    simp only [and_true]
  unfold loadHeaderR
  refine (haddr.bind fun ph _ hphv => ?_).iff hsplit
  rw [hphv]
  refine (bufLoad32_spec hbuf hph).bind fun ty htype hty => ?_
  rw [hty]
  by_cases hl : f.isLoad i = true
  · have hload : ¬(load32 f.mem (f.phoff i) != ptLoad) = true := by
      unfold FileImage.isLoad at hl
      rw [bne_iff_ne, not_not]
      exact beq_iff_eq.mp hl
    have hturns : f.turns i = Finset.Ico ((f.segment i).vaddr / 4096) (f.segment i).pageEnd :=
      if_pos hl
    have hentries : ∀ v ∈ Finset.Ico ((f.segment i).vaddr / 4096) (f.segment i).pageEnd,
        v / 1024 ∈ f.entries := by
      intro v hv
      rw [← hturns] at hv
      exact Finset.mem_biUnion.mpr ⟨i, Finset.mem_range.mpr hi, Finset.mem_image_of_mem _ hv⟩
    rw [if_neg hload]
    rw [hturns] at h
    refine (loadSegment_spec hb hph (g := f.segment i) rfl rfl hentries htype h).iff ?_
    rw [copies_inside f.size_le rfl rfl rfl (hfit.ranges i hi hl)]
    exact ⟨fun hc _ => hc, fun hc => hc hl⟩
  · have hskip : (load32 f.mem (f.phoff i) != ptLoad) = true := by
      unfold FileImage.isLoad at hl
      rw [bne_iff_ne]
      exact fun heq => hl (beq_iff_eq.mpr heq)
    rw [if_pos hskip]
    have hturns : f.turns i = ∅ := if_neg hl
    rw [hturns, Finset.card_empty, Nat.zero_add] at h
    exact (Spec.pure h).iff (iff_of_true trivial fun hl' => absurd hl' hl)

end

/-! ## The call -/

/-- The magic check, of the file in the buffer. -/
theorem elfMagic_iff {b : ElfBuf} {f : FileImage} {m : Mem} (hb : InBuffer b f m)
    (hsize : 52 ≤ f.bytes.length) : elfMagic b m = true ↔ f.Passes := by
  have h0 := hb 0 (by omega)
  rw [Nat.add_zero] at h0
  unfold elfMagic
  rw [h0, hb 1 (by omega), hb 2 (by omega), hb 3 (by omega), Bool.and_eq_true, Bool.and_eq_true,
    Bool.and_eq_true, beq_iff_eq, beq_iff_eq, beq_iff_eq, beq_iff_eq]
  constructor
  · rintro ⟨⟨⟨e0, e1⟩, e2⟩, e3⟩
    exact ⟨hsize, e0, e1, e2, e3⟩
  · rintro ⟨_, e0, e1, e2, e3⟩
    exact ⟨⟨⟨e0, e1⟩, e2⟩, e3⟩

/-- Nothing was allocated and no task registered. -/
def Rejected (b : ElfBuf) (f : FileImage) (s : Loader) : Prop :=
  ∃ s', elfExec b (some f) s = some s' ∧ s'.pmm = s.pmm ∧ s'.sched = s.sched

/-- What passes the two checks is not turned away any more. -/
theorem rejected_iff {b : ElfBuf} {f : FileImage} {s : Loader} : Rejected b f s ↔ ¬f.Passes := by
  have hb := readFile_inBuffer b f s
  unfold Rejected elfExec
  simp only
  by_cases hsize : f.bytes.length < 52
  · rw [if_pos hsize]
    refine iff_of_true ⟨_, rfl, rfl, rfl⟩ fun hp => ?_
    have := hp.size
    omega
  · have hmagic := elfMagic_iff hb (by omega)
    rw [if_neg hsize]
    by_cases hp : f.Passes
    · rw [hmagic.mpr hp, if_neg (show ¬(!true) = true from Bool.false_ne_true)]
      refine iff_of_false ?_ (not_not_intro hp)
      rintro ⟨s', hrun, _, hsched⟩
      obtain ⟨⟨pdPhys, s1⟩, halloc, hload⟩ := Option.bind_eq_some_iff.mp hrun
      obtain ⟨_, _, _, _, _, hadd⟩ := loadProgram_sched halloc hload
      obtain ⟨_, hn, _⟩ := schedAddTask_cases hadd
      rw [hsched] at hn
      omega
    · rw [if_pos (by rw [Bool.not_eq_true', Bool.eq_false_iff]; exact mt hmagic.mp hp)]
      exact iff_of_true ⟨_, rfl, rfl, rfl⟩ hp

/-- Everything read of the buffer is of the file, and what does not fit is turned away. -/
def Validated (b : ElfBuf) (f : FileImage) (s : Loader) : Prop :=
  (elfExecR b (some f) s).Within (· < f.bytes.length) ∧ (¬f.Fits → Rejected b f s)

section

variable {b : ElfBuf} {f : FileImage} {s : Loader}

/-- The header loop, and what follows it. -/
theorem loadProgram_within {s0 : Loader} (hb : InBuffer b f s0.mem) (hp : f.Passes)
    (hfit : f.Fits) {pdPhys : U32}
    (h : Spending f s0 pdPhys (∑ i ∈ Finset.range f.phnum, (f.turns i).card) s) :
    (loadProgramR b pdPhys s).Within (· < f.bytes.length) ↔
      ∀ i, i < f.phnum → f.HeaderInside i := by
  have hsize := hp.size
  obtain ⟨sp, hinv, _, _⟩ := id h
  have hnum : (ePhnum b s.mem).toNat = f.phnum := by
    unfold ePhnum FileImage.phnum
    rw [inBuffer_load16 (hinv.inBuffer hb) (by omega)]
  have hphnum : Spec (· < f.bytes.length) (ePhnumR b s.mem) True
      fun n : U16 => n.toNat = f.phnum := by
    have hfield : Spec (· < f.bytes.length) (field 44 2) True fun _ => True := field_spec (by omega)
    exact (hfield.bind fun _ _ _ => Spec.pure (Q := fun n : U16 => n.toNat = f.phnum) hnum).iff
      (and_iff_left trivial)
  have hloop : Spec (· < f.bytes.length) (forRangeT 0 f.phnum (loadHeaderR b pdPhys) s)
      (∀ i, 0 ≤ i → i < f.phnum → f.HeaderInside i) fun _ => True := by
    refine (Spec.loop (fun i => Spending f s0 pdPhys (∑ k ∈ Finset.Ico i f.phnum, (f.turns k).card))
      (Nat.zero_le _) ?_ fun i t _ hi ht => ?_).post fun _ _ => trivial
    · rw [← Finset.range_eq_Ico]
      exact h
    · rw [Finset.sum_eq_sum_Ico_succ_bot hi] at ht
      exact loadHeader_spec hp hfit hb hi ht
  have htail : ∀ t, (do
      let s ← lift (faulting (loadStack pdPhys t))
      loadTaskR b pdPhys s : Traced Nat Unit Loader).Within (· < f.bytes.length) := by
    intro t
    refine within_bind.mpr ⟨within_lift _, fun t _ => ?_⟩
    have hfield : Spec (· < f.bytes.length) (field 24 4) True fun _ => True := field_spec (by omega)
    unfold loadTaskR eEntryR
    refine within_bind.mpr ⟨within_bind.mpr ⟨hfield.within.mpr trivial, fun _ _ => within_pure _⟩,
      fun e _ => ?_⟩
    exact within_bind.mpr ⟨within_lift _, fun _ _ => within_pure _⟩
  unfold loadProgramR
  rw [hphnum.within_bind (H := (∀ i, 0 ≤ i → i < f.phnum → f.HeaderInside i) ∧ True) fun n _ hn => ?_]
  · exact ⟨fun h i hi => h.2.1 i (Nat.zero_le i) hi, fun h => ⟨trivial, fun i _ hi => h i hi, trivial⟩⟩
  · rw [hn]
    refine hloop.within_bind fun t _ _ => iff_true_intro ?_
    exact htail t

/-- The two checks read the header only. -/
theorem elfMagicR_within {m : Mem} (hsize : 52 ≤ f.bytes.length) :
    (elfMagicR b m).Within (· < f.bytes.length) := by
  have hfield : ∀ k, k < 4 → (field k 1).Within (· < f.bytes.length) := by
    intro k hk
    exact (field_spec (by omega)).within.mpr trivial
  unfold elfMagicR
  refine within_bind.mpr ⟨hfield 0 (by omega), fun _ _ => ?_⟩
  split
  next => exact within_pure _
  next =>
    refine within_bind.mpr ⟨hfield 1 (by omega), fun _ _ => ?_⟩
    split
    next => exact within_pure _
    next =>
      refine within_bind.mpr ⟨hfield 2 (by omega), fun _ _ => ?_⟩
      split
      next => exact within_pure _
      next => exact within_bind.mpr ⟨hfield 3 (by omega), fun _ _ => within_pure _⟩

/-- A file turned away is read inside its bounds. -/
theorem elfExecR_rejected (hp : ¬f.Passes) :
    (elfExecR b (some f) s).Within (· < f.bytes.length) := by
  unfold elfExecR
  simp only
  split
  next => exact within_pure _
  next hsize =>
    have hmagic : elfMagic b (readFile b f s).mem = false := by
      rw [Bool.eq_false_iff]
      exact mt (elfMagic_iff (readFile_inBuffer b f s) (by omega)).mp hp
    refine (within_bind_ok (elfMagicR_result ..)).mpr ⟨elfMagicR_within (by omega), ?_⟩
    rw [hmagic]
    exact within_pure _

/-- Of one that passes, the load decides. -/
theorem elfExecR_passes (hp : f.Passes) {pdPhys : U32} {s1 : Loader}
    (halloc : procAllocPd (readFile b f s) = some (pdPhys, s1)) :
    (elfExecR b (some f) s).Within (· < f.bytes.length) ↔
      (loadProgramR b pdPhys s1).Within (· < f.bytes.length) := by
  have hsize := hp.size
  have hmagic := (elfMagic_iff (readFile_inBuffer b f s) hsize).mpr hp
  unfold elfExecR
  simp only
  rw [if_neg (by omega), within_bind_ok (elfMagicR_result ..), hmagic,
    and_iff_right (elfMagicR_within hsize)]
  have hpd : (lift (faulting (procAllocPd (readFile b f s))) :
      Traced Nat Unit (U32 × Loader)).result = .ok (pdPhys, s1) := by
    rw [result_lift, halloc]
    rfl
  rw [if_neg (show ¬(!true) = true from Bool.false_ne_true), within_bind_ok hpd,
    and_iff_right (within_lift _)]

/-- A file that fits is read inside its bounds exactly if its headers ask for no more. -/
theorem elfExecR_within (hpmm : PmmInv s.pmm) (hres : Reserved s.pmm) (hk : KernelDir s.mem)
    (hp : f.Passes) (hfit : f.Fits) (hdemand : f.demand ≤ (lowFree s.pmm).card) :
    (elfExecR b (some f) s).Within (· < f.bytes.length) ↔ ∀ i, i < f.phnum → f.HeaderInside i := by
  unfold FileImage.demand at hdemand
  obtain ⟨pdPhys, s1, d, halloc, hinv, hpd, hcard⟩ := procAllocPd_low b f hpmm hres hk (by omega)
  have htables := Finset.card_filter_le f.entries (fun e => (freshSpace d).tab e = none)
  rw [elfExecR_passes hp halloc]
  exact loadProgram_within (readFile_inBuffer b f s) hp hfit ⟨freshSpace d, hinv, hpd, by omega⟩

/-- **When `elf_exec` validates its input**, for every file in the buffer and every kernel state
with the pages a fitting file asks for: exactly if the file is turned away by the two checks, or
its headers and segments lie in it, so do the fields read of each header, and no first page
starts before the file. A file with a page below 16 MB is not meant: it may be a page of
`elf_buf`, and then the TLB decides what the loader reads there. -/
theorem elf_validated_iff (hpmm : PmmInv s.pmm) (hres : Reserved s.pmm) (hk : KernelDir s.mem)
    (hroom : f.Passes → f.Fits → f.demand ≤ (lowFree s.pmm).card) :
    Validated b f s ↔ (f.Passes → f.Fits ∧ ∀ i, i < f.phnum → f.HeaderInside i) := by
  unfold Validated
  rw [rejected_iff]
  by_cases hp : f.Passes
  · by_cases hfit : f.Fits
    · rw [elfExecR_within hpmm hres hk hp hfit (hroom hp hfit)]
      exact ⟨fun h _ => ⟨hfit, h.1⟩, fun h => ⟨(h hp).2, fun hno => absurd hfit hno⟩⟩
    · exact iff_of_false (fun h => h.2 hfit hp) fun h => hfit (h hp).1
  · exact iff_of_true ⟨elfExecR_rejected hp, fun _ => hp⟩ fun h => absurd h hp

end

/-! ## Two files -/

/-- The headers of a well-formed file ask for no more than it has. -/
theorem Loadable.inside {f : FileImage} (h : Loadable f) {i : Nat} (hi : i < f.phnum) :
    f.HeaderInside i := by
  have hhead := h.headers i hi
  refine ⟨by omega, fun _ => by omega, fun hl _ => ?_⟩
  have hcongr := (h.segment i hi hl).congr
  have hin := (h.segment i hi hl).in_file
  omega

theorem Loadable.fits {f : FileImage} (h : Loadable f) (hent : f.phentsize ≤ 32) : f.Fits := by
  refine ⟨fun i hi k hk => ?_, fun i hi hl k hk => ?_⟩
  · have hhead := h.headers i hi
    omega
  · have hin := (h.segment i hi hl).in_file
    omega

theorem oneSegment_demand : oneSegment.demand = 5 := by decide

/-- The file of one segment, on a fresh machine. -/
theorem elf_validated_iff_oneSegment : Validated lowBuf oneSegment
    (freshLoader (fun _ => 0#8) 0x2000000#32 (fun _ => newTask 0 0 0 0 0 0 0)) := by
  obtain ⟨hpmm, hres, hk, _⟩ := freshLoader_ready (fun _ => 0#8) 0x2000000#32
    (fun _ => newTask 0 0 0 0 0 0 0)
  refine (elf_validated_iff hpmm hres hk fun _ _ => ?_).mpr fun _ => ?_
  · rw [freshLoader_pmm, lowFree_pmmInit, oneSegment_demand]
    omega
  · exact ⟨oneSegment_loadable.fits (by decide), fun i hi => oneSegment_loadable.inside hi⟩

/-- The same file, linked four bytes further on: its offset in the page is not that in the file. -/
def shiftedSegment : FileImage where
  bytes := oneSegment.bytes.set 60 4
  size_le := by
    rw [List.length_set]
    exact oneSegment.size_le

/-- The header of the same file alone, its program header cut off. -/
def headerOnly : FileImage where
  bytes := oneSegment.bytes.take 52
  size_le := by
    have hle := oneSegment.size_le
    rw [List.length_take]
    omega

theorem shiftedSegment_fits : shiftedSegment.Passes ∧ shiftedSegment.Fits := by
  refine ⟨⟨by decide, by decide⟩, fun i hi => ?_, fun i hi _ => ?_⟩
  · have hnum : shiftedSegment.phnum = 1 := by decide
    rw [hnum] at hi
    rw [show i = 0 by omega]
    decide
  · have hnum : shiftedSegment.phnum = 1 := by decide
    rw [hnum] at hi
    rw [show i = 0 by omega]
    decide

/-- **Neither part of the validation is there**: a file cut off behind its header is loaded, and
one that is complete is read from four bytes before `elf_buf` on. -/
theorem elf_not_validated : ∃ s, PmmInv s.pmm ∧ Reserved s.pmm ∧ KernelDir s.mem ∧
    (¬headerOnly.Fits ∧ ¬Rejected lowBuf headerOnly s) ∧
    shiftedSegment.Fits ∧ ¬(elfExecR lowBuf (some shiftedSegment) s).Within
      (· < shiftedSegment.bytes.length) := by
  obtain ⟨hpmm, hres, hk, _⟩ := freshLoader_ready (fun _ => 0#8) 0x2000000#32
    (fun _ => newTask 0 0 0 0 0 0 0)
  obtain ⟨hp, hfit⟩ := shiftedSegment_fits
  refine ⟨_, hpmm, hres, hk, ⟨fun hfit => ?_, ?_⟩, hfit, ?_⟩
  · have hfirst := hfit.table 0 (by decide) 0 (by decide)
    revert hfirst
    decide
  · rw [rejected_iff, not_not]
    exact ⟨by decide, by decide⟩
  · have hdemand : shiftedSegment.demand = 5 := by decide
    rw [elfExecR_within hpmm hres hk hp hfit (by
      rw [freshLoader_pmm, lowFree_pmmInit, hdemand]
      omega)]
    intro h
    have hstart := (h 0 (by decide)).start (by decide) (by unfold Segment.Copies; decide)
    revert hstart
    decide

end PepinOS
