import PepinOS.Fs.LoadImage

/-!
# A load that succeeds

The loops of `elf_exec` on a `Loadable` file, with enough frames: each runs to
its end, and `elfExec_image` reads the finished address space back through the
processor's walk.

`Progress` is the invariant of both loops. Its `budget` pays for everything not
yet taken, so no allocation fails and none leaves the identity map; `mapFrame_total`
spends it, one frame for the page and one for the page table when the directory
entry has none.
-/

namespace PepinOS

/-! ## The budget -/

theorem lowFree_erase {p p' : Pmm} {k : Nat} (hk : k ∈ freeSet p) (hk4 : k < 4096)
    (hset : freeSet p' = (freeSet p).erase k) : (lowFree p').card + 1 = (lowFree p).card := by
  have hlow : lowFree p' = (lowFree p).erase k := by
    unfold lowFree
    rw [hset]
    ext j
    simp only [Finset.mem_filter, Finset.mem_erase]
    tauto
  have hmem : k ∈ lowFree p := Finset.mem_filter.mpr ⟨hk, hk4⟩
  rw [hlow, Finset.card_erase_of_mem hmem]
  have := Finset.card_pos.mpr ⟨k, hmem⟩
  omega

/-- With a low page free, the allocator hands out a low page. -/
theorem alloc_low {p : Pmm} (hp : PmmInv p) (hpos : 0 < (lowFree p).card) :
    ∃ k ∈ freeSet p, k < 4096 ∧ (pmmAllocPage p).1.toNat = k * 4096 ∧
      freeSet (pmmAllocPage p).2 = (freeSet p).erase k ∧ PmmInv (pmmAllocPage p).2 ∧
      (lowFree (pmmAllocPage p).2).card + 1 = (lowFree p).card := by
  obtain ⟨j, hj⟩ := Finset.card_pos.mp hpos
  obtain ⟨hjf, hj4⟩ := Finset.mem_filter.mp hj
  obtain ⟨k, hk, hmin, haddr, hset, hinv⟩ := alloc_some hp ⟨j, hjf⟩
  have hk4 : k < 4096 := Nat.lt_of_le_of_lt (hmin j hjf) hj4
  exact ⟨k, hk, hk4, haddr, hset, hinv, lowFree_erase hk hk4 hset⟩

/-- What mapping page `v` takes besides its frame. -/
def tableCost (sp : Space) (v : Nat) : Nat := if sp.tab (v / 1024) = none then 1 else 0

/-- Allocating a frame and mapping it succeeds while a free low page remains. -/
theorem mapFrame_total {s0 s : Loader} {sp : Space} (h : LoadInv s0 sp s) {pdPhys virt : U32}
    (hpd : pdPhys.toNat = sp.dir * 4096) {v : Nat} (hv : virt.toNat / 4096 = v) {mem : Mem}
    (hbudget : 2 + tableCost sp v ≤ (lowFree s.pmm).card)
    (hmem : ∀ x, x / 4096 ≠ (pmmAllocPage s.pmm).1.toNat / 4096 → mem x = s.mem x) :
    pageMapped (pmmAllocPage s.pmm).1 ∧
    ∃ s' sp', procMapPage pdPhys virt (pmmAllocPage s.pmm).1 elfFlags
        { s with mem := mem, pmm := (pmmAllocPage s.pmm).2 } = some s' ∧ LoadInv s0 sp' s' ∧
      MapsPage sp s v (fun j => mem ((pmmAllocPage s.pmm).1.toNat + j)) sp' s' ∧
      (lowFree s'.pmm).card + 1 + tableCost sp v = (lowFree s.pmm).card := by
  obtain ⟨k, hk, hk4, haddr, hset, hpmm, hcard⟩ := alloc_low h.pmm (by omega)
  have hkk : (pmmAllocPage s.pmm).1.toNat / 4096 = k := by rw [haddr]; omega
  have hmapped : pageMapped (pmmAllocPage s.pmm).1 := (pageMapped_iff haddr).mpr hk4
  have hmem' : ∀ x, x / 4096 ≠ k → mem x = s.mem x := by rw [← hkk]; exact hmem
  have hclaim : LoadInv s0 (sp.claim k (.page v))
      { s with mem := mem, pmm := (pmmAllocPage s.pmm).2 } :=
    h.claim hk hset hpmm (fun _ => hk4) hmem'
  have hown : (sp.claim k (.page v)).own k = some (.page v) := Function.update_self ..
  obtain ⟨j, hj⟩ := Finset.card_pos.mp (show 0 < (lowFree (pmmAllocPage s.pmm).2).card by omega)
  obtain ⟨hjf, hj4⟩ := Finset.mem_filter.mp hj
  refine ⟨hmapped, ?_⟩
  rcases procMapPage_cases hclaim hpd hv haddr hown (fun _ => ⟨j, hjf⟩) with
    ⟨_, _, hall⟩ | ⟨s', _, hsome, _, _, _, _, _, hsame, hnew⟩
  · exact absurd (hall j hjf) (by omega)
  · have hcard' : (lowFree s'.pmm).card + 1 + tableCost sp v = (lowFree s.pmm).card := by
      unfold tableCost
      split
      next ht =>
        obtain ⟨i, hi, hmin, hset'⟩ := hnew ht
        have hlow : (lowFree s'.pmm).card + 1 = (lowFree (pmmAllocPage s.pmm).2).card :=
          lowFree_erase hi (Nat.lt_of_le_of_lt (hmin j hjf) hj4) hset'
        omega
      next ht =>
        unfold lowFree at hcard ⊢
        rw [hsame ht]
        omega
    have hne : (freeSet s'.pmm).Nonempty := by
      obtain ⟨i, hi⟩ := Finset.card_pos.mp (show 0 < (lowFree s'.pmm).card by omega)
      exact ⟨i, (Finset.mem_filter.mp hi).1⟩
    obtain ⟨sp', h', hmaps⟩ := mapFrame_step h hpd hv hmapped hmem hsome hne
    exact ⟨s', sp', hsome, h', hmaps, hcard'⟩

/-- It is among the tables still missing for a set of directory entries. -/
theorem tableCost_le {sp : Space} {v : Nat} {entries : Finset Nat} (hv : v / 1024 ∈ entries) :
    tableCost sp v ≤ (entries.filter (fun e => sp.tab e = none)).card := by
  unfold tableCost
  split
  next ht => exact Finset.card_pos.mpr ⟨v / 1024, Finset.mem_filter.mpr ⟨hv, ht⟩⟩
  next => exact Nat.zero_le _

/-- Mapping page `v` pays for the table of its entry and no other. -/
theorem MapsPage.tables {sp sp' : Space} {s s' : Loader} {v : Nat} {c : Mem}
    (hmaps : MapsPage sp s v c sp' s') {entries : Finset Nat} (hv : v / 1024 ∈ entries) :
    (entries.filter (fun e => sp'.tab e = none)).card + tableCost sp v =
      (entries.filter (fun e => sp.tab e = none)).card := by
  have herase : entries.filter (fun e => sp'.tab e = none) =
      (entries.filter (fun e => sp.tab e = none)).erase (v / 1024) := by
    ext e
    rw [Finset.mem_erase, Finset.mem_filter, Finset.mem_filter]
    by_cases he : e = v / 1024
    · subst he
      exact ⟨fun hm => absurd hm.2 hmaps.tab_self, fun hm => absurd rfl hm.1⟩
    · rw [hmaps.tab_ne e he]
      exact ⟨fun hm => ⟨he, hm⟩, fun hm => hm.2⟩
  rw [herase]
  unfold tableCost
  split
  next ht =>
    have hmem : v / 1024 ∈ entries.filter (fun e => sp.tab e = none) :=
      Finset.mem_filter.mpr ⟨hv, ht⟩
    rw [Finset.card_erase_of_mem hmem]
    have := Finset.card_pos.mpr ⟨_, hmem⟩
    omega
  next ht =>
    have hno : v / 1024 ∉ entries.filter (fun e => sp.tab e = none) := fun hm =>
      ht (Finset.mem_filter.mp hm).2
    rw [Finset.erase_eq_of_notMem hno, Nat.add_zero]

/-! ## Progress -/

/-- The pages `done` are mapped and hold what the file says; the rest can be paid. -/
structure Progress (f : FileImage) (s0 : Loader) (pdPhys : U32) (done : Finset Nat) (sp : Space)
    (s : Loader) : Prop where
  inv : LoadInv s0 sp s
  pd : pdPhys.toNat = sp.dir * 4096
  sub : done ⊆ f.allPages
  budget : (f.allPages \ done).card +
    ((f.allPages.image (· / 1024)).filter (fun e => sp.tab e = none)).card + 1 ≤
      (lowFree s.pmm).card
  mapped : ∀ v ∈ done, ∃ fr, sp.page v = some fr ∧ Wanted f v (fun j => s.mem (fr * 4096 + j))
  unmapped : ∀ v, v ∉ done → sp.page v = none

/-- No frame the loader writes is one of the buffer. -/
theorem LoadInv.inBuffer {s0 s : Loader} {sp : Space} (h : LoadInv s0 sp s) {b : ElfBuf}
    {f : FileImage} (hb : InBuffer b f s0.mem) : InBuffer b f s.mem := by
  intro k hk
  have hle := f.end_le b
  have hown : sp.own ((b.addr.toNat + k) / 4096) = none := by
    cases ho : sp.own ((b.addr.toNat + k) / 4096) with
    | none => rfl
    | some r =>
      have := h.own_low ho
      omega
  rw [h.mem_kept _ hown (by unfold InShared sharedTable kernelPtAddr; omega)]
  exact hb k hk

/-- Nor does clearing a frame it has taken. -/
theorem LoadInv.inBuffer_zeroed {s0 s : Loader} {sp : Space} (h : LoadInv s0 sp s) {b : ElfBuf}
    {f : FileImage} (hb : InBuffer b f s0.mem) {k : Nat} (hk : 1024 ≤ k) :
    InBuffer b f (memzero s.mem (k * 4096) 4096) := by
  intro j hj
  have hle := f.end_le b
  rw [memzero_other (by omega)]
  exact h.inBuffer hb j hj

/-- A page still to do costs its frame, and its table if that is missing. -/
theorem Progress.cost {f : FileImage} {s0 s : Loader} {pdPhys : U32} {done : Finset Nat}
    {sp : Space} (h : Progress f s0 pdPhys done sp s) {v : Nat} (hv : v ∈ f.allPages)
    (hnd : v ∉ done) : 2 + tableCost sp v ≤ (lowFree s.pmm).card := by
  have hpage : 0 < (f.allPages \ done).card :=
    Finset.card_pos.mpr ⟨v, Finset.mem_sdiff.mpr ⟨hv, hnd⟩⟩
  have htab : tableCost sp v ≤
      ((f.allPages.image (· / 1024)).filter (fun e => sp.tab e = none)).card :=
    tableCost_le (Finset.mem_image_of_mem _ hv)
  have := h.budget
  omega

/-- One more page done. -/
theorem Progress.addPage {f : FileImage} {s0 s s' : Loader} {pdPhys : U32} {done : Finset Nat}
    {sp sp' : Space} (h : Progress f s0 pdPhys done sp s) {v : Nat} (hv : v ∈ f.allPages)
    (hnd : v ∉ done) (h' : LoadInv s0 sp' s') {c : Nat → U8}
    (hmaps : MapsPage sp s v c sp' s') (hc : Wanted f v c)
    (hcard : (lowFree s'.pmm).card + 1 + tableCost sp v = (lowFree s.pmm).card) :
    Progress f s0 pdPhys (insert v done) sp' s' := by
  obtain ⟨fr, hpage, _, hcont⟩ := hmaps.page
  refine ⟨h', by rw [hmaps.extends_.dir]; exact h.pd, Finset.insert_subset hv h.sub, ?_, ?_, ?_⟩
  · have hpages : (f.allPages \ insert v done).card + 1 = (f.allPages \ done).card := by
      have hmem : v ∈ f.allPages \ done := Finset.mem_sdiff.mpr ⟨hv, hnd⟩
      rw [Finset.sdiff_insert, Finset.card_erase_of_mem hmem]
      have := Finset.card_pos.mpr ⟨v, hmem⟩
      omega
    have htabs := hmaps.tables (Finset.mem_image_of_mem (· / 1024) hv)
    have := h.budget
    omega
  · intro w hw
    rw [hpage]
    by_cases hwv : w = v
    · subst hwv
      rw [Function.update_self]
      exact ⟨fr, rfl, hc.congr hcont⟩
    · rw [Function.update_of_ne hwv]
      obtain ⟨fw, hfw, hwant⟩ := h.mapped w (Finset.mem_of_mem_insert_of_ne hw hwv)
      have hkeep : ∀ j, j < 4096 → s'.mem (fw * 4096 + j) = s.mem (fw * 4096 + j) := fun j hj =>
        hmaps.extends_.frame fw w (h.inv.page_own w fw hfw) _ (by omega)
      exact ⟨fw, hfw, hwant.congr hkeep⟩
  · intro w hw
    rw [Finset.mem_insert, not_or] at hw
    rw [hpage, Function.update_of_ne hw.1]
    exact h.unmapped w hw.2

/-! ## One page -/

section

variable {b : ElfBuf} {f : FileImage} {s0 s : Loader} {sp : Space} (h : LoadInv s0 sp s)
  {pdPhys : U32} (hpd : pdPhys.toNat = sp.dir * 4096)

include h hpd

/-- One turn of the page loop maps its page, with what the file has for it. -/
theorem loadPage_maps (hf : f.Complete) (hb : InBuffer b f s0.mem) {i : Nat} (hi : i < f.phnum)
    (hg : (f.segment i).Placed f.bytes.length) {ph vaddr : U32}
    (hph : ph.toNat = b.addr.toNat + f.phoff i) {v : Nat} (hv : v ∈ (f.segment i).pages)
    (hva : vaddr.toNat = v * 4096) (hcost : 2 + tableCost sp v ≤ (lowFree s.pmm).card) :
    ∃ s' sp' c, loadPage b pdPhys ph vaddr s = some s' ∧ LoadInv s0 sp' s' ∧
      MapsPage sp s v c sp' s' ∧ (∀ j, j < 4096 → c j = (f.segment i).byte f v j) ∧
      (lowFree s'.pmm).card + 1 + tableCost sp v = (lowFree s.pmm).card := by
  have hpage : vaddr.toNat / 4096 = v := by omega
  obtain ⟨k, hk, hk4, haddr, _⟩ := alloc_low h.pmm (by omega)
  have hk1 := h.free_ge hk
  -- the buffer is still there after the frame has been cleared
  have hbuf : InBuffer b f (memzero s.mem (pmmAllocPage s.pmm).1.toNat 4096) := by
    rw [haddr]
    exact h.inBuffer_zeroed hb hk1
  obtain ⟨m, hfill, hbytes⟩ := fillPage_total hbuf hf hi hg hph hv hva haddr hk1 (by
    intro j hj
    rw [haddr]
    exact memzero_page (by omega))
  have hmem : ∀ x, x / 4096 ≠ (pmmAllocPage s.pmm).1.toNat / 4096 → m x = s.mem x :=
    fun x hx => (fillPage_other hfill haddr hx).trans (memzero_otherPage haddr hx)
  obtain ⟨hmapped, s', sp', hrun, h', hmaps, hcard⟩ := mapFrame_total h hpd hpage hcost hmem
  refine ⟨s', sp', _, ?_, h', hmaps, fun j hj => ?_, hcard⟩
  · simp only [loadPage]
    rw [if_pos hmapped, hfill]
    exact hrun
  · rw [haddr]
    exact hbytes j hj

/-- The stack's page is empty. -/
theorem loadStack_maps (hcost : 2 + tableCost sp 0x40100 ≤ (lowFree s.pmm).card) :
    ∃ s' sp' c, loadStack pdPhys s = some s' ∧ LoadInv s0 sp' s' ∧
      MapsPage sp s 0x40100 c sp' s' ∧ (∀ j, j < 4096 → c j = 0#8) ∧
      (lowFree s'.pmm).card + 1 + tableCost sp 0x40100 = (lowFree s.pmm).card := by
  have hstackPage : userStackVirt.toNat / 4096 = 0x40100 := rfl
  obtain ⟨k, _, _, haddr, _⟩ := alloc_low h.pmm (by omega)
  have hmem : ∀ x, x / 4096 ≠ (pmmAllocPage s.pmm).1.toNat / 4096 →
      memzero s.mem (pmmAllocPage s.pmm).1.toNat 4096 x = s.mem x :=
    fun x hx => memzero_otherPage haddr hx
  obtain ⟨hmapped, s', sp', hrun, h', hmaps, hcard⟩ := mapFrame_total h hpd hstackPage hcost hmem
  refine ⟨s', sp', _, ?_, h', hmaps, fun j hj => ?_, hcard⟩
  · simp only [loadStack]
    rw [if_pos hmapped]
    exact hrun
  · rw [haddr]
    exact memzero_page (by omega)

end

/-! ## The loops -/

section

variable {b : ElfBuf} {f : FileImage} (hf : Loadable f) {s0 : Loader}
  (hb : InBuffer b f s0.mem) {pdPhys : U32}

include hf hb

/-- One turn of the page loop. -/
theorem loadPage_total {i : Nat} (hi : i < f.phnum) (hl : f.isLoad i = true) {ph vaddr : U32}
    (hph : ph.toNat = b.addr.toNat + f.phoff i) {v : Nat} (hv : v ∈ (f.segment i).pages)
    (hva : vaddr.toNat = v * 4096) {done : Finset Nat} {sp : Space} {s : Loader}
    (h : Progress f s0 pdPhys done sp s) (hnd : v ∉ done) :
    ∃ s' sp', loadPage b pdPhys ph vaddr s = some s' ∧
      Progress f s0 pdPhys (insert v done) sp' s' := by
  have hva' := segment_sub hi hl hv
  obtain ⟨s', sp', c, hrun, h', hmaps, hbytes, hcard⟩ := loadPage_maps h.inv h.pd hf.complete hb hi
    (hf.segment i hi hl).placed hph hv hva (h.cost hva' hnd)
  refine ⟨s', sp', hrun, h.addPage hva' hnd h' hmaps ⟨?_, ?_⟩ hcard⟩
  · intro i' hi' hl' hv' j hj
    have hii : i' = i := by
      by_contra hne
      exact Finset.disjoint_left.mp (hf.disjoint i' i hi' hi hl' hl hne) hv' hv
    rw [hii]
    exact hbytes j hj
  · intro hstack
    rw [hstack] at hv
    exact absurd hv (hf.segment i hi hl).off_stack

/-- The page loop of one header. -/
theorem loadSegment_total {i : Nat} (hi : i < f.phnum) (hl : f.isLoad i = true) {ph : U32}
    (hph : ph.toNat = b.addr.toNat + f.phoff i) {done : Finset Nat} {sp : Space} {s : Loader}
    (h : Progress f s0 pdPhys done sp s) (hdisj : Disjoint done (f.segment i).pages) :
    ∃ s' sp', loadSegment b pdPhys ph s = some s' ∧
      Progress f s0 pdPhys (done ∪ (f.segment i).pages) sp' s' := by
  have hbuf := h.inv.inBuffer hb
  have hwrap := (hf.segment i hi hl).no_wrap
  rw [loadSegment_of_complete hbuf hf.complete hi hph rfl, Nat.mod_eq_of_lt hwrap]
  have hpages : ∀ n, n ∈ (f.segment i).pages ↔ (f.segment i).vaddr / 4096 ≤ n ∧
      n < ((f.segment i).vaddr + (f.segment i).memsz + 0xFFF) / 4096 := fun n => Finset.mem_Ico
  have hle : (f.segment i).vaddr / 4096 ≤
      ((f.segment i).vaddr + (f.segment i).memsz + 0xFFF) / 4096 := by omega
  obtain ⟨s', hrun, sp', h'⟩ := forRangeM_total
    (fun n s => ∃ sp, Progress f s0 pdPhys (done ∪ Finset.Ico ((f.segment i).vaddr / 4096) n) sp s)
    hle
    ⟨sp, by rw [Finset.Ico_self, Finset.union_empty]; exact h⟩
    (f := fun n s => loadPage b pdPhys ph (BitVec.ofNat 32 (n * 4096)) s) (by
      rintro n t hlo' hhi' ⟨spt, ht⟩
      have hn : n ∈ (f.segment i).pages := (hpages n).mpr ⟨hlo', hhi'⟩
      have hva : (BitVec.ofNat 32 (n * 4096)).toNat = n * 4096 := by
        rw [BitVec.toNat_ofNat, Nat.mod_eq_of_lt (by omega)]
      have hnd : n ∉ done ∪ Finset.Ico ((f.segment i).vaddr / 4096) n := by
        rw [Finset.mem_union, Finset.mem_Ico]
        rintro (hm | hm)
        · exact Finset.disjoint_left.mp hdisj hm hn
        · omega
      obtain ⟨t', spt', hrun, ht'⟩ := loadPage_total hf hb hi hl hph hn hva ht hnd
      refine ⟨t', hrun, spt', ?_⟩
      have hico : insert n (Finset.Ico ((f.segment i).vaddr / 4096) n) =
          Finset.Ico ((f.segment i).vaddr / 4096) (n + 1) := by
        ext x
        rw [Finset.mem_insert, Finset.mem_Ico, Finset.mem_Ico]
        omega
      rw [← hico, Finset.union_insert]
      exact ht')
  exact ⟨s', sp', hrun, h'⟩

/-- The header loop, up to header `n`. -/
theorem loadHeaders_total {sp : Space} {s : Loader} (h : Progress f s0 pdPhys ∅ sp s) {n : Nat}
    (hn : n ≤ f.phnum) :
    ∃ s' sp', forRangeM 0 n (loadHeader b pdPhys) s = some s' ∧
      Progress f s0 pdPhys (f.pagesUpTo n) sp' s' := by
  have h0 : f.pagesUpTo 0 = ∅ := rfl
  obtain ⟨s', hrun, sp', h'⟩ := forRangeM_total
    (fun i s => ∃ sp, Progress f s0 pdPhys (f.pagesUpTo i) sp s) (Nat.zero_le n)
    ⟨sp, by rw [h0]; exact h⟩ (f := loadHeader b pdPhys) (by
      rintro i t _ hin ⟨spt, ht⟩
      have hi : i < f.phnum := Nat.lt_of_lt_of_le hin hn
      have hbuf := ht.inv.inBuffer hb
      rw [loadHeader_of_complete hbuf hf.complete hi rfl, pagesUpTo_succ]
      by_cases hl : f.isLoad i = true
      · rw [if_pos hl, if_pos hl]
        -- pages of an earlier header are not this one's
        have hdisj : Disjoint (f.pagesUpTo i) (f.segment i).pages := by
          rw [Finset.disjoint_left]
          intro v hv hvi
          obtain ⟨j, hj, hjl, hvj⟩ := mem_pagesUpTo.mp hv
          exact Finset.disjoint_left.mp
            (hf.disjoint j i (by omega) hi hjl hl (by omega)) hvj hvi
        obtain ⟨t', spt', hrun, ht'⟩ := loadSegment_total hf hb hi hl
          (phAddr_of_complete hbuf hf.complete hi) ht hdisj
        exact ⟨t', hrun, spt', ht'⟩
      · rw [if_neg hl, if_neg hl]
        exact ⟨t, rfl, spt, ht⟩)
  exact ⟨s', sp', hrun, h'⟩

omit hb in
/-- The user stack. -/
theorem loadStack_total {sp : Space} {s : Loader}
    (h : Progress f s0 pdPhys (f.pagesUpTo f.phnum) sp s) :
    ∃ s' sp', loadStack pdPhys s = some s' ∧ Progress f s0 pdPhys f.allPages sp' s' := by
  have hstack : 0x40100 ∉ f.pagesUpTo f.phnum := by
    intro hm
    obtain ⟨i, hi, hl, hv⟩ := mem_pagesUpTo.mp hm
    exact (hf.segment i hi hl).off_stack hv
  have hmem40 : 0x40100 ∈ f.allPages := Finset.mem_insert_self ..
  obtain ⟨s', sp', c, hrun, h', hmaps, hzero, hcard⟩ :=
    loadStack_maps h.inv h.pd (h.cost hmem40 hstack)
  refine ⟨s', sp', hrun, h.addPage hmem40 hstack h' hmaps ⟨?_, fun _ => hzero⟩ hcard⟩
  intro i hi hl hv
  exact absurd (mem_pagesUpTo.mpr ⟨i, hi, hl, hv⟩) hstack

end

/-! ## The finished address space -/

theorem filterMap_nodup {α β : Type} {g : α → Option β} {l : List α} (hl : l.Nodup)
    (hinj : ∀ a ∈ l, ∀ a' ∈ l, ∀ b, g a = some b → g a' = some b → a = a') :
    (l.filterMap g).Nodup := by
  unfold List.Nodup
  rw [List.pairwise_filterMap]
  refine hl.imp_of_mem ?_
  intro a a' ha ha' hne b hb b' hb' heq
  exact hne (hinj a ha a' ha' b hb (heq ▸ hb'))

/-- The frames of a finished load have different roles, so they differ. -/
theorem usedFrames_nodup {s0 s : Loader} {sp : Space} (h : LoadInv s0 sp s) {cr3 kstackTop : U32}
    (hcr3 : cr3.toNat = sp.dir * 4096) {k : Nat} (hk : kstackTop.toNat = k * 4096 + 4096)
    (hown : sp.own k = some .kstack) : (usedFrames s.mem cr3 kstackTop).Nodup := by
  have htab : ∀ e t, e ∈ List.range' 4 1020 → tableFrame s.mem cr3 e = some t →
      sp.own t = some (.table e) := by
    intro e t he ht
    rw [List.mem_range'_1] at he
    rw [h.tableFrame_eq hcr3 (by omega)] at ht
    exact h.tab_own e t he.1 ht
  have hpage : ∀ v fr, v ∈ List.range' 4096 1044480 → pageFrame s.mem cr3 v = some fr →
      sp.own fr = some (.page v) := by
    intro v fr hv hfr
    rw [List.mem_range'_1] at hv
    rw [h.pageFrame_eq hcr3 hv.1 (by omega)] at hfr
    exact h.page_own v fr hfr
  have htabs : ∀ t, t ∈ (List.range' 4 1020).filterMap (tableFrame s.mem cr3) →
      ∃ e, sp.own t = some (.table e) := by
    intro t ht
    obtain ⟨e, he, het⟩ := List.mem_filterMap.mp ht
    exact ⟨e, htab e t he het⟩
  have hpages : ∀ fr, fr ∈ (List.range' 4096 1044480).filterMap (pageFrame s.mem cr3) →
      ∃ v, sp.own fr = some (.page v) := by
    intro fr hfr
    obtain ⟨v, hv, hvf⟩ := List.mem_filterMap.mp hfr
    exact ⟨v, hpage v fr hv hvf⟩
  have hd : cr3.toNat / 4096 = sp.dir := by omega
  have hs : kstackTop.toNat / 4096 - 1 = k := by omega
  unfold usedFrames
  rw [hd, hs, List.nodup_cons, List.nodup_cons, List.nodup_append]
  refine ⟨fun hm => ?_, fun hm => ?_, ?_, ?_, fun t ht fr hfr heq => ?_⟩
  · rcases List.mem_cons.mp hm with heq | hm
    · have hdir := h.dir_own
      rw [heq, hown] at hdir
      cases hdir
    · rcases List.mem_append.mp hm with hm | hm
      · obtain ⟨e, ho⟩ := htabs _ hm
        rw [h.dir_own] at ho
        cases ho
      · obtain ⟨v, ho⟩ := hpages _ hm
        rw [h.dir_own] at ho
        cases ho
  · rcases List.mem_append.mp hm with hm | hm
    · obtain ⟨e, ho⟩ := htabs _ hm
      rw [hown] at ho
      cases ho
    · obtain ⟨v, ho⟩ := hpages _ hm
      rw [hown] at ho
      cases ho
  · refine filterMap_nodup (List.nodup_range' ..) fun e he e' he' t ht ht' => ?_
    have ho := htab e t he ht
    rw [htab e' t he' ht'] at ho
    injection ho with ho
    injection ho with ho
    exact ho.symm
  · refine filterMap_nodup (List.nodup_range' ..) fun v hv v' hv' fr hfr hfr' => ?_
    have ho := hpage v fr hv hfr
    rw [hpage v' fr hv' hfr'] at ho
    injection ho with ho
    injection ho with ho
    exact ho.symm
  · obtain ⟨e, ho⟩ := htabs t ht
    obtain ⟨v, ho'⟩ := hpages fr hfr
    rw [heq, ho'] at ho
    cases ho

/-- The byte the processor finds at `v` through `cr3`. -/
def byteAt (m : Mem) (cr3 v : U32) : Option U8 := (translate m cr3 v).map m

/-- A mapped page of a load, read through the walk. -/
theorem LoadInv.byteAt_eq {s0 s : Loader} {sp : Space} (h : LoadInv s0 sp s) {cr3 v : U32}
    (hcr3 : cr3.toNat = sp.dir * 4096) (hv : 4096 ≤ v.toNat / 4096) {f : Nat}
    (hp : sp.page (v.toNat / 4096) = some f) :
    byteAt s.mem cr3 v = some (s.mem (f * 4096 + v.toNat % 4096)) := by
  have hlt := v.isLt
  unfold byteAt
  rw [translate_eq_pageFrame, h.pageFrame_eq hcr3 hv (by omega), hp]
  rfl

/-- Reading the file into its buffer does not touch the kernel's directory. -/
theorem readFile_kernelDir {b : ElfBuf} {f : FileImage} {s : Loader} (hk : KernelDir s.mem) :
    KernelDir (readFile b f s).mem :=
  kernelDir_congr hk fun x hx => readFile_high (by omega)

/-- A load that succeeds: the task it registers, and the address space behind it. -/
structure Loaded (b : ElfBuf) (f : FileImage) (s s' : Loader) (sp : Space) (t : Task) : Prop where
  run : elfExec b (some f) s = some s'
  ntasks : s'.sched.ntasks = s.sched.ntasks + 1
  task : ∀ i : Fin 8, i.val = s.sched.ntasks → s'.sched.pool i = t
  inv : LoadInv (readFile b f s) sp { s' with sched := s.sched }
  cr3 : t.cr3.toNat = sp.dir * 4096
  kstack : ∃ k, t.kstackTop.toNat = k * 4096 + 4096 ∧ sp.own k = some .kstack
  mapped : ∀ v ∈ f.allPages, ∃ fr, sp.page v = some fr ∧ Wanted f v (fun j => s'.mem (fr * 4096 + j))
  unmapped : ∀ v, v ∉ f.allPages → sp.page v = none

/-- The fresh directory, where a low page is free. -/
theorem procAllocPd_low (b : ElfBuf) (f : FileImage) {s : Loader} (hpmm : PmmInv s.pmm)
    (hres : Reserved s.pmm) (hk : KernelDir s.mem) (hlow : 0 < (lowFree s.pmm).card) :
    ∃ pdPhys s1 d, procAllocPd (readFile b f s) = some (pdPhys, s1) ∧
      LoadInv (readFile b f s) (freshSpace d) s1 ∧ pdPhys.toNat = (freshSpace d).dir * 4096 ∧
      (lowFree s1.pmm).card + 1 = (lowFree s.pmm).card := by
  have hk0 : KernelDir (readFile b f s).mem := readFile_kernelDir hk
  obtain ⟨j, hj⟩ := Finset.card_pos.mp hlow
  obtain ⟨hjf, hj4⟩ := Finset.mem_filter.mp hj
  rcases procAllocPd_step (show PmmInv (readFile b f s).pmm from hpmm) hres hk0 ⟨j, hjf⟩ with
    ⟨_, hall⟩ | ⟨pdPhys, s1, d, halloc, h1, hpd, hd, hmin, hset⟩
  · exact absurd (hall j hjf) (by omega)
  · exact ⟨pdPhys, s1, d, halloc, h1, hpd,
      lowFree_erase hd (Nat.lt_of_le_of_lt (hmin j hjf) hj4) hset⟩

/-- The fresh directory, with everything still to do. -/
theorem procAllocPd_total (b : ElfBuf) {f : FileImage} {s : Loader} (hpmm : PmmInv s.pmm)
    (hres : Reserved s.pmm) (hk : KernelDir s.mem) (hfree : f.frames ≤ (lowFree s.pmm).card) :
    ∃ pdPhys s1 d, procAllocPd (readFile b f s) = some (pdPhys, s1) ∧
      Progress f (readFile b f s) pdPhys ∅ (freshSpace d) s1 := by
  unfold FileImage.frames at hfree
  obtain ⟨pdPhys, s1, d, halloc, h1, hpd, hcard1⟩ := procAllocPd_low b f hpmm hres hk (by omega)
  refine ⟨pdPhys, s1, d, halloc, h1, hpd, Finset.empty_subset _, ?_,
    fun v hv => absurd hv (Finset.notMem_empty v), fun v _ => rfl⟩
  have hsub := Finset.card_filter_le (f.allPages.image (· / 1024))
    (fun e => (freshSpace d).tab e = none)
  rw [Finset.sdiff_empty]
  omega

/-- A complete file passes the checks. -/
theorem elfExec_of_complete {b : ElfBuf} {f : FileImage} (hf : f.Complete) (s : Loader) :
    elfExec b (some f) s =
      (procAllocPd (readFile b f s)).bind fun (pdPhys, s) => loadProgram b pdPhys s := by
  have hsize := hf.size
  have hmagic : ¬(!elfMagic b (readFile b f s).mem) = true := by
    rw [elfMagic_of_complete (readFile_inBuffer b f s) hf]
    simp
  simp only [elfExec]
  rw [if_neg (by omega), if_neg hmagic]

/-- The kernel stack and the registration, where a low page is free and the pool has a
slot. -/
theorem loadTask_total (b : ElfBuf) (pdPhys : U32) {s0 s : Loader} {sp : Space}
    (h : LoadInv s0 sp s) (hlow : 0 < (lowFree s.pmm).card) (hn : s.sched.ntasks < maxTasks) :
    ∃ s' k t, loadTask b pdPhys s = some s' ∧ s'.mem = s.mem ∧
      s'.sched.ntasks = s.sched.ntasks + 1 ∧
      (∀ i : Fin 8, i.val = s.sched.ntasks → s'.sched.pool i = t) ∧
      LoadInv s0 (sp.claim k .kstack) { s' with sched := s.sched } ∧
      t.cr3 = pdPhys ∧ t.kstackTop.toNat = k * 4096 + 4096 := by
  obtain ⟨k, hkf, hk4, haddr, hkset, hkinv, _⟩ := alloc_low h.pmm hlow
  have hclaim : LoadInv s0 (sp.claim k .kstack)
      { mem := s.mem, pmm := (pmmAllocPage s.pmm).2, sched := s.sched } :=
    h.claim hkf hkset hkinv (fun hc => absurd rfl hc) (fun _ _ => rfl)
  have htop : ((pmmAllocPage s.pmm).1 + 4096#32).toNat = k * 4096 + 4096 := by
    rw [BitVec.toNat_add, haddr, BitVec.toNat_ofNat]
    omega
  obtain ⟨sched, hadd, hnt, hpool⟩ := schedAddTask_some hn
    (eEntry b s.mem) 0x23#32 0x202#32 (userStackVirt + 0xFF0#32) 0x33#32 pdPhys
    ((pmmAllocPage s.pmm).1 + 4096#32)
  refine ⟨{ s with pmm := (pmmAllocPage s.pmm).2, sched := sched }, k,
    newTask (eEntry b s.mem) 0x23#32 0x202#32 (userStackVirt + 0xFF0#32) 0x33#32 pdPhys
      ((pmmAllocPage s.pmm).1 + 4096#32), ?_, rfl, hnt, ?_, hclaim, rfl, htop⟩
  · simp only [loadTask, hadd, Option.bind_eq_bind, Option.bind_some]
  · intro i hi
    show sched.pool i = _
    rw [hpool, show i = ⟨s.sched.ntasks, hn⟩ from Fin.ext hi, Function.update_self]

/-- With frames enough the load of a well-formed file succeeds. -/
theorem elfExec_loaded (b : ElfBuf) {f : FileImage} {s : Loader} (hf : Loadable f)
    (hpmm : PmmInv s.pmm) (hres : Reserved s.pmm) (hk : KernelDir s.mem)
    (hn : s.sched.ntasks < maxTasks) (hfree : f.frames ≤ (lowFree s.pmm).card) :
    ∃ s' sp t, Loaded b f s s' sp t := by
  have hb := readFile_inBuffer b f s
  obtain ⟨pdPhys, s1, d, halloc, h1⟩ := procAllocPd_total b hpmm hres hk hfree
  -- the segments and the stack
  obtain ⟨s2, sp2, hrun2, h2⟩ := loadHeaders_total hf hb h1 (Nat.le_refl f.phnum)
  obtain ⟨s3, sp3, hrun3, h3⟩ := loadStack_total hf h2
  -- the kernel stack and the registration
  have hlast : 0 < (lowFree s3.pmm).card := by
    have := h3.budget
    omega
  have hsched : s3.sched = s.sched := h3.inv.sched
  obtain ⟨s4, k, t, hrun4, hmem, hnt, hpool, h4, hcr3, htop⟩ :=
    loadTask_total b pdPhys h3.inv hlast (by rw [hsched]; exact hn)
  rw [hsched] at hnt hpool h4
  have hrun : elfExec b (some f) s = some s4 := by
    rw [elfExec_of_complete hf.complete, halloc]
    simp only [Option.bind_some, loadProgram,
      ePhnum_of_complete (h1.inv.inBuffer hb) hf.complete, hrun2, hrun3, Option.bind_eq_bind,
      hrun4]
  refine ⟨s4, sp3.claim k .kstack, t, hrun, hnt, hpool, h4, by rw [hcr3]; exact h3.pd,
    ⟨k, htop, Function.update_self ..⟩, ?_, h3.unmapped⟩
  rw [hmem]
  exact h3.mapped

/-- **`elf_exec` builds the image the file describes.** For a well-formed file,
with frames enough below the end of the identity map, the load succeeds; through
the new directory the processor finds at `p_vaddr + k` byte `p_offset + k` of the
file, then zeros up to `p_memsz`; the stack page is there and clear; outside the
kernel's entries nothing else is mapped; and no frame is used twice. -/
theorem elfExec_image (b : ElfBuf) (f : FileImage) (s : Loader) (hf : Loadable f)
    (habove : AboveKernel f) (hpmm : PmmInv s.pmm) (hres : Reserved s.pmm)
    (hk : KernelDir s.mem) (hn : s.sched.ntasks < maxTasks)
    (hfree : f.frames ≤ (lowFree s.pmm).card) :
    ∃ s' t, elfExec b (some f) s = some s' ∧ s'.sched.ntasks = s.sched.ntasks + 1 ∧
      s'.sched.pool ⟨s.sched.ntasks, hn⟩ = t ∧
      (∀ i, i < f.phnum → f.isLoad i = true → ∀ k : Nat, k < (f.segment i).memsz →
        byteAt s'.mem t.cr3 (BitVec.ofNat 32 ((f.segment i).vaddr + k)) =
          some (if k < (f.segment i).filesz then f.mem ((f.segment i).offset + k) else 0#8)) ∧
      (∀ k : Nat, k < 4096 →
        byteAt s'.mem t.cr3 (userStackVirt + BitVec.ofNat 32 k) = some 0#8) ∧
      (∀ v : U32, 4 ≤ pdIndex v → translate s'.mem t.cr3 v ≠ none →
        v.toNat / 4096 = 0x40100 ∨
          ∃ i, i < f.phnum ∧ f.isLoad i = true ∧ v.toNat / 4096 ∈ (f.segment i).pages) ∧
      (usedFrames s'.mem t.cr3 t.kstackTop).Nodup := by
  obtain ⟨s', sp, t, h⟩ := elfExec_loaded b hf hpmm hres hk hn hfree
  refine ⟨s', t, h.run, h.ntasks, h.task _ rfl, ?_, ?_, ?_, ?_⟩
  · intro i hi hl k hk
    have hwrap := (hf.segment i hi hl).no_wrap
    have hfm := (hf.segment i hi hl).filesz_le
    have hv : (BitVec.ofNat 32 ((f.segment i).vaddr + k)).toNat = (f.segment i).vaddr + k := by
      rw [BitVec.toNat_ofNat, Nat.mod_eq_of_lt (by omega)]
    have hmem : ((f.segment i).vaddr + k) / 4096 ∈ (f.segment i).pages :=
      Finset.mem_Ico.mpr ⟨by omega, by omega⟩
    obtain ⟨fr, hfr, hwant⟩ := h.mapped _ (segment_sub hi hl hmem)
    rw [h.inv.byteAt_eq h.cr3 (by rw [hv]; exact habove i hi hl _ hmem) (by rw [hv]; exact hfr), hv]
    have hbyte := hwant.1 i hi hl hmem (((f.segment i).vaddr + k) % 4096) (by omega)
    refine congrArg some (hbyte.trans ?_)
    unfold Segment.byte
    rw [show ((f.segment i).vaddr + k) / 4096 * 4096 + ((f.segment i).vaddr + k) % 4096 =
      (f.segment i).vaddr + k by omega]
    by_cases hkf : k < (f.segment i).filesz
    · rw [if_pos (by omega), if_pos hkf]
      exact congrArg f.mem (by omega)
    · rw [if_neg (by omega), if_neg hkf]
  · intro k hk
    have hv : (userStackVirt + BitVec.ofNat 32 k).toNat = 0x40100 * 4096 + k := by
      rw [BitVec.toNat_add, BitVec.toNat_ofNat]
      show (1074790400 + k % 2 ^ 32) % 2 ^ 32 = _
      omega
    obtain ⟨fr, hfr, hwant⟩ := h.mapped 0x40100 (Finset.mem_insert_self ..)
    have hpg : (userStackVirt + BitVec.ofNat 32 k).toNat / 4096 = 0x40100 := by omega
    rw [h.inv.byteAt_eq h.cr3 (by rw [hpg]; omega) (by rw [hpg]; exact hfr)]
    exact congrArg some (hwant.2 rfl _ (by omega))
  · intro v hv htr
    rw [pdIndex_eq] at hv
    have hlt := v.isLt
    rw [translate_eq_pageFrame, h.inv.pageFrame_eq h.cr3 (by omega) (by omega)] at htr
    by_contra hno
    rw [not_or] at hno
    have hnot : v.toNat / 4096 ∉ f.allPages := by
      intro hm
      rcases Finset.mem_insert.mp hm with heq | hm
      · exact hno.1 heq
      · exact hno.2 (mem_pagesUpTo.mp hm)
    rw [h.unmapped _ hnot] at htr
    exact htr rfl
  · obtain ⟨k, htop, hown⟩ := h.kstack
    exact usedFrames_nodup h.inv h.cr3 htop hown

/-- A file of one header and one segment: its own 84 bytes, at `0x40000000`,
cleared up to 5000. -/
def oneSegment : FileImage where
  bytes := [
    0x7F, 0x45, 0x4C, 0x46, 1, 1, 1, 0, 0, 0, 0, 0, 0, 0, 0, 0,
    2, 0, 3, 0, 1, 0, 0, 0, 0x34, 0, 0, 0x40, 0x34, 0, 0, 0,
    0, 0, 0, 0, 0, 0, 0, 0, 0x34, 0, 0x20, 0, 1, 0, 0, 0, 0, 0, 0, 0,
    1, 0, 0, 0, 0, 0, 0, 0, 0, 0, 0, 0x40, 0, 0, 0, 0x40,
    0x54, 0, 0, 0, 0x88, 0x13, 0, 0, 5, 0, 0, 0, 0, 0x10, 0, 0]
  size_le := by unfold maxElfSize; simp

theorem oneSegment_segment : oneSegment.segment 0 = ⟨0, 0x40000000, 84, 5000⟩ := rfl

theorem oneSegment_pages : (oneSegment.segment 0).pages = {0x40000, 0x40001} := by
  rw [oneSegment_segment]
  rfl

theorem oneSegment_above : AboveKernel oneSegment := by
  intro i hi _ v hv
  have hi1 : i < 1 := hi
  rw [show i = 0 by omega, oneSegment_pages, Finset.mem_insert, Finset.mem_singleton] at hv
  omega

/-- A file of one segment is loadable when its header and the segment are in order. -/
theorem Loadable.of_one {f : FileImage} (hnum : f.phnum = 1) (hsize : 52 ≤ f.bytes.length)
    (hmagic : f.mem 0 = 0x7F#8 ∧ f.mem 1 = 0x45#8 ∧ f.mem 2 = 0x4C#8 ∧ f.mem 3 = 0x46#8)
    (hheader : f.phoff 0 + 32 ≤ f.bytes.length) (hseg : (f.segment 0).Ok f.bytes.length) :
    Loadable f := by
  have hzero : ∀ i, i < f.phnum → i = 0 := by
    intro i hi
    omega
  refine ⟨hsize, hmagic, fun i hi => ?_, fun i hi _ => ?_, fun i j hi hj _ _ hne => ?_⟩
  · rw [hzero i hi]
    exact hheader
  · rw [hzero i hi]
    exact hseg
  · exact absurd ((hzero i hi).trans (hzero j hj).symm) hne

/-- Three pages take eight frames at most. -/
theorem frames_le_eight {f : FileImage} (hcard : f.allPages.card = 3) : f.frames ≤ 8 := by
  have himage : (f.allPages.image (· / 1024)).card ≤ f.allPages.card := Finset.card_image_le
  unfold FileImage.frames
  omega

theorem oneSegment_loadable : Loadable oneSegment := by
  refine .of_one rfl (by decide) (by decide) (by decide)
    ⟨by decide, by decide, by decide, by decide, ?_⟩
  rw [oneSegment_pages]
  decide

theorem oneSegment_frames : oneSegment.frames ≤ 8 := frames_le_eight rfl

/-- With 32 MB the whole identity map above `PMM_RESERVED` is free. -/
theorem lowFree_pmmInit (p : Pmm) : (lowFree (pmmInit p 0x2000000#32)).card = 3072 := by
  have hset : lowFree (pmmInit p 0x2000000#32) = Finset.Ico 1024 4096 := by
    unfold lowFree
    rw [(pmmInit_spec p _).2.2, pmmTotal_32MB]
    ext k
    rw [Finset.mem_filter, Finset.mem_Ico, Finset.mem_Ico]
    unfold pmmReserved pmmPageSize
    omega
  rw [hset, Nat.card_Ico]

/-- A place for the buffer, below the kernel's page tables. -/
def lowBuf : ElfBuf where
  addr := 0x10000#32
  below := by unfold maxElfSize kernelPdAddr; simp

/-- The file above, loaded into a fresh 32 MB machine: task 0 finds the magic at
`0x40000000`. -/
theorem elfExec_image_oneSegment : ∃ s', elfExec lowBuf (some oneSegment)
    (freshLoader (fun _ => 0#8) 0x2000000#32 (fun _ => newTask 0 0 0 0 0 0 0)) = some s' ∧
    s'.sched.ntasks = 1 ∧ byteAt s'.mem (s'.sched.pool 0).cr3 0x40000000#32 = some 0x7F#8 := by
  have hlow : 8 ≤ (lowFree (freshLoader (fun _ => 0#8) 0x2000000#32
      (fun _ => newTask 0 0 0 0 0 0 0)).pmm).card := by
    unfold freshLoader
    rw [lowFree_pmmInit]
    omega
  obtain ⟨hpmm, hres, hk, _⟩ := freshLoader_ready (fun _ => 0#8) 0x2000000#32
    (fun _ => newTask 0 0 0 0 0 0 0)
  have hzero : (freshLoader (fun _ => 0#8) 0x2000000#32
      (fun _ => newTask 0 0 0 0 0 0 0)).sched.ntasks = 0 := rfl
  -- from here on nothing may evaluate the fresh machine
  generalize freshLoader (fun _ => 0#8) 0x2000000#32 (fun _ => newTask 0 0 0 0 0 0 0) = s at *
  have hn0 : s.sched.ntasks < maxTasks := by rw [hzero]; exact Nat.zero_lt_succ 7
  obtain ⟨s', t, hrun, hn, ht, himage, _⟩ := elfExec_image lowBuf oneSegment s
    oneSegment_loadable oneSegment_above hpmm hres hk hn0 (Nat.le_trans oneSegment_frames hlow)
  refine ⟨s', hrun, by rw [hn, hzero], ?_⟩
  have hslot : (⟨s.sched.ntasks, hn0⟩ : Fin 8) = 0 := Fin.ext hzero
  have hbyte := himage 0 (Nat.zero_lt_succ 0) rfl 0 (Nat.zero_lt_succ 4999)
  rw [← ht, hslot] at hbyte
  exact hbyte

end PepinOS
