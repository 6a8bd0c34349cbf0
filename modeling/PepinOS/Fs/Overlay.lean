import PepinOS.Fs.LoadRun
import Mathlib.Algebra.Order.BigOperators.Group.Finset

/-!
# Segments that meet in a page

`LoadRun` loads files whose segments have their pages to themselves. Nothing of that
is asked here. Each turn of the page loop takes a fresh frame, copies to it what the
file has around the segment, and overwrites the table entry: a page ends up as the
last header that reached it left it, and the frame before is lost. `overlay` is that
image, header after header, and `elfExec_overlay` says the processor finds it.

`Painted` carries the loops, with the frames still to be taken paid in advance as in
`Progress`; here a page is paid once for each header that reaches it.
-/

namespace PepinOS

/-! ## The image -/

/-- What the loader asks of a segment that lies in the address space. -/
structure Segment.Fits (g : Segment) (size : Nat) : Prop where
  filesz_le : g.filesz ≤ g.memsz
  in_file : g.offset + g.filesz ≤ size
  congr : g.offset % 4096 = g.vaddr % 4096
  in_space : g.vaddr + g.memsz ≤ 2 ^ 32

/-- The pages the page loop goes through. In the last page of the address space the
rounded end wraps to 0, and there are none. -/
def Segment.looped (g : Segment) : Finset Nat :=
  Finset.Ico (g.vaddr / 4096) ((g.vaddr + g.memsz + 0xFFF) % 2 ^ 32 / 4096)

/-- What the first `n` headers leave in page `v`. -/
def FileImage.overlay (f : FileImage) : Nat → Nat → Option (Nat → U8)
  | 0, _ => none
  | n + 1, v =>
    if f.isLoad n = true ∧ v ∈ (f.segment n).looped then some ((f.segment n).byte f v)
    else f.overlay n v

/-- What the load leaves in page `v`; the stack comes last. -/
def FileImage.finalPage (f : FileImage) (v : Nat) : Option (Nat → U8) :=
  if v = 0x40100 then some (fun _ => 0#8) else f.overlay f.phnum v

/-- The turns of the page loop in the first `n` headers. -/
def FileImage.loopTurns (f : FileImage) (n : Nat) : Nat :=
  ∑ i ∈ Finset.range n, if f.isLoad i = true then (f.segment i).looped.card else 0

/-- The pages the load reaches. -/
def FileImage.reached (f : FileImage) : Finset Nat :=
  insert 0x40100 (((Finset.range f.phnum).filter (fun i => f.isLoad i = true)).biUnion
    (fun i => (f.segment i).looped))

/-- The frames the load takes: directory, kernel stack, stack, one for each turn of the
page loop, page tables. -/
def FileImage.framesTaken (f : FileImage) : Nat :=
  3 + f.loopTurns f.phnum + (f.reached.image (· / 1024)).card

/-- A page in the loop is away from the end of the address space. -/
theorem Segment.Fits.placed {g : Segment} {size v : Nat} (h : g.Fits size) (hv : v ∈ g.looped) :
    g.Placed size ∧ v ∈ g.pages := by
  have hspace := h.in_space
  rw [Segment.looped, Finset.mem_Ico] at hv
  have hwrap : g.vaddr + g.memsz + 0xFFF < 2 ^ 32 := by omega
  rw [Nat.mod_eq_of_lt hwrap] at hv
  exact ⟨⟨h.filesz_le, h.in_file, h.congr, hwrap⟩, Finset.mem_Ico.mpr hv⟩

theorem looped_reached {f : FileImage} {i v : Nat} (hi : i < f.phnum) (hl : f.isLoad i = true)
    (hv : v ∈ (f.segment i).looped) : v ∈ f.reached := by
  refine Finset.mem_insert_of_mem (Finset.mem_biUnion.mpr ⟨i, ?_, hv⟩)
  exact Finset.mem_filter.mpr ⟨Finset.mem_range.mpr hi, hl⟩

theorem loopTurns_succ (f : FileImage) (n : Nat) :
    f.loopTurns (n + 1) = f.loopTurns n + if f.isLoad n = true then (f.segment n).looped.card else 0 :=
  Finset.sum_range_succ _ n

theorem loopTurns_mono (f : FileImage) {m n : Nat} (h : m ≤ n) : f.loopTurns m ≤ f.loopTurns n :=
  Finset.sum_le_sum_of_subset (Finset.range_mono h)

/-- Every turn reaches one page, and every page costs one table at most. -/
theorem framesTaken_le (f : FileImage) : f.framesTaken ≤ 4 + 2 * f.loopTurns f.phnum := by
  have himage : (f.reached.image (· / 1024)).card ≤ f.reached.card := Finset.card_image_le
  have hreached : f.reached.card ≤ f.loopTurns f.phnum + 1 := by
    refine (Finset.card_insert_le _ _).trans (Nat.succ_le_succ ?_)
    refine Finset.card_biUnion_le.trans (Nat.le_of_eq ?_)
    exact Finset.sum_filter _ _
  unfold FileImage.framesTaken
  omega

/-- The last of the first `n` headers that reaches page `v`. -/
structure FileImage.LastIn (f : FileImage) (n l v : Nat) : Prop where
  lt : l < n
  load : f.isLoad l = true
  mem : v ∈ (f.segment l).looped
  last : ∀ k, l < k → k < n → f.isLoad k = true → v ∉ (f.segment k).looped

/-- It is the one whose bytes are there. -/
theorem FileImage.LastIn.overlay {f : FileImage} {l v : Nat} :
    ∀ {n : Nat}, f.LastIn n l v → f.overlay n v = some ((f.segment l).byte f v) := by
  intro n
  induction n with
  | zero => intro h; exact absurd h.lt (Nat.not_lt_zero l)
  | succ n ih =>
    intro h
    show (if _ then _ else _) = _
    by_cases hln : l = n
    · rw [if_pos ⟨hln ▸ h.load, hln ▸ h.mem⟩, hln]
    · have hlt : l < n := by
        have := h.lt
        omega
      rw [if_neg (fun hn => h.last n hlt (Nat.lt_succ_self n) hn.1 hn.2)]
      exact ih ⟨hlt, h.load, h.mem, fun k hk hkn => h.last k hk (by omega)⟩

/-- A page some header reaches has a last one. -/
theorem exists_lastIn {f : FileImage} {v : Nat} :
    ∀ {n i : Nat}, i < n → f.isLoad i = true → v ∈ (f.segment i).looped →
      ∃ l, f.LastIn n l v := by
  intro n
  induction n with
  | zero => intro i hi; exact absurd hi (Nat.not_lt_zero i)
  | succ n ih =>
    intro i hi hl hv
    by_cases hn : f.isLoad n = true ∧ v ∈ (f.segment n).looped
    · exact ⟨n, Nat.lt_succ_self n, hn.1, hn.2, fun k hk hkn => by omega⟩
    · have hin : i ≠ n := fun heq => hn ⟨heq ▸ hl, heq ▸ hv⟩
      obtain ⟨l, h⟩ := ih (by omega : i < n) hl hv
      refine ⟨l, Nat.lt_succ_of_lt h.lt, h.load, h.mem, fun k hk hkn hkl hkv => ?_⟩
      by_cases hk' : k = n
      · exact hn ⟨hk' ▸ hkl, hk' ▸ hkv⟩
      · exact h.last k hk (by omega) hkl hkv

/-! ## The invariant of the loops -/

/-- The pages hold `c`, and `left` more frames can be paid. -/
structure Painted (f : FileImage) (s0 : Loader) (pdPhys : U32) (left : Nat)
    (c : Nat → Option (Nat → U8)) (sp : Space) (s : Loader) : Prop where
  inv : LoadInv s0 sp s
  pd : pdPhys.toNat = sp.dir * 4096
  budget : left + ((f.reached.image (· / 1024)).filter (fun e => sp.tab e = none)).card + 1 ≤
    (lowFree s.pmm).card
  blank : ∀ v, c v = none → sp.page v = none
  mapped : ∀ v d, c v = some d →
    ∃ fr, sp.page v = some fr ∧ ∀ j, j < 4096 → s.mem (fr * 4096 + j) = d j

section

variable {f : FileImage} {s0 s : Loader} {pdPhys : U32} {left : Nat}
  {c : Nat → Option (Nat → U8)} {sp : Space}

theorem Painted.cost (h : Painted f s0 pdPhys (left + 1) c sp s) {v : Nat} (hv : v ∈ f.reached) :
    2 + tableCost sp v ≤ (lowFree s.pmm).card := by
  have htab : tableCost sp v ≤
      ((f.reached.image (· / 1024)).filter (fun e => sp.tab e = none)).card :=
    tableCost_le (Finset.mem_image_of_mem _ hv)
  have := h.budget
  omega

/-- One page more, or one page over another. -/
theorem Painted.addPage (h : Painted f s0 pdPhys (left + 1) c sp s) {v : Nat}
    (hv : v ∈ f.reached) {s' : Loader} {sp' : Space} (h' : LoadInv s0 sp' s') {c' d : Nat → U8}
    (hmaps : MapsPage sp s v c' sp' s') (hd : ∀ j, j < 4096 → c' j = d j)
    (hcard : (lowFree s'.pmm).card + 1 + tableCost sp v = (lowFree s.pmm).card) :
    Painted f s0 pdPhys left (Function.update c v (some d)) sp' s' := by
  obtain ⟨fr, hpage, _, hcont⟩ := hmaps.page
  refine ⟨h', by rw [hmaps.extends_.dir]; exact h.pd, ?_, ?_, ?_⟩
  · have htabs := hmaps.tables (Finset.mem_image_of_mem (· / 1024) hv)
    have := h.budget
    omega
  · intro w hw
    by_cases hwv : w = v
    · rw [hwv, Function.update_self] at hw
      cases hw
    · rw [Function.update_of_ne hwv] at hw
      rw [hpage, Function.update_of_ne hwv]
      exact h.blank w hw
  · intro w dw hw
    rw [hpage]
    by_cases hwv : w = v
    · rw [hwv, Function.update_self] at hw
      cases hw
      rw [hwv, Function.update_self]
      exact ⟨fr, rfl, fun j hj => (hcont j hj).trans (hd j hj)⟩
    · rw [Function.update_of_ne hwv] at hw
      rw [Function.update_of_ne hwv]
      obtain ⟨fw, hfw, hbytes⟩ := h.mapped w dw hw
      refine ⟨fw, hfw, fun j hj => ?_⟩
      have hkeep := hmaps.extends_.frame fw w (h.inv.page_own w fw hfw) (fw * 4096 + j) (by omega)
      exact hkeep.trans (hbytes j hj)

end

/-! ## The loops -/

section

variable {b : ElfBuf} {f : FileImage} (hf : f.Complete) {s0 : Loader}
  (hb : InBuffer b f s0.mem) {pdPhys : U32}

include hf hb

/-- One turn of the page loop. -/
theorem loadPage_painted {i : Nat} (hi : i < f.phnum) (hl : f.isLoad i = true)
    (hg : (f.segment i).Fits f.bytes.length) {ph vaddr : U32}
    (hph : ph.toNat = b.addr.toNat + f.phoff i) {v : Nat} (hv : v ∈ (f.segment i).looped)
    (hva : vaddr.toNat = v * 4096) {left : Nat} {c : Nat → Option (Nat → U8)} {sp : Space}
    {s : Loader} (h : Painted f s0 pdPhys (left + 1) c sp s) :
    ∃ s' sp', loadPage b pdPhys ph vaddr s = some s' ∧
      Painted f s0 pdPhys left (Function.update c v (some ((f.segment i).byte f v))) sp' s' := by
  have hreach := looped_reached hi hl hv
  obtain ⟨hplaced, hpages⟩ := hg.placed hv
  obtain ⟨s', sp', c', hrun, h', hmaps, hbytes, hcard⟩ :=
    loadPage_maps h.inv h.pd hf hb hi hplaced hph hpages hva (h.cost hreach)
  exact ⟨s', sp', hrun, h.addPage hreach h' hmaps hbytes hcard⟩

/-- The page loop of one header paints its pages over what was there. -/
theorem loadSegment_painted {i : Nat} (hi : i < f.phnum) (hl : f.isLoad i = true)
    (hg : (f.segment i).Fits f.bytes.length) {ph : U32}
    (hph : ph.toNat = b.addr.toNat + f.phoff i) {left : Nat} {c : Nat → Option (Nat → U8)}
    {sp : Space} {s : Loader} (h : Painted f s0 pdPhys (left + (f.segment i).looped.card) c sp s) :
    ∃ s' sp', loadSegment b pdPhys ph s = some s' ∧
      Painted f s0 pdPhys left (fun v => if v ∈ (f.segment i).looped then
        some ((f.segment i).byte f v) else c v) sp' s' := by
  rw [loadSegment_of_complete (h.inv.inBuffer hb) hf hi hph rfl]
  have hlooped : ∀ v, v ∈ (f.segment i).looped ↔ (f.segment i).vaddr / 4096 ≤ v ∧
      v < ((f.segment i).vaddr + (f.segment i).memsz + 0xFFF) % 2 ^ 32 / 4096 :=
    fun v => Finset.mem_Ico
  have hcard : (f.segment i).looped.card =
      ((f.segment i).vaddr + (f.segment i).memsz + 0xFFF) % 2 ^ 32 / 4096 -
        (f.segment i).vaddr / 4096 := Nat.card_Ico _ _
  generalize hlo : (f.segment i).vaddr / 4096 = lo at hlooped hcard
  generalize hhi : ((f.segment i).vaddr + (f.segment i).memsz + 0xFFF) % 2 ^ 32 / 4096 = hi'
    at hlooped hcard
  rcases Nat.le_total hi' lo with hle | hle
  · -- no turn at all
    have hnone : ∀ v, v ∉ (f.segment i).looped := fun v hv => by
      have := (hlooped v).mp hv
      omega
    refine ⟨s, sp, ?_, ?_⟩
    · rw [forRangeM, Nat.sub_eq_zero_of_le hle, forFromM]
    · rw [hcard, Nat.sub_eq_zero_of_le hle, Nat.add_zero] at h
      have hsame : (fun v => if v ∈ (f.segment i).looped then
          some ((f.segment i).byte f v) else c v) = c := funext fun v => if_neg (hnone v)
      rw [hsame]
      exact h
  · obtain ⟨s', hrun, sp', h'⟩ := forRangeM_total
      (fun n s => ∃ sp, Painted f s0 pdPhys (left + (hi' - n))
        (fun v => if lo ≤ v ∧ v < n then some ((f.segment i).byte f v) else c v) sp s) hle
      ⟨sp, by
        have hsame : (fun v => if lo ≤ v ∧ v < lo then some ((f.segment i).byte f v) else c v) =
            c := funext fun v => if_neg (by omega)
        rw [hsame, ← hcard]
        exact h⟩
      (f := fun n s => loadPage b pdPhys ph (BitVec.ofNat 32 (n * 4096)) s) (by
        intro n t hlo' hhi' ht
        obtain ⟨spt, ht⟩ := ht
        have hn : n ∈ (f.segment i).looped := (hlooped n).mpr ⟨hlo', hhi'⟩
        have hva : (BitVec.ofNat 32 (n * 4096)).toNat = n * 4096 := by
          rw [BitVec.toNat_ofNat, Nat.mod_eq_of_lt (by omega)]
        rw [show left + (hi' - n) = left + (hi' - (n + 1)) + 1 by omega] at ht
        obtain ⟨t', spt', hrun, ht'⟩ := loadPage_painted hf hb hi hl hg hph hn hva ht
        refine ⟨t', hrun, spt', ?_⟩
        have hnext : (fun v => if lo ≤ v ∧ v < n + 1 then some ((f.segment i).byte f v) else c v) =
            Function.update (fun v => if lo ≤ v ∧ v < n then some ((f.segment i).byte f v) else c v)
              n (some ((f.segment i).byte f n)) := by
          funext v
          by_cases hvn : v = n
          · rw [hvn, Function.update_self, if_pos (by omega)]
          · rw [Function.update_of_ne hvn]
            by_cases hin : lo ≤ v ∧ v < n
            · rw [if_pos hin, if_pos (by omega)]
            · rw [if_neg hin, if_neg (by omega)]
        rw [hnext]
        exact ht')
    rw [Nat.sub_self, Nat.add_zero] at h'
    refine ⟨s', sp', hrun, ?_⟩
    have hsame : (fun v => if v ∈ (f.segment i).looped then some ((f.segment i).byte f v)
        else c v) = fun v => if lo ≤ v ∧ v < hi' then some ((f.segment i).byte f v) else c v := by
      funext v
      simp only [hlooped]
    rw [hsame]
    exact h'

/-- The header loop, up to header `n`. -/
theorem loadHeaders_painted (hseg : ∀ i, i < f.phnum → f.isLoad i = true →
      (f.segment i).Fits f.bytes.length) {sp : Space} {s : Loader}
    (h : Painted f s0 pdPhys (f.loopTurns f.phnum + 1) (fun _ => none) sp s) :
    ∃ s' sp', forRangeM 0 f.phnum (loadHeader b pdPhys) s = some s' ∧
      Painted f s0 pdPhys 1 (f.overlay f.phnum) sp' s' := by
  have hstart : Painted f s0 pdPhys (f.loopTurns f.phnum - f.loopTurns 0 + 1) (f.overlay 0) sp s := h
  obtain ⟨s', hrun, sp', h'⟩ := forRangeM_total
    (fun i s => ∃ sp, Painted f s0 pdPhys (f.loopTurns f.phnum - f.loopTurns i + 1) (f.overlay i) sp s)
    (Nat.zero_le f.phnum) ⟨sp, hstart⟩ (f := loadHeader b pdPhys) (by
      intro i t _ hi ht
      obtain ⟨spt, ht⟩ := ht
      have hbuf := ht.inv.inBuffer hb
      have hmono := loopTurns_mono f (Nat.succ_le_of_lt hi)
      rw [loopTurns_succ] at hmono
      rw [loadHeader_of_complete hbuf hf hi rfl, loopTurns_succ]
      by_cases hl : f.isLoad i = true
      · rw [if_pos hl] at hmono ⊢
        rw [if_pos hl, show f.loopTurns f.phnum - f.loopTurns i + 1 =
          f.loopTurns f.phnum - (f.loopTurns i + (f.segment i).looped.card) + 1 +
            (f.segment i).looped.card by omega] at *
        obtain ⟨t', spt', hrun, ht'⟩ := loadSegment_painted hf hb hi hl (hseg i hi hl)
          (phAddr_of_complete hbuf hf hi) ht
        refine ⟨t', hrun, spt', ?_⟩
        have hnext : f.overlay (i + 1) = fun v => if v ∈ (f.segment i).looped then
            some ((f.segment i).byte f v) else f.overlay i v := by
          funext v
          show (if _ then _ else _) = _
          simp only [hl, true_and]
        rw [hnext]
        exact ht'
      · rw [if_neg hl, if_neg hl, Nat.add_zero]
        refine ⟨t, rfl, spt, ?_⟩
        have hnext : f.overlay (i + 1) = f.overlay i := by
          funext v
          exact if_neg fun hn => hl hn.1
        rw [hnext]
        exact ht)
  rw [Nat.sub_self] at h'
  exact ⟨s', sp', hrun, h'⟩

omit hf hb in
/-- The user stack goes over whatever was in its page. -/
theorem loadStack_painted {sp : Space} {s : Loader}
    (h : Painted f s0 pdPhys 1 (f.overlay f.phnum) sp s) :
    ∃ s' sp', loadStack pdPhys s = some s' ∧ Painted f s0 pdPhys 0 f.finalPage sp' s' := by
  have hreach : 0x40100 ∈ f.reached := Finset.mem_insert_self ..
  obtain ⟨s', sp', c, hrun, h', hmaps, hzero, hcard⟩ :=
    loadStack_maps h.inv h.pd (h.cost hreach)
  have hfinal : f.finalPage =
      Function.update (f.overlay f.phnum) 0x40100 (some fun _ => 0#8) := by
    funext v
    by_cases hv : v = 0x40100
    · rw [hv, Function.update_self]
      rfl
    · rw [Function.update_of_ne hv]
      exact if_neg hv
  refine ⟨s', sp', hrun, ?_⟩
  rw [hfinal]
  exact h.addPage hreach h' hmaps hzero hcard

end

/-! ## The finished address space -/

/-- A page below 16 MB is read through the entry the load wrote, if it wrote one. -/
theorem LoadInv.pageFrame_some {s0 s : Loader} {sp : Space} (h : LoadInv s0 sp s) {cr3 : U32}
    (hcr3 : cr3.toNat = sp.dir * 4096) {v fr : Nat} (hv : v < 1048576)
    (hp : sp.page v = some fr) : pageFrame s.mem cr3 v = some fr := by
  unfold pageFrame
  rw [h.tableFrame_eq hcr3 (by omega)]
  cases ht : sp.tab (v / 1024) with
  | none => exact absurd ht (h.page_tab v fr hp)
  | some t =>
    have hword := h.tab_word (v / 1024) t (by omega) ht (v % 1024) (by omega)
    rw [show v / 1024 * 1024 + v % 1024 = v by omega, hp] at hword
    rw [Option.bind_some]
    exact entryFrame_entry hword

/-- The load up to its task: every page is what the file and the stack leave in it. -/
theorem elfExec_painted (b : ElfBuf) {f : FileImage} {s : Loader} (hf : f.Complete)
    (hseg : ∀ i, i < f.phnum → f.isLoad i = true → (f.segment i).Fits f.bytes.length)
    (hpmm : PmmInv s.pmm) (hres : Reserved s.pmm) (hk : KernelDir s.mem)
    (hfree : f.framesTaken ≤ (lowFree s.pmm).card) :
    ∃ pdPhys s' sp', elfExec b (some f) s = loadTask b pdPhys s' ∧
      Painted f (readFile b f s) pdPhys 0 f.finalPage sp' s' := by
  have hb := readFile_inBuffer b f s
  unfold FileImage.framesTaken at hfree
  obtain ⟨pdPhys, s1, d, halloc, h1, hpd, hcard1⟩ := procAllocPd_low b f hpmm hres hk (by omega)
  have hp1 : Painted f (readFile b f s) pdPhys (f.loopTurns f.phnum + 1) (fun _ => none)
      (freshSpace d) s1 := by
    have hsub := Finset.card_filter_le (f.reached.image (· / 1024))
      (fun e => (freshSpace d).tab e = none)
    exact ⟨h1, hpd, by omega, fun _ _ => rfl, fun v e he => by cases he⟩
  obtain ⟨s2, sp2, hrun2, h2⟩ := loadHeaders_painted hf hb hseg hp1
  obtain ⟨s3, sp3, hrun3, h3⟩ := loadStack_painted h2
  refine ⟨pdPhys, s3, sp3, ?_, h3⟩
  rw [elfExec_of_complete hf, halloc]
  simp only [Option.bind_some, loadProgram, ePhnum_of_complete (h1.inBuffer hb) hf, hrun2, hrun3,
    Option.bind_eq_bind]

/-- **What the load leaves behind.** For every complete file whose segments lie in the
address space, with frames enough, the load succeeds, and through the new directory
each page it mapped holds what the last header to reach it put there, or the stack's
zeros; above the kernel's entries nothing else is mapped. -/
theorem elfExec_overlay (b : ElfBuf) {f : FileImage} {s : Loader} (hf : f.Complete)
    (hseg : ∀ i, i < f.phnum → f.isLoad i = true → (f.segment i).Fits f.bytes.length)
    (hpmm : PmmInv s.pmm) (hres : Reserved s.pmm) (hk : KernelDir s.mem)
    (hn : s.sched.ntasks < maxTasks) (hfree : f.framesTaken ≤ (lowFree s.pmm).card) :
    ∃ s' t, elfExec b (some f) s = some s' ∧ s'.sched.ntasks = s.sched.ntasks + 1 ∧
      s'.sched.pool ⟨s.sched.ntasks, hn⟩ = t ∧
      (∀ (a : U32) d, f.finalPage (a.toNat / 4096) = some d →
        byteAt s'.mem t.cr3 a = some (d (a.toNat % 4096))) ∧
      (∀ a : U32, 4096 ≤ a.toNat / 4096 → f.finalPage (a.toNat / 4096) = none →
        byteAt s'.mem t.cr3 a = none) := by
  obtain ⟨pdPhys, s3, sp3, hexec, h3⟩ := elfExec_painted b hf hseg hpmm hres hk hfree
  have hlast : 0 < (lowFree s3.pmm).card := by
    have := h3.budget
    omega
  have hsched : s3.sched = s.sched := h3.inv.sched
  obtain ⟨s4, k, t, hrun4, hmem, hnt, hpool, h4, hcr3, _⟩ :=
    loadTask_total b pdPhys h3.inv hlast (by rw [hsched]; exact hn)
  rw [hsched] at hnt hpool h4
  have hdir : t.cr3.toNat = sp3.dir * 4096 := by rw [hcr3]; exact h3.pd
  refine ⟨s4, t, ?_, hnt, hpool _ rfl, ?_, ?_⟩
  · rw [hexec, hrun4]
  · intro a e he
    have hlt := a.isLt
    obtain ⟨fr, hfr, hbytes⟩ := h3.mapped _ e he
    unfold byteAt
    rw [translate_eq_pageFrame, h4.pageFrame_some hdir (by omega) hfr]
    show some (s4.mem (fr * 4096 + a.toNat % 4096)) = _
    rw [hmem, hbytes _ (by omega)]
  · intro a ha hnone
    have hlt := a.isLt
    unfold byteAt
    rw [translate_eq_pageFrame, h4.pageFrame_eq hdir ha (by omega)]
    show ((sp3.page (a.toNat / 4096)).map _).map _ = none
    rw [h3.blank _ hnone]
    rfl

end PepinOS
