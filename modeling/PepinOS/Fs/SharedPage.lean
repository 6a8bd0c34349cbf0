import PepinOS.Fs.Overlay

/-!
# Two segments in one page

`link_user.ld` does not align its sections to pages, so a segment may begin in the
page where the one before it ends. The loader gives each of them a frame for that page,
and the last one stays. It was filled from the page's first byte on, with the file in
front of `p_offset`, and cleared behind the file's part: the earlier segment survives
when the file has its bytes there, in place (`Reproduced`). A file laid out as it is
loaded does, as far as the earlier segment has no cleared part; a `.bss` in front of a
later segment is lost to whatever the file has between the two.
-/

namespace PepinOS

/-- Address `a` is the segment's. -/
def Segment.Has (g : Segment) (a : Nat) : Prop := g.vaddr ≤ a ∧ a < g.vaddr + g.memsz

/-- What the program expects at an address of the segment: the file's byte, or zero. -/
def Segment.wants (g : Segment) (f : FileImage) (a : Nat) : U8 :=
  if a < g.vaddr + g.filesz then f.mem (g.offset + (a - g.vaddr)) else 0#8

/-- What the loader puts at any address of the segment's pages: the same, but in front of
the segment too. -/
def Segment.puts (g : Segment) (f : FileImage) (a : Nat) : U8 :=
  if a < g.vaddr + g.filesz then f.mem (g.offset + a - g.vaddr) else 0#8

/-- A complete file with its `PT_LOAD` headers in ascending order and their byte ranges
apart. -/
structure FileImage.Ordered (f : FileImage) : Prop where
  complete : f.Complete
  fits : ∀ i, i < f.phnum → f.isLoad i = true → (f.segment i).Fits f.bytes.length
  ascending : ∀ i j, i < j → j < f.phnum → f.isLoad i = true → f.isLoad j = true →
    (f.segment i).vaddr ≤ (f.segment j).vaddr
  disjoint : ∀ i j, i < j → j < f.phnum → f.isLoad i = true → f.isLoad j = true →
    ∀ a, (f.segment i).Has a → ¬(f.segment j).Has a

/-- Segment `j` begins in page `v`, where the earlier segment `i` ends. -/
structure FileImage.Meet (f : FileImage) (i j v : Nat) : Prop where
  lt : i < j
  num : j < f.phnum
  load : f.isLoad i = true
  load_later : f.isLoad j = true
  nonempty : 0 < (f.segment i).memsz
  ends : ((f.segment i).vaddr + (f.segment i).memsz - 1) / 4096 = v
  begins : (f.segment j).vaddr / 4096 = v

/-- Every shared page holds the bytes of both segments. -/
def FileImage.Survives (f : FileImage) (m : Mem) (cr3 : U32) : Prop :=
  ∀ i j v, f.Meet i j v → ∀ k, k = i ∨ k = j → ∀ a, a / 4096 = v → (f.segment k).Has a →
    byteAt m cr3 (BitVec.ofNat 32 a) = some ((f.segment k).wants f a)

/-- No shared page is the last of the address space, which is never loaded; and in each,
what stays there has the bytes of both: the stack's zeros in the stack's page, elsewhere
what the last segment to reach the page puts there. -/
def FileImage.Reproduced (f : FileImage) : Prop :=
  ∀ i j v, f.Meet i j v → v ≠ 0xFFFFF ∧
    ∀ k, k = i ∨ k = j → ∀ a, a / 4096 = v → (f.segment k).Has a →
      (v = 0x40100 → (f.segment k).wants f a = 0#8) ∧
      (v ≠ 0x40100 → ∀ l, f.LastIn f.phnum l v →
        (f.segment l).puts f a = (f.segment k).wants f a)

section

variable {f : FileImage} {i j v : Nat}

/-- The page where a segment ends is one of its loop's, but for the last page of the
address space. -/
theorem FileImage.Meet.looped (h : f.Meet i j v)
    (hg : (f.segment i).Fits f.bytes.length) (hv : v ≠ 0xFFFFF) : v ∈ (f.segment i).looped := by
  have hspace := hg.in_space
  have hne := h.nonempty
  have hends := h.ends
  rw [Segment.looped, Finset.mem_Ico, Nat.mod_eq_of_lt (by omega)]
  omega

/-- No header reaches the last page. -/
theorem finalPage_top (f : FileImage) : f.finalPage 0xFFFFF = none := by
  have hnone : ∀ n, f.overlay n 0xFFFFF = none := by
    intro n
    induction n with
    | zero => rfl
    | succ n ih =>
      refine (if_neg ?_).trans ih
      intro hn
      have hmem := hn.2
      rw [Segment.looped, Finset.mem_Ico] at hmem
      omega
  exact (if_neg (by omega)).trans (hnone f.phnum)

/-- What the load leaves at an address of a shared page. -/
theorem FileImage.Ordered.finalPage_shared (hf : f.Ordered) (h : f.Meet i j v)
    (hv : v ≠ 0xFFFFF) (hstack : v ≠ 0x40100) :
    ∃ l, f.LastIn f.phnum l v ∧ f.finalPage v = some ((f.segment l).byte f v) := by
  have hi : i < f.phnum := Nat.lt_trans h.lt h.num
  obtain ⟨l, hl⟩ := exists_lastIn hi h.load (h.looped (hf.fits i hi h.load) hv)
  exact ⟨l, hl, (if_neg hstack).trans hl.overlay⟩

/-- There is only one last header. -/
theorem FileImage.LastIn.unique {n l l' : Nat} (h : f.LastIn n l v) (h' : f.LastIn n l' v) :
    l = l' := by
  rcases Nat.lt_trichotomy l l' with hlt | heq | hlt
  · exact absurd h'.mem (h.last l' hlt h'.lt h'.load)
  · exact heq
  · exact absurd h.mem (h'.last l hlt h.lt h.load)

end

/-- **What survives in a shared page.** For every file with its segments in order and
apart, all of them from 16 MB on, with frames enough, the load succeeds, and each page where
one segment ends and a later one begins holds the bytes of both exactly when the file
reproduces them. A page below 16 MB is left out: once `proc_map_page` has put it elsewhere,
the loader's own stores below 16 MB go there too. -/
theorem elfExec_survives_iff (b : ElfBuf) (f : FileImage) (s : Loader) (hf : f.Ordered)
    (_habove : AboveKernel f) (hpmm : PmmInv s.pmm) (hres : Reserved s.pmm) (hk : KernelDir s.mem)
    (hn : s.sched.ntasks < maxTasks) (hfree : f.framesTaken ≤ (lowFree s.pmm).card) :
    ∃ s' t, elfExec b (some f) s = some s' ∧ s'.sched.ntasks = s.sched.ntasks + 1 ∧
      s'.sched.pool ⟨s.sched.ntasks, hn⟩ = t ∧ (f.Survives s'.mem t.cr3 ↔ f.Reproduced) := by
  obtain ⟨s', t, hrun, hnt, hpool, hsome, hnone⟩ :=
    elfExec_overlay b hf.complete hf.fits hpmm hres hk hn hfree
  refine ⟨s', t, hrun, hnt, hpool, ?_⟩
  have hmod : ∀ a v, a / 4096 = v → v < 1048576 → (BitVec.ofNat 32 a).toNat = a := by
    intro a v ha hv
    rw [BitVec.toNat_ofNat, Nat.mod_eq_of_lt (by omega)]
  constructor
  · intro hsurv i j v hmeet
    have hi : i < f.phnum := Nat.lt_trans hmeet.lt hmeet.num
    have hspace := (hf.fits i hi hmeet.load).in_space
    have hends := hmeet.ends
    have hne := hmeet.nonempty
    have hv : v < 1048576 := by omega
    have htop : v ≠ 0xFFFFF := by
      intro heq
      -- the last byte of the earlier segment is not even mapped
      have hlast := hsurv i j v hmeet i (Or.inl rfl) _ hends ⟨by omega, by omega⟩
      rw [hnone _ (by rw [hmod _ v hends hv]; omega) (by
        rw [hmod _ v hends hv, hends, heq]
        exact finalPage_top f)] at hlast
      cases hlast
    refine ⟨htop, fun k hk a ha hhas => ?_⟩
    have hbyte := hsurv i j v hmeet k hk a ha hhas
    have haddr := hmod a v ha hv
    constructor
    · intro hstack
      rw [hsome _ (fun _ => 0#8) (by rw [haddr, ha]; exact if_pos hstack)] at hbyte
      exact (Option.some.inj hbyte).symm
    · intro hstack l hl
      obtain ⟨l', hl', hfinal⟩ := hf.finalPage_shared hmeet htop hstack
      rw [hl.unique hl']
      rw [hsome _ _ (by rw [haddr, ha]; exact hfinal), haddr] at hbyte
      rw [← Option.some.inj hbyte]
      unfold Segment.byte Segment.puts
      rw [show v * 4096 + a % 4096 = a by omega]
  · intro hrep i j v hmeet k hk a ha hhas
    obtain ⟨htop, hboth⟩ := hrep i j v hmeet
    obtain ⟨hzero, hlast⟩ := hboth k hk a ha hhas
    have hi : i < f.phnum := Nat.lt_trans hmeet.lt hmeet.num
    have hspace := (hf.fits i hi hmeet.load).in_space
    have hends := hmeet.ends
    have hne := hmeet.nonempty
    have haddr := hmod a v ha (by omega)
    by_cases hstack : v = 0x40100
    · rw [hzero hstack]
      exact hsome _ (fun _ => 0#8) (by rw [haddr, ha]; exact if_pos hstack)
    · obtain ⟨l, hl, hfinal⟩ := hf.finalPage_shared hmeet htop hstack
      rw [hsome _ _ (by rw [haddr, ha]; exact hfinal), haddr, ← hlast hstack l hl]
      unfold Segment.byte Segment.puts
      rw [show v * 4096 + a % 4096 = a by omega]

/-- A file of two segments in the page at `0x40000000`: one of eight bytes, of which the
file has the first `filesz`, then one of four. -/
def meeting (filesz : U8) : FileImage where
  bytes := [
    0x7F, 0x45, 0x4C, 0x46, 1, 1, 1, 0, 0, 0, 0, 0, 0, 0, 0, 0,
    2, 0, 3, 0, 1, 0, 0, 0, 0x74, 0, 0, 0x40, 0x34, 0, 0, 0,
    0, 0, 0, 0, 0, 0, 0, 0, 0x34, 0, 0x20, 0, 2, 0, 0, 0, 0, 0, 0, 0,
    1, 0, 0, 0, 0x74, 0, 0, 0, 0x74, 0, 0, 0x40, 0x74, 0, 0, 0x40,
    filesz, 0, 0, 0, 8, 0, 0, 0, 5, 0, 0, 0, 0, 0x10, 0, 0,
    1, 0, 0, 0, 0x7C, 0, 0, 0, 0x7C, 0, 0, 0x40, 0x7C, 0, 0, 0x40,
    4, 0, 0, 0, 4, 0, 0, 0, 6, 0, 0, 0, 0, 0x10, 0, 0,
    0xEB, 0xFE, 0x90, 0x90, 0xFF, 0xFF, 0xFF, 0xFF, 1, 2, 3, 4]
  size_le := by unfold maxElfSize; simp

theorem meeting_size (n : U8) : (meeting n).bytes.length = 128 := by simp [meeting]

/-- What its headers say. -/
structure Meeting (f : FileImage) (n : Nat) : Prop where
  size : f.bytes.length = 128
  magic : f.mem 0 = 0x7F#8 ∧ f.mem 1 = 0x45#8 ∧ f.mem 2 = 0x4C#8 ∧ f.mem 3 = 0x46#8
  num : f.phnum = 2
  headers : f.phoff 0 = 52 ∧ f.phoff 1 = 84
  load : f.isLoad 0 = true ∧ f.isLoad 1 = true
  first : f.segment 0 = ⟨0x74, 0x40000074, n, 8⟩
  second : f.segment 1 = ⟨0x7C, 0x4000007C, 4, 4⟩

theorem meeting_four : Meeting (meeting 4#8) 4 :=
  ⟨meeting_size _, ⟨rfl, rfl, rfl, rfl⟩, rfl, ⟨rfl, rfl⟩, ⟨rfl, rfl⟩, rfl, rfl⟩

theorem meeting_eight : Meeting (meeting 8#8) 8 :=
  ⟨meeting_size _, ⟨rfl, rfl, rfl, rfl⟩, rfl, ⟨rfl, rfl⟩, ⟨rfl, rfl⟩, rfl, rfl⟩

section

variable {f : FileImage} {n : Nat} (h : Meeting f n)

include h

theorem Meeting.ordered (hn : n ≤ 8) : f.Ordered := by
  have hcase : ∀ i, i < f.phnum → i = 0 ∨ i = 1 := by
    intro i hi
    rw [h.num] at hi
    omega
  refine ⟨⟨by rw [h.size]; omega, h.magic, fun i hi => ?_⟩, fun i hi _ => ?_,
    fun i j hij hj _ _ => ?_, fun i j hij hj _ _ a ha hb => ?_⟩
  · rw [h.size]
    rcases hcase i hi with hi0 | hi1
    · rw [hi0, h.headers.1]
      omega
    · rw [hi1, h.headers.2]
      omega
  · rcases hcase i hi with hi0 | hi1
    · have hoff : (f.segment 0).offset = 0x74 := by rw [h.first]
      have hva : (f.segment 0).vaddr = 0x40000074 := by rw [h.first]
      have hfile : (f.segment 0).filesz = n := by rw [h.first]
      have hmem : (f.segment 0).memsz = 8 := by rw [h.first]
      rw [hi0, h.size]
      exact ⟨by rw [hfile, hmem]; exact hn, by rw [hoff, hfile]; omega, by rw [hoff, hva],
        by rw [hva, hmem]; omega⟩
    · rw [hi1, h.second, h.size]
      exact ⟨Nat.le_refl 4, by simp, by simp, by simp⟩
  · rcases hcase j hj with hj0 | hj1
    · omega
    · rw [hj1, show i = 0 by omega, h.first, h.second]
      simp only
      omega
  · rcases hcase j hj with hj0 | hj1
    · omega
    · rw [show i = 0 by omega, h.first, Segment.Has] at ha
      rw [hj1, h.second, Segment.Has] at hb
      simp only at ha hb
      omega

theorem Meeting.meet : f.Meet 0 1 0x40000 := by
  refine ⟨Nat.zero_lt_one, by rw [h.num]; omega, h.load.1, h.load.2,
    ?_, ?_, ?_⟩
  · simp [h.first]
  · simp [h.first]
  · simp [h.second]

theorem Meeting.frames : f.framesTaken ≤ 8 := by
  have hfirst : (f.segment 0).looped.card = 1 := by
    simp [h.first, Segment.looped]
  have hsecond : (f.segment 1).looped.card = 1 := by
    simp [h.second, Segment.looped]
  have hnone : f.loopTurns 0 = 0 := rfl
  have hturns : f.loopTurns f.phnum = 2 := by
    rw [h.num, loopTurns_succ, loopTurns_succ, if_pos (h.load.1), if_pos (h.load.2),
      hfirst, hsecond, hnone]
  have hle := framesTaken_le f
  omega

/-- The second segment is the last in the page. -/
theorem Meeting.last : f.LastIn f.phnum 1 0x40000 := by
  refine ⟨by rw [h.num]; omega, h.load.2, ?_, fun k hk hk' => ?_⟩
  · simp [h.second, Segment.looped]
  · rw [h.num] at hk'
    omega

end

/-- A machine where the file can be loaded, with room to spare. -/
structure LoadRoom (s : Loader) : Prop where
  pmm : PmmInv s.pmm
  reserved : Reserved s.pmm
  kernel : KernelDir s.mem
  slot : s.sched.ntasks = 0
  frames : 8 ≤ (lowFree s.pmm).card

theorem freshLoader_room :
    LoadRoom (freshLoader (fun _ => 0#8) 0x2000000#32 (fun _ => newTask 0 0 0 0 0 0 0)) := by
  obtain ⟨hpmm, hres, hk, _⟩ := freshLoader_ready (fun _ => 0#8) 0x2000000#32
    (fun _ => newTask 0 0 0 0 0 0 0)
  refine ⟨hpmm, hres, hk, rfl, ?_⟩
  unfold freshLoader
  rw [lowFree_pmmInit]
  omega

/-- With a cleared part of four bytes in the first segment, the file's bytes in front of
the second one show through at `0x40000078`. -/
theorem meeting_cleared_lost : (meeting 4#8).Ordered ∧ (meeting 4#8).Meet 0 1 0x40000 ∧
    ∃ s', elfExec lowBuf (some (meeting 4#8))
      (freshLoader (fun _ => 0#8) 0x2000000#32 (fun _ => newTask 0 0 0 0 0 0 0)) = some s' ∧
    byteAt s'.mem (s'.sched.pool 0).cr3 0x40000078#32 = some 0xFF#8 ∧
    ¬(meeting 4#8).Survives s'.mem (s'.sched.pool 0).cr3 := by
  have hm := meeting_four
  have hf := hm.ordered (by omega)
  refine ⟨hf, hm.meet, ?_⟩
  have hroom := freshLoader_room
  generalize freshLoader (fun _ => 0#8) 0x2000000#32 (fun _ => newTask 0 0 0 0 0 0 0) = s at *
  have hn : s.sched.ntasks < maxTasks := by rw [hroom.slot]; exact Nat.zero_lt_succ 7
  obtain ⟨s', t, hrun, _, hpool, hsome, _⟩ := elfExec_overlay lowBuf hf.complete hf.fits hroom.pmm
    hroom.reserved hroom.kernel hn (hm.frames.trans hroom.frames)
  have hslot : (⟨s.sched.ntasks, hn⟩ : Fin 8) = 0 := Fin.ext hroom.slot
  rw [hslot] at hpool
  have hfinal : (meeting 4#8).finalPage 0x40000 =
      some (((meeting 4#8).segment 1).byte (meeting 4#8) 0x40000) :=
    (if_neg (by omega)).trans hm.last.overlay
  have hbyte : byteAt s'.mem t.cr3 0x40000078#32 = some 0xFF#8 := by
    rw [hsome 0x40000078#32 _ hfinal, hm.second]
    rfl
  refine ⟨s', hrun, by rw [hpool]; exact hbyte, fun hsurv => ?_⟩
  -- the program expects a zero there
  have hwant := hsurv 0 1 0x40000 hm.meet 0 (Or.inl rfl) 0x40000078 (by omega) (by
    rw [hm.first, Segment.Has]
    simp)
  rw [hpool, hbyte, hm.first] at hwant
  exact absurd (Option.some.inj hwant) (by decide)

/-- Without it, the file in front of the second segment is the first one. -/
theorem Meeting.reproduced {f : FileImage} (h : Meeting f 8) : f.Reproduced := by
  intro i j v hmeet
  have hij : i = 0 ∧ j = 1 := by
    have hnum := hmeet.num
    have hlt := hmeet.lt
    rw [h.num] at hnum
    omega
  have hbegins := hmeet.begins
  rw [hij.2, h.second] at hbegins
  subst hbegins
  refine ⟨by simp, fun k hk a ha hhas => ⟨fun hstack => absurd hstack (by simp), fun _ l hl => ?_⟩⟩
  rw [hl.unique h.last, h.second]
  rcases hk with hk0 | hk1
  · rw [hk0, hij.1, h.first, Segment.Has] at hhas
    rw [hk0, hij.1, h.first]
    simp only at hhas
    unfold Segment.puts Segment.wants
    rw [if_pos (by simp only; omega), if_pos (by simp only; omega)]
    exact congrArg f.mem (by simp only; omega)
  · rw [hk1, hij.2, h.second, Segment.Has] at hhas
    rw [hk1, hij.2, h.second]
    simp only at hhas
    unfold Segment.puts Segment.wants
    rw [if_pos (by simp only; omega), if_pos (by simp only; omega)]
    exact congrArg f.mem (by simp only; omega)

theorem Meeting.above {f : FileImage} (h : Meeting f 8) : AboveKernel f := by
  intro i hi _ v hv
  have hfirst := h.first
  have hsecond := h.second
  rw [h.num] at hi
  rcases (show i = 0 ∨ i = 1 by omega) with rfl | rfl
  · simp only [hfirst, Segment.pages, Finset.mem_Ico] at hv
    omega
  · simp only [hsecond, Segment.pages, Finset.mem_Ico] at hv
    omega

theorem elfExec_survives_meeting : ∃ s', elfExec lowBuf (some (meeting 8#8))
      (freshLoader (fun _ => 0#8) 0x2000000#32 (fun _ => newTask 0 0 0 0 0 0 0)) = some s' ∧
    (meeting 8#8).Survives s'.mem (s'.sched.pool 0).cr3 := by
  have hm := meeting_eight
  have hroom := freshLoader_room
  generalize freshLoader (fun _ => 0#8) 0x2000000#32 (fun _ => newTask 0 0 0 0 0 0 0) = s at *
  have hn : s.sched.ntasks < maxTasks := by rw [hroom.slot]; exact Nat.zero_lt_succ 7
  obtain ⟨s', t, hrun, _, hpool, hiff⟩ := elfExec_survives_iff lowBuf (meeting 8#8) s
    (hm.ordered (Nat.le_refl 8)) hm.above hroom.pmm hroom.reserved hroom.kernel hn
    (hm.frames.trans hroom.frames)
  have hslot : (⟨s.sched.ntasks, hn⟩ : Fin 8) = 0 := Fin.ext hroom.slot
  rw [hslot] at hpool
  exact ⟨s', hrun, by rw [hpool]; exact hiff.mpr hm.reproduced⟩

end PepinOS
