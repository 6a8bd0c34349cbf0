import PepinOS.Fs.LoadSteps
import PepinOS.Mm.Reserved
import PepinOS.Mm.Vmm

/-!
# Running out of pages

`pmm_alloc_page` returns 0 when no page is left, and neither `vmm_map_page` nor
`elf_exec` looks. They go on with 0 as an address: the kernel's directory gets frame 0
as a page table, the loader copies a directory over the interrupt table, and a task is
registered all the same.

To say which allocations a call makes, each function has its list of them beside it
(`elfAsks` and the lists it is made of): what `pmm_alloc_page` returned to it, in order.
`Asks` ties a list to the allocator, and from it the list has a 0 exactly when it is
longer than the free pages reach. `oom_atomic_iff` then says when running out is
handled: never, once it happens.
-/

namespace PepinOS

/-! ## Allocations one after another -/

/-- The results of `n` calls of `pmm_alloc_page`, and the allocator after them. -/
def pmmAllocs : Nat → Pmm → List U32 × Pmm
  | 0, p => ([], p)
  | n + 1, p =>
    let (a, p) := pmmAllocPage p
    let (as, p) := pmmAllocs n p
    (a :: as, p)

/-- No result is 0 when page 0 is not free and there are pages for all, and only then. -/
theorem pmmAllocs_ne_zero : ∀ (n : Nat) {p : Pmm}, PmmInv p →
    (0#32 ∉ (pmmAllocs n p).1 ↔ n = 0 ∨ 0 ∉ freeSet p ∧ n ≤ (freeSet p).card) := by
  intro n
  induction n with
  | zero => exact fun _ => ⟨fun _ => Or.inl rfl, fun _ => List.not_mem_nil⟩
  | succ n ih =>
    intro p hp
    simp only [pmmAllocs, List.mem_cons, not_or, Nat.succ_ne_zero, false_or]
    rcases pmmAllocPage_cases hp with ⟨hemp, heq⟩ | ⟨k, hk, hmin, haddr, hset, _, hinv⟩
    · rw [heq, hemp]
      exact ⟨fun h => absurd rfl h.1, fun h => absurd h.2 (Nat.not_succ_le_zero n)⟩
    · have hne : ¬0#32 = (pmmAllocPage p).1 ↔ k ≠ 0 := by
        rw [← BitVec.toNat_inj, haddr, BitVec.toNat_ofNat]
        unfold pmmPageSize
        omega
      have hcard : (freeSet (pmmAllocPage p).2).card = (freeSet p).card - 1 := by
        rw [hset, Finset.card_erase_of_mem hk]
      have hpos : 0 < (freeSet p).card := Finset.card_pos.mpr ⟨k, hk⟩
      have hzero : 0 ∉ freeSet p ↔ k ≠ 0 := by
        constructor
        · rintro h rfl
          exact h hk
        · intro h h0
          exact h (Nat.le_zero.mp (hmin 0 h0))
      rw [hne, ih hinv, hcard, hzero, hset]
      constructor
      · rintro ⟨hk0, h0 | ⟨_, hle⟩⟩
        · exact ⟨hk0, by omega⟩
        · exact ⟨hk0, by omega⟩
      · rintro ⟨hk0, hle⟩
        refine ⟨hk0, Or.inr ⟨fun hm => ?_, by omega⟩⟩
        exact hzero.mpr hk0 (Finset.mem_of_mem_erase hm)

/-! ## What each function asks for -/

/-- The rest of a list of requests, after a first part that may fault. -/
def asksThen {σ τ : Type} (x : Option σ) (l : σ → List τ) : List τ :=
  match x with
  | none => []
  | some s => l s

/-- The requests of `n` turns of a loop. -/
def asksFrom {σ τ : Type} (f : Nat → σ → Option σ) (l : Nat → σ → List τ) :
    Nat → Nat → σ → List τ
  | 0, _, _ => []
  | n + 1, i, s => l i s ++ asksThen (f i s) (asksFrom f l n (i + 1))

def vmmMapPageAsks (virt : U32) (s : Phys) : List U32 :=
  if !present (word s.mem kernelPdAddr (pdIndex virt)) then [(pmmAllocPage s.pmm).1] else []

def procMapPageAsks (pdPhys virt : U32) (s : Loader) : List U32 :=
  asksThen (kload32 s.mem (wordPtr pdPhys (pdIndex virt))) fun pde =>
    if !present pde then [(pmmAllocPage s.pmm).1] else []

def loadPageAsks (b : ElfBuf) (pdPhys ph vaddr : U32) (s : Loader) : List U32 :=
  let (frame, pmm) := pmmAllocPage s.pmm
  frame :: if pageMapped frame then
    asksThen (fillPage b ph vaddr frame (memzero s.mem frame.toNat 4096)) fun mem =>
      procMapPageAsks pdPhys vaddr { s with mem := mem, pmm := pmm }
  else []

def loadSegmentAsks (b : ElfBuf) (pdPhys ph : U32) (s : Loader) : List U32 :=
  asksThen (pVaddr s.mem ph) fun pv => asksThen (pMemsz s.mem ph) fun pm =>
    let lo := (pv &&& ~~~0xFFF#32).toNat / 4096
    let hi := ((pv + pm + 0xFFF#32) &&& ~~~0xFFF#32).toNat / 4096
    asksFrom (fun n s => loadPage b pdPhys ph (BitVec.ofNat 32 (n * 4096)) s)
      (fun n s => loadPageAsks b pdPhys ph (BitVec.ofNat 32 (n * 4096)) s) (hi - lo) lo s

def loadHeaderAsks (b : ElfBuf) (pdPhys : U32) (i : Nat) (s : Loader) : List U32 :=
  let ph := phAddr b s.mem i
  asksThen (pType s.mem ph) fun ty => if ty != ptLoad then [] else loadSegmentAsks b pdPhys ph s

def loadStackAsks (pdPhys : U32) (s : Loader) : List U32 :=
  let (frame, pmm) := pmmAllocPage s.pmm
  frame :: if pageMapped frame then
    procMapPageAsks pdPhys userStackVirt { s with mem := memzero s.mem frame.toNat 4096, pmm := pmm }
  else []

def loadTaskAsks (s : Loader) : List U32 := [(pmmAllocPage s.pmm).1]

def loadProgramAsks (b : ElfBuf) (pdPhys : U32) (s : Loader) : List U32 :=
  asksFrom (loadHeader b pdPhys) (loadHeaderAsks b pdPhys) (ePhnum b s.mem).toNat 0 s ++
    asksThen (forRangeM 0 (ePhnum b s.mem).toNat (loadHeader b pdPhys) s) fun s =>
      loadStackAsks pdPhys s ++ asksThen (loadStack pdPhys s) loadTaskAsks

/-- What `elf_exec` asks `pmm_alloc_page` for: a directory, a page and at times a table for
each page of a segment and for the stack, a kernel stack. -/
def elfAsks (b : ElfBuf) (file : Option FileImage) (s : Loader) : List U32 :=
  match file with
  | none => []
  | some file =>
    let s := readFile b file s
    if file.bytes.length < 52 then []
    else if !elfMagic b s.mem then []
    else (pmmAllocPage s.pmm).1 ::
      asksThen (procAllocPd s) fun (pdPhys, s) => loadProgramAsks b pdPhys s

/-! ## The lists are what the allocator returned -/

/-- `l` is what successive allocations from `p` return, and a result of the call leaves the
allocator where they do. -/
structure Asks {σ : Type} (pm : σ → Pmm) (l : List U32) (p : Pmm) (out : Option σ) : Prop where
  list : (pmmAllocs l.length p).1 = l
  pmm : ∀ s, out = some s → (pmmAllocs l.length p).2 = pm s

section Rules

variable {σ τ : Type} {pm : σ → Pmm} {pm' : τ → Pmm} {p : Pmm} {l : List U32}

theorem pmmAllocs_append : ∀ (m n : Nat) (p : Pmm), pmmAllocs (m + n) p =
    ((pmmAllocs m p).1 ++ (pmmAllocs n (pmmAllocs m p).2).1,
      (pmmAllocs n (pmmAllocs m p).2).2) := by
  intro m
  induction m with
  | zero =>
    intro n p
    rw [Nat.zero_add]
    rfl
  | succ m ih =>
    intro n p
    rw [Nat.succ_add]
    simp only [pmmAllocs, ih, List.cons_append]

theorem Asks.nil {out : Option σ} (h : ∀ s, out = some s → pm s = p) : Asks pm [] p out :=
  ⟨rfl, fun s hs => (h s hs).symm⟩

theorem Asks.one {out : Option σ} (h : ∀ s, out = some s → pm s = (pmmAllocPage p).2) :
    Asks pm [(pmmAllocPage p).1] p out :=
  ⟨rfl, fun s hs => (h s hs).symm⟩

/-- One call after another. -/
theorem Asks.bind {x : Option σ} {f : σ → Option τ} {l2 : σ → List U32} (h : Asks pm l p x)
    (h2 : ∀ s, x = some s → Asks pm' (l2 s) (pm s) (f s)) :
    Asks pm' (l ++ asksThen x l2) p (x.bind f) := by
  cases x with
  | none =>
    rw [asksThen, List.append_nil]
    exact ⟨h.list, nofun⟩
  | some s =>
    have hs := h2 s rfl
    have hp := h.pmm s rfl
    rw [asksThen]
    constructor
    · rw [List.length_append, pmmAllocs_append, hp, h.list, hs.list]
    · intro t ht
      rw [List.length_append, pmmAllocs_append, hp]
      exact hs.pmm t ht

/-- A call that asks for nothing first. -/
theorem Asks.then {x : Option σ} {f : σ → Option τ} {l2 : σ → List U32}
    (h2 : ∀ s, x = some s → Asks pm' (l2 s) p (f s)) : Asks pm' (asksThen x l2) p (x.bind f) := by
  have h0 : Asks (fun _ : σ => p) [] p x := .nil fun _ _ => rfl
  exact h0.bind h2

/-- An allocation first. -/
theorem Asks.cons {out : Option σ} {a : U32} {q : Pmm} (hq : pmmAllocPage p = (a, q))
    (h : Asks pm l q out) : Asks pm (a :: l) p out := by
  constructor
  · simp only [List.length_cons, pmmAllocs, hq]
    rw [h.list]
  · intro s hs
    simp only [List.length_cons, pmmAllocs, hq]
    exact h.pmm s hs

/-- A loop, from one turn of it. -/
theorem Asks.loop {f : Nat → σ → Option σ} {la : Nat → σ → List U32}
    (hturn : ∀ i s, Asks pm (la i s) (pm s) (f i s)) :
    ∀ (n i : Nat) (s : σ), Asks pm (asksFrom f la n i s) (pm s) (forFromM n i f s) := by
  intro n
  induction n with
  | zero =>
    intro i s
    refine .nil fun s' hs' => ?_
    cases hs'
    rfl
  | succ n ih => exact fun i s => (hturn i s).bind fun s' _ => ih (i + 1) s'

end Rules

theorem procMapPage_asks (pdPhys virt phys flags : U32) (s : Loader) :
    Asks Loader.pmm (procMapPageAsks pdPhys virt s) s.pmm (procMapPage pdPhys virt phys flags s) := by
  have hensure : Asks Loader.pmm (procMapPageAsks pdPhys virt s) s.pmm
      (procEnsureTable pdPhys (pdIndex virt) s) := by
    refine Asks.then fun pde _ => ?_
    cases present pde with
    | true => exact .nil fun s' hs' => by cases hs'; rfl
    | false =>
      refine Asks.one fun s' hs' => ?_
      simp only [Bool.not_false, if_true] at hs'
      split at hs'
      next =>
        obtain ⟨mem, _, hm⟩ := Option.bind_eq_some_iff.mp hs'
        cases hm
        rfl
      next => cases hs'
  have hmap : Asks Loader.pmm (procMapPageAsks pdPhys virt s ++
      asksThen (procEnsureTable pdPhys (pdIndex virt) s) fun _ => []) s.pmm
      (procMapPage pdPhys virt phys flags s) := hensure.bind fun s1 _ => by
      refine .nil fun s' hs' => ?_
      obtain ⟨pde, _, hs'⟩ := Option.bind_eq_some_iff.mp hs'
      obtain ⟨mem, _, hs'⟩ := Option.bind_eq_some_iff.mp hs'
      cases hs'
      rfl
  have hlist : ∀ x : Option Loader, asksThen x (fun _ => ([] : List U32)) = [] := by
    intro x
    cases x <;> rfl
  rw [hlist, List.append_nil] at hmap
  exact hmap

theorem loadPage_asks (b : ElfBuf) (pdPhys ph vaddr : U32) (s : Loader) :
    Asks Loader.pmm (loadPageAsks b pdPhys ph vaddr s) s.pmm (loadPage b pdPhys ph vaddr s) := by
  unfold loadPageAsks loadPage
  cases hq : pmmAllocPage s.pmm with
  | mk frame pmm =>
    refine Asks.cons hq ?_
    by_cases hm : pageMapped frame
    · simp only [if_pos hm]
      exact Asks.then fun mem _ => procMapPage_asks pdPhys vaddr frame elfFlags ⟨mem, pmm, s.sched⟩
    · simp only [if_neg hm]
      exact .nil fun _ h => nomatch h

theorem loadSegment_asks (b : ElfBuf) (pdPhys ph : U32) (s : Loader) :
    Asks Loader.pmm (loadSegmentAsks b pdPhys ph s) s.pmm (loadSegment b pdPhys ph s) :=
  Asks.then fun _ _ => Asks.then fun _ _ => Asks.loop (fun _ _ => loadPage_asks ..) ..

theorem loadHeader_asks (b : ElfBuf) (pdPhys : U32) (i : Nat) (s : Loader) :
    Asks Loader.pmm (loadHeaderAsks b pdPhys i s) s.pmm (loadHeader b pdPhys i s) := by
  refine Asks.then fun ty _ => ?_
  split
  next => exact .nil fun s' hs' => by cases hs'; rfl
  next => exact loadSegment_asks ..

theorem loadStack_asks (pdPhys : U32) (s : Loader) :
    Asks Loader.pmm (loadStackAsks pdPhys s) s.pmm (loadStack pdPhys s) := by
  unfold loadStackAsks loadStack
  cases hq : pmmAllocPage s.pmm with
  | mk frame pmm =>
    refine Asks.cons hq ?_
    by_cases hm : pageMapped frame
    · simp only [if_pos hm]
      exact procMapPage_asks pdPhys userStackVirt frame elfFlags
        ⟨memzero s.mem frame.toNat 4096, pmm, s.sched⟩
    · simp only [if_neg hm]
      exact .nil fun _ h => nomatch h

theorem loadTask_asks (b : ElfBuf) (pdPhys : U32) (s : Loader) :
    Asks Loader.pmm (loadTaskAsks s) s.pmm (loadTask b pdPhys s) := by
  refine Asks.one fun s' hs' => ?_
  simp only [loadTask, Option.bind_eq_bind, Option.bind_eq_some_iff] at hs'
  obtain ⟨sched, _, hs'⟩ := hs'
  cases hs'
  rfl

theorem loadProgram_asks (b : ElfBuf) (pdPhys : U32) (s : Loader) :
    Asks Loader.pmm (loadProgramAsks b pdPhys s) s.pmm (loadProgram b pdPhys s) :=
  (Asks.loop (fun i s => loadHeader_asks b pdPhys i s) _ 0 s).bind fun s1 _ =>
    (loadStack_asks pdPhys s1).bind fun s2 _ => loadTask_asks b pdPhys s2

/-- **The list of `elf_exec`** is what the allocator returns to it. -/
theorem elfExec_asks (b : ElfBuf) (file : Option FileImage) (s : Loader) :
    Asks Loader.pmm (elfAsks b file s) s.pmm (elfExec b file s) := by
  cases file with
  | none => exact .nil fun s' hs' => by cases hs'; rfl
  | some f =>
    simp only [elfAsks, elfExec]
    split
    next => exact .nil fun s' hs' => by cases hs'; rfl
    next =>
      split
      next => exact .nil fun s' hs' => by cases hs'; rfl
      next =>
        have halloc : Asks (fun x : U32 × Loader => x.2.pmm) [(pmmAllocPage s.pmm).1] s.pmm
            (procAllocPd (readFile b f s)) := by
          refine Asks.one fun x hx => ?_
          simp only [procAllocPd] at hx
          split at hx
          next =>
            cases hx
            rfl
          next => cases hx
        exact halloc.bind fun x _ => loadProgram_asks b x.1 x.2

/-- Every page a call asks for is there: page 0, whose address says "none", is not among the
free ones, and there are as many as the call asks for. -/
def Enough (l : List U32) (p : Pmm) : Prop :=
  l = [] ∨ 0 ∉ freeSet p ∧ l.length ≤ (pmmFreeCount p).toNat

theorem Asks.enough_iff {σ : Type} {pm : σ → Pmm} {l : List U32} {p : Pmm} {out : Option σ}
    (h : Asks pm l p out) (hp : PmmInv p) : 0#32 ∉ l ↔ Enough l p := by
  have hiff := pmmAllocs_ne_zero l.length hp
  rw [h.list, List.length_eq_zero_iff, ← hp.count] at hiff
  exact hiff

/-! ## Atomic or not -/

/-- From `s` to `s'` the first 4 MB, every page in use (so every directory and table) and the
count of free pages are as they were, `buf` apart. -/
structure Kept (buf : Nat → Prop) (s s' : Phys) : Prop where
  mem : ∀ x, ¬buf x → x < pmmReserved ∨ x / 4096 ∉ freeSet s.pmm → s'.mem x = s.mem x
  count : pmmFreeCount s'.pmm = pmmFreeCount s.pmm

/-- A `vmm_map_page` in which an allocation fails changes nothing. -/
def VmmAtomic (virt phys flags : U32) (s : Phys) : Prop :=
  0#32 ∈ vmmMapPageAsks virt s →
    ∃ s', vmmMapPage virt phys flags s = some s' ∧ Kept (fun _ => False) s s'

/-- An `elf_exec` in which an allocation fails changes nothing but its file buffer. -/
def ElfAtomic (b : ElfBuf) (file : Option FileImage) (s : Loader) : Prop :=
  0#32 ∈ elfAsks b file s →
    ∃ s', elfExec b file s = some s' ∧
      Kept (InRun b.addr.toNat maxElfSize) ⟨s.mem, s.pmm⟩ ⟨s'.mem, s'.pmm⟩ ∧ s'.sched = s.sched

/-- **Frame 0 becomes a page table**: what `vmm_map_page` does with a failed allocation. -/
theorem vmmMapPage_failed {virt : U32} (phys flags : U32) {s : Phys}
    (hfail : 0#32 ∈ vmmMapPageAsks virt s) : ∃ s', vmmMapPage virt phys flags s = some s' ∧
      present (word s.mem kernelPdAddr (pdIndex virt)) = false ∧
      word s'.mem kernelPdAddr (pdIndex virt) = 3#32 := by
  unfold vmmMapPageAsks at hfail
  cases hp : present (word s.mem kernelPdAddr (pdIndex virt)) with
  | true =>
    rw [hp] at hfail
    exact absurd hfail List.not_mem_nil
  | false =>
    rw [hp] at hfail
    have hzero : (pmmAllocPage s.pmm).1 = 0#32 := (List.mem_singleton.mp hfail).symm
    have hlt := pdIndex_lt virt
    have hmapped : pageMapped 0#32 := Nat.le_of_ble_eq_true rfl
    have hentry : 0#32 ||| pagePresent ||| pageWrite = 3#32 := rfl
    have hdir : kernelPdAddr = 512 * 4096 := rfl
    -- the table is cleared and entered at frame 0
    have hensure : ∃ m, vmmEnsureTable (pdIndex virt) s =
        some ⟨setWord m kernelPdAddr (pdIndex virt) 3#32, (pmmAllocPage s.pmm).2⟩ := by
      unfold vmmEnsureTable
      simp only [hp, Bool.not_false, if_true, hzero, if_pos hmapped, hentry]
      exact ⟨_, rfl⟩
    obtain ⟨m, hensure⟩ := hensure
    generalize hm1 : setWord m kernelPdAddr (pdIndex virt) 3#32 = m1 at hensure
    have hword : word m1 kernelPdAddr (pdIndex virt) = 3#32 := by
      rw [← hm1, word_setWord_self]
    have hstore : kstore32 m1 (wordPtr (3#32 &&& ~~~0xFFF#32) (ptIndex virt)) (phys ||| flags) =
        some (setWord m1 (0 * 4096) (ptIndex virt) (phys ||| flags)) :=
      kstore32_page rfl (Nat.zero_lt_of_lt (Nat.lt_succ_self 4095)) (ptIndex_lt virt)
    refine ⟨⟨setWord m1 (0 * 4096) (ptIndex virt) (phys ||| flags), (pmmAllocPage s.pmm).2⟩,
      ?_, rfl, ?_⟩
    · unfold vmmMapPage
      simp only [hensure, Option.bind_eq_bind, Option.bind_some, hword, hstore]
    · rw [← hword, hdir]
      exact word_page_congr hlt fun x hx => setWord_otherPage _ (ptIndex_lt virt) (by omega)

theorem vmmMapPage_not_atomic {virt phys flags : U32} {s : Phys}
    (hfail : 0#32 ∈ vmmMapPageAsks virt s) : ¬VmmAtomic virt phys flags s := by
  intro hatomic
  obtain ⟨s', hrun, hkept⟩ := hatomic hfail
  obtain ⟨s1, hrun', habs, hentry⟩ := vmmMapPage_failed phys flags hfail
  rw [hrun] at hrun'
  cases hrun'
  -- the directory lies in the first 4 MB, and its entry has changed
  have hsame : word s'.mem kernelPdAddr (pdIndex virt) = word s.mem kernelPdAddr (pdIndex virt) := by
    refine word_congr (pdIndex_lt virt) fun x hx => hkept.mem x not_false (Or.inl ?_)
    unfold InRun kernelPdAddr at hx
    unfold pmmReserved
    omega
  rw [← hsame, hentry] at habs
  cases habs

/-- A call of `elf_exec` that asked for a page and came back has registered a task. -/
theorem elfExec_registers {b : ElfBuf} {file : Option FileImage} {s s' : Loader}
    (hask : elfAsks b file s ≠ []) (hrun : elfExec b file s = some s') :
    s'.sched.ntasks = s.sched.ntasks + 1 := by
  cases file with
  | none => exact absurd rfl hask
  | some f =>
    simp only [elfAsks, elfExec] at hask hrun
    split at hrun
    next h52 => exact absurd (if_pos h52) hask
    next h52 =>
      rw [if_neg h52] at hask
      split at hrun
      next hmagic => exact absurd (if_pos hmagic) hask
      next =>
        obtain ⟨⟨pdPhys, s1⟩, halloc, hprog⟩ := Option.bind_eq_some_iff.mp hrun
        obtain ⟨_, _, _, _, _, hadd⟩ := loadProgram_sched halloc hprog
        exact (schedAddTask_cases hadd).2.1

/-- **When exhaustion is handled**: never. For every state of the allocator, a call of
`vmm_map_page` or `elf_exec` is atomic exactly if every page it asks for is there. A file with a
page below 16 MB is not meant: the TLB decides where the loader's stores go once it is mapped. -/
theorem oom_atomic_iff (s : Loader) (hp : PmmInv s.pmm) :
    (∀ virt phys flags : U32, VmmAtomic virt phys flags ⟨s.mem, s.pmm⟩ ↔
      Enough (vmmMapPageAsks virt ⟨s.mem, s.pmm⟩) s.pmm) ∧
    ∀ (b : ElfBuf) (file : Option FileImage),
      ElfAtomic b file s ↔ Enough (elfAsks b file s) s.pmm := by
  constructor
  · intro virt phys flags
    have hasks : Asks (fun _ : Unit => s.pmm) (vmmMapPageAsks virt ⟨s.mem, s.pmm⟩) s.pmm none := by
      unfold vmmMapPageAsks
      split
      next => exact .one nofun
      next => exact .nil nofun
    rw [← hasks.enough_iff hp]
    exact ⟨fun hatomic hfail => vmmMapPage_not_atomic hfail hatomic,
      fun h hfail => absurd hfail h⟩
  · intro b file
    rw [← (elfExec_asks b file s).enough_iff hp]
    refine ⟨fun hatomic hfail => ?_, fun h hfail => absurd hfail h⟩
    obtain ⟨s', hrun, _, hsched⟩ := hatomic hfail
    have hmore := elfExec_registers (List.ne_nil_of_mem hfail) hrun
    rw [hsched] at hmore
    omega

/-- A directory as `init_paging` leaves it has no entry for 0xD0000000. -/
theorem kernelDir_absent {m : Mem} (hd : KernelDir m) :
    present (word m kernelPdAddr (pdIndex 0xD0000000#32)) = false := by
  have hidx : pdIndex 0xD0000000#32 = 832 := rfl
  have hword := hd 832 (by omega)
  rw [if_neg (by omega)] at hword
  rw [hidx]
  exact not_present_zero hword

/-- On a fresh machine with 32 MB mapping one page is atomic: there is a page for its table. -/
theorem oom_atomic_iff_first : VmmAtomic 0xD0000000#32 0x500000#32 3#32
    ⟨initPaging fun _ => 0#8, pmmInit ⟨fun _ => 0#32, 0#32, 0#32⟩ 0x2000000#32⟩ := by
  obtain ⟨hinv, _, hset⟩ := pmmInit_spec ⟨fun _ => 0#32, 0#32, 0#32⟩ 0x2000000#32
  have hkd := (initPaging_spec fun _ => 0#8).1
  have hcount := hinv.count
  rw [hset, pmmTotal_32MB, Nat.card_Ico] at hcount
  generalize pmmInit ⟨fun _ => 0#32, 0#32, 0#32⟩ 0x2000000#32 = p at hinv hset hcount ⊢
  generalize initPaging (fun _ => 0#8) = m at hkd ⊢
  have hiff := oom_atomic_iff ⟨m, p, emptySched fun _ => newTask 0 0 0 0 0 0 0⟩ hinv
  refine (hiff.1 _ _ _).mpr (Or.inr ⟨fun h0 => ?_, ?_⟩)
  · have hge := (Finset.mem_Ico.mp (hset ▸ h0)).1
    exact absurd hge (Nat.not_le.mpr (Nat.div_pos (Nat.le_of_ble_eq_true rfl) (Nat.succ_pos _)))
  · unfold vmmMapPageAsks
    simp only [kernelDir_absent hkd, Bool.not_false, if_true, List.length_singleton]
    show 1 ≤ p.freePages.toNat
    rw [hcount]
    exact Nat.le_of_ble_eq_true rfl

/-- No page is left after 7168 allocations. -/
theorem allocs_exhaust (p0 : Pmm) {memSize : U32} (hm : (pmmTotal memSize).toNat = 8192) :
    PmmInv (pmmRun (pmmInit p0 memSize) (List.replicate 7168 .alloc)) ∧
      freeSet (pmmRun (pmmInit p0 memSize) (List.replicate 7168 .alloc)) = ∅ := by
  obtain ⟨hinv, _, hset⟩ := pmmInit_spec p0 memSize
  rw [hm] at hset
  have hall := pmmRun_allocs hinv hset 7168 (Nat.le_of_ble_eq_true rfl)
  exact ⟨(pmmRun_inv hinv _).1, hall.trans (Finset.Ico_self _)⟩

/-- **With every page of 32 MB taken**, mapping one page makes frame 0 a page table. -/
theorem vmm_not_atomic : ¬VmmAtomic 0xD0000000#32 0x500000#32 3#32 ⟨initPaging fun _ => 0#8,
    pmmRun (pmmInit ⟨fun _ => 0#32, 0#32, 0#32⟩ 0x2000000#32) (List.replicate 7168 .alloc)⟩ := by
  obtain ⟨hinv, hemp⟩ := allocs_exhaust ⟨fun _ => 0#32, 0#32, 0#32⟩ pmmTotal_32MB
  have hkd := (initPaging_spec fun _ => 0#8).1
  generalize pmmRun (pmmInit ⟨fun _ => 0#32, 0#32, 0#32⟩ 0x2000000#32)
    (List.replicate 7168 .alloc) = p at hinv hemp ⊢
  generalize initPaging (fun _ => 0#8) = m at hkd ⊢
  refine vmmMapPage_not_atomic ?_
  unfold vmmMapPageAsks
  simp only [kernelDir_absent hkd, Bool.not_false, if_true, List.mem_singleton]
  rcases pmmAllocPage_cases hinv with ⟨_, heq⟩ | ⟨k, hk, _⟩
  · rw [heq]
  · rw [hemp] at hk
    exact absurd hk (Finset.notMem_empty k)

end PepinOS
