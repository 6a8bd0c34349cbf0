import PepinOS.Fs.Elf

/-!
# The address space under construction

What `elf_exec` has built at any point of its loops, as an abstract address
space: the page of the directory, the page table of each directory entry, the
frame of each virtual page, and who owns each page taken from the allocator.
`LoadInv` ties it to memory. Ownership is a function from physical pages to
roles, so two parts of the new program can never share a page.

The first four directory entries are the kernel's and lead to its own tables:
`tab e = some (0x201 + e)`. A program that asks for a page below 16 MB is mapped
*into those tables*, and the invariant says so: `page v` is then the frame its
entry has been redirected to. All the rest of memory is as before the load
(`mem_kept`), and so are the shared tables when no such page was asked for
(`shared_kept`).

Three steps build everything: `LoadInv.claim` takes a page from the allocator,
`LoadInv.addTable` hangs an empty page table into the directory, `LoadInv.map`
writes a table entry.
-/

namespace PepinOS

/-- What a page taken by a load is for. -/
inductive Role where
  | dir
  | table (e : Nat)
  | page (v : Nat)
  | kstack
  deriving DecidableEq

/-- The address space a load has built so far; pages are numbers. -/
structure Space where
  dir : Nat
  tab : Nat → Option Nat
  page : Nat → Option Nat
  own : Nat → Option Role

def Space.claim (sp : Space) (k : Nat) (r : Role) : Space :=
  { sp with own := Function.update sp.own k (some r) }

/-- The number an entry holds: a frame with the flags of `elf_exec`, or `base`. -/
def entryNat (base : Nat) : Option Nat → Nat
  | none => base
  | some f => f * 4096 + 7

/-- `s` is what a load started in `s0` has made of memory, building `sp`. -/
structure LoadInv (s0 : Loader) (sp : Space) (s : Loader) : Prop where
  pmm : PmmInv s.pmm
  reserved : Reserved s0.pmm
  sched : s.sched = s0.sched
  free_sub : freeSet s.pmm ⊆ freeSet s0.pmm
  own_taken : ∀ k r, sp.own k = some r →
    k ∈ freeSet s0.pmm ∧ k ∉ freeSet s.pmm ∧ (r ≠ .kstack → k < 4096)
  dir_own : sp.own sp.dir = some .dir
  tab_shared : ∀ e, e < 4 → sp.tab e = some (sharedTable e)
  tab_own : ∀ e t, 4 ≤ e → sp.tab e = some t → sp.own t = some (.table e)
  page_own : ∀ v f, sp.page v = some f → sp.own f = some (.page v)
  page_tab : ∀ v f, sp.page v = some f → sp.tab (v / 1024) ≠ none
  dir_word : ∀ e, e < 1024 → (word s.mem (sp.dir * 4096) e).toNat = entryNat 0 (sp.tab e)
  tab_word : ∀ e t, e < 1024 → sp.tab e = some t → ∀ i, i < 1024 →
    (word s.mem (t * 4096) i).toNat =
      entryNat (if e < 4 then (word s0.mem (t * 4096) i).toNat else 0) (sp.page (e * 1024 + i))
  mem_kept : ∀ x, sp.own (x / 4096) = none → ¬InShared x → s.mem x = s0.mem x
  shared_kept : (∀ v, v < 4096 → sp.page v = none) → ∀ x, InShared x → s.mem x = s0.mem x

/-! ## Addresses -/

/-- The flags `elf_exec` maps with, on a frame address. -/
theorem toNat_or_elfFlags {p : U32} {f : Nat} (hp : p.toNat = f * 4096) :
    (p ||| elfFlags).toNat = f * 4096 + 7 := toNat_or_flags hp (by decide)

/-! ## What the roles give -/

section

variable {s0 s : Loader} {sp : Space} (h : LoadInv s0 sp s)

include h

theorem LoadInv.own_low {k : Nat} {r : Role} (ho : sp.own k = some r) : 1024 ≤ k :=
  h.reserved k (h.own_taken k r ho).1

theorem LoadInv.dir_lt : sp.dir < 4096 :=
  (h.own_taken _ _ h.dir_own).2.2 (by simp)

theorem LoadInv.dir_ge : 1024 ≤ sp.dir := h.own_low h.dir_own

/-- A table is either the kernel's or a page of this load. -/
theorem LoadInv.tab_cases {e t : Nat} (ht : sp.tab e = some t) :
    (e < 4 ∧ t = sharedTable e) ∨ (4 ≤ e ∧ sp.own t = some (.table e)) := by
  rcases Nat.lt_or_ge e 4 with he | he
  · rw [h.tab_shared e he] at ht
    exact Or.inl ⟨he, (Option.some.inj ht).symm⟩
  · exact Or.inr ⟨he, h.tab_own e t he ht⟩

theorem LoadInv.tab_lt {e t : Nat} (ht : sp.tab e = some t) : t < 4096 := by
  rcases h.tab_cases ht with ⟨he, rfl⟩ | ⟨_, ho⟩
  · unfold sharedTable kernelPtAddr; omega
  · exact (h.own_taken _ _ ho).2.2 (by simp)

/-- Different entries have different tables. -/
theorem LoadInv.tab_inj {e e' t : Nat} (ht : sp.tab e = some t) (ht' : sp.tab e' = some t) :
    e = e' := by
  rcases h.tab_cases ht with ⟨he, hs⟩ | ⟨he, ho⟩
  · rcases h.tab_cases ht' with ⟨he', hs'⟩ | ⟨he', ho'⟩
    · unfold sharedTable at hs hs'; omega
    · have := h.own_low ho'
      unfold sharedTable kernelPtAddr at hs
      omega
  · rcases h.tab_cases ht' with ⟨he', hs'⟩ | ⟨he', ho'⟩
    · have := h.own_low ho
      unfold sharedTable kernelPtAddr at hs'
      omega
    · rw [ho] at ho'
      injection ho' with ho'
      injection ho'

theorem LoadInv.tab_ne_dir {e t : Nat} (ht : sp.tab e = some t) : t ≠ sp.dir := by
  intro heq
  rcases h.tab_cases ht with ⟨he, hs⟩ | ⟨he, ho⟩
  · have := h.dir_ge
    unfold sharedTable kernelPtAddr at hs
    omega
  · rw [heq, h.dir_own] at ho
    cases ho

/-- A page that holds program text or data is no table and no directory. -/
theorem LoadInv.page_ne_tab {f v e t : Nat} (ho : sp.own f = some (.page v))
    (ht : sp.tab e = some t) : f ≠ t := by
  intro heq
  rcases h.tab_cases ht with ⟨he, hs⟩ | ⟨he, ho'⟩
  · have := h.own_low ho
    unfold sharedTable kernelPtAddr at hs
    omega
  · rw [← heq, ho] at ho'
    cases ho'

theorem LoadInv.page_ne_dir {f v : Nat} (ho : sp.own f = some (.page v)) : f ≠ sp.dir := by
  intro heq
  rw [heq, h.dir_own] at ho
  cases ho

/-- A page still free has no role yet. -/
theorem LoadInv.own_free {k : Nat} (hk : k ∈ freeSet s.pmm) : sp.own k = none := by
  cases ho : sp.own k with
  | none => rfl
  | some r => exact absurd hk (h.own_taken k r ho).2.1

theorem LoadInv.free_ge {k : Nat} (hk : k ∈ freeSet s.pmm) : 1024 ≤ k :=
  h.reserved k (h.free_sub hk)

end

/-! ## The three steps -/

/-- A page taken from the allocator, with any contents, gets a role. -/
theorem LoadInv.claim {s0 s : Loader} {sp : Space} (h : LoadInv s0 sp s) {k : Nat} {r : Role}
    {pmm : Pmm} {mem : Mem} (hk : k ∈ freeSet s.pmm) (hset : freeSet pmm = (freeSet s.pmm).erase k)
    (hpmm : PmmInv pmm) (hlow : r ≠ .kstack → k < 4096)
    (hmem : ∀ x, x / 4096 ≠ k → mem x = s.mem x) :
    LoadInv s0 (sp.claim k r) { s with mem := mem, pmm := pmm } := by
  have hnone := h.own_free hk
  have hk1 := h.free_ge hk
  -- no role in use so far is the page's
  have hne : ∀ t r', sp.own t = some r' → t ≠ k := by
    intro t r' ho heq
    rw [heq, hnone] at ho
    cases ho
  have hown : ∀ t r', sp.own t = some r' → (sp.claim k r).own t = some r' := by
    intro t r' ho
    show Function.update sp.own k (some r) t = _
    rw [Function.update_of_ne (hne t r' ho)]
    exact ho
  have htne : ∀ e t, sp.tab e = some t → t ≠ k := by
    intro e t ht
    rcases h.tab_cases ht with ⟨he, hs⟩ | ⟨_, ho⟩
    · unfold sharedTable kernelPtAddr at hs
      omega
    · exact hne t _ ho
  refine ⟨hpmm, h.reserved, h.sched, ?_, ?_, hown _ _ h.dir_own, h.tab_shared, ?_, ?_,
    h.page_tab, ?_, ?_, ?_, ?_⟩
  · intro j hj
    rw [hset] at hj
    exact h.free_sub (Finset.mem_of_mem_erase hj)
  · intro t r' ho
    have ho' : Function.update sp.own k (some r) t = some r' := ho
    rw [hset]
    by_cases htk : t = k
    · subst htk
      rw [Function.update_self] at ho'
      have hrr : r = r' := Option.some.inj ho'
      exact ⟨h.free_sub hk, Finset.notMem_erase t _, fun hr => hlow (hrr ▸ hr)⟩
    · rw [Function.update_of_ne htk] at ho'
      obtain ⟨h1, h2, h3⟩ := h.own_taken t r' ho'
      exact ⟨h1, fun hm => h2 (Finset.mem_of_mem_erase hm), h3⟩
  · intro e t he ht
    exact hown t _ (h.tab_own e t he ht)
  · intro v f hv
    exact hown f _ (h.page_own v f hv)
  · intro e he
    have hword := word_page_congr he fun x (hx : x / 4096 = sp.dir) =>
      hmem x (by rw [hx]; exact hne _ _ h.dir_own)
    exact (congrArg _ hword).trans (h.dir_word e he)
  · intro e t he ht i hi
    have hword := word_page_congr hi fun x (hx : x / 4096 = t) =>
      hmem x (by rw [hx]; exact htne e t ht)
    exact (congrArg _ hword).trans (h.tab_word e t he ht i hi)
  · intro x hx hsh
    have hx' : Function.update sp.own k (some r) (x / 4096) = none := hx
    by_cases hxk : x / 4096 = k
    · rw [hxk, Function.update_self] at hx'
      cases hx'
    · rw [Function.update_of_ne hxk] at hx'
      exact (hmem x hxk).trans (h.mem_kept x hx' hsh)
  · intro hnone' x hx
    have hxk : x / 4096 ≠ k := by unfold InShared sharedTable kernelPtAddr at hx; omega
    exact (hmem x hxk).trans (h.shared_kept hnone' x hx)

/-- An empty page table, owned already, goes into the directory. -/
theorem LoadInv.addTable {s0 s : Loader} {sp : Space} (h : LoadInv s0 sp s) {e k : Nat} {w : U32}
    (he : e < 1024) (hnone : sp.tab e = none) (hown : sp.own k = some (.table e))
    (hzero : ∀ i, i < 1024 → word s.mem (k * 4096) i = 0#32) (hw : w.toNat = k * 4096 + 7) :
    LoadInv s0 { sp with tab := Function.update sp.tab e (some k) }
      { s with mem := setWord s.mem (sp.dir * 4096) e w } := by
  have he4 : 4 ≤ e := by
    by_contra hlt
    rw [h.tab_shared e (by omega)] at hnone
    cases hnone
  have hmem : ∀ x, x / 4096 ≠ sp.dir → setWord s.mem (sp.dir * 4096) e w x = s.mem x :=
    fun x hx => setWord_otherPage w he hx
  have hdir := h.dir_ge
  -- no page was ever mapped through the missing entry
  have hpage : ∀ i, i < 1024 → sp.page (e * 1024 + i) = none := by
    intro i hi
    cases hp : sp.page (e * 1024 + i) with
    | none => rfl
    | some f =>
      have ht := h.page_tab _ f hp
      rw [show (e * 1024 + i) / 1024 = e by omega] at ht
      exact absurd hnone ht
  refine ⟨h.pmm, h.reserved, h.sched, h.free_sub, h.own_taken, h.dir_own, ?_, ?_, h.page_own,
    ?_, ?_, ?_, ?_, ?_⟩
  · intro e' he'
    show Function.update sp.tab e (some k) e' = _
    rw [Function.update_of_ne (by omega)]
    exact h.tab_shared e' he'
  · intro e' t he' ht
    have ht' : Function.update sp.tab e (some k) e' = some t := ht
    by_cases hee : e' = e
    · rw [hee, Function.update_self] at ht'
      rw [hee, ← Option.some.inj ht']
      exact hown
    · rw [Function.update_of_ne hee] at ht'
      exact h.tab_own e' t he' ht'
  · intro v f hv
    show Function.update sp.tab e (some k) (v / 1024) ≠ none
    by_cases hee : v / 1024 = e
    · rw [hee, Function.update_self]; simp
    · rw [Function.update_of_ne hee]
      exact h.page_tab v f hv
  · intro e' he'
    show (word (setWord s.mem (sp.dir * 4096) e w) (sp.dir * 4096) e').toNat =
      entryNat 0 (Function.update sp.tab e (some k) e')
    by_cases hee : e' = e
    · rw [hee, Function.update_self, word_setWord_self]
      exact hw
    · rw [Function.update_of_ne hee, word_setWord_ne w hee]
      exact h.dir_word e' he'
  · intro e' t he' ht i hi
    have ht' : Function.update sp.tab e (some k) e' = some t := ht
    by_cases hee : e' = e
    · rw [hee, Function.update_self] at ht'
      rw [← Option.some.inj ht', hee]
      have hkd : k ≠ sp.dir := by
        intro heq
        rw [heq, h.dir_own] at hown
        cases hown
      have hword : word (setWord s.mem (sp.dir * 4096) e w) (k * 4096) i =
          word s.mem (k * 4096) i :=
        word_page_congr hi fun x hx => hmem x (by rw [hx]; exact hkd)
      show (word (setWord s.mem (sp.dir * 4096) e w) (k * 4096) i).toNat =
        entryNat (if e < 4 then _ else 0) (sp.page (e * 1024 + i))
      rw [hword, hzero i hi, hpage i hi, if_neg (by omega)]
      rfl
    · rw [Function.update_of_ne hee] at ht'
      have hword := word_page_congr hi fun x (hx : x / 4096 = t) =>
        hmem x (by rw [hx]; exact h.tab_ne_dir ht')
      exact (congrArg _ hword).trans (h.tab_word e' t he' ht' i hi)
  · intro x hx hsh
    have hxd : x / 4096 ≠ sp.dir := by
      intro heq
      rw [heq, h.dir_own] at hx
      cases hx
    exact (hmem x hxd).trans (h.mem_kept x hx hsh)
  · intro hnone' x hx
    have hxd : x / 4096 ≠ sp.dir := by unfold InShared sharedTable kernelPtAddr at hx; omega
    exact (hmem x hxd).trans (h.shared_kept hnone' x hx)

/-- A table entry is written: the page `v` now leads to frame `f`. -/
theorem LoadInv.map {s0 s : Loader} {sp : Space} (h : LoadInv s0 sp s) {v f t : Nat} {w : U32}
    (ht : sp.tab (v / 1024) = some t) (hown : sp.own f = some (.page v))
    (hw : w.toNat = f * 4096 + 7) :
    LoadInv s0 { sp with page := Function.update sp.page v (some f) }
      { s with mem := setWord s.mem (t * 4096) (v % 1024) w } := by
  have hi : v % 1024 < 1024 := by omega
  have hmem : ∀ x, x / 4096 ≠ t → setWord s.mem (t * 4096) (v % 1024) w x = s.mem x :=
    fun x hx => setWord_otherPage w hi hx
  refine ⟨h.pmm, h.reserved, h.sched, h.free_sub, h.own_taken, h.dir_own, h.tab_shared,
    h.tab_own, ?_, ?_, ?_, ?_, ?_, ?_⟩
  · intro v' f' hp
    have hp' : Function.update sp.page v (some f) v' = some f' := hp
    by_cases hvv : v' = v
    · rw [hvv, Function.update_self] at hp'
      rw [hvv, ← Option.some.inj hp']
      exact hown
    · rw [Function.update_of_ne hvv] at hp'
      exact h.page_own v' f' hp'
  · intro v' f' hp
    have hp' : Function.update sp.page v (some f) v' = some f' := hp
    by_cases hvv : v' = v
    · show sp.tab (v' / 1024) ≠ none
      rw [hvv, ht]; simp
    · rw [Function.update_of_ne hvv] at hp'
      exact h.page_tab v' f' hp'
  · intro e he
    have hword := word_page_congr he fun x (hx : x / 4096 = sp.dir) =>
      hmem x (by rw [hx]; exact Ne.symm (h.tab_ne_dir ht))
    exact (congrArg _ hword).trans (h.dir_word e he)
  · intro e t' he ht' i hi'
    show (word (setWord s.mem (t * 4096) (v % 1024) w) (t' * 4096) i).toNat =
      entryNat _ (Function.update sp.page v (some f) (e * 1024 + i))
    by_cases hvv : e * 1024 + i = v
    · have hee : e = v / 1024 := by omega
      have hii : i = v % 1024 := by omega
      have htt : t' = t := by
        rw [hee, ht] at ht'
        exact (Option.some.inj ht').symm
      rw [hvv, Function.update_self, htt, hii, word_setWord_self]
      exact hw
    · rw [Function.update_of_ne hvv, ← h.tab_word e t' he ht' i hi']
      by_cases htt : t' = t
      · have hee : e = v / 1024 := h.tab_inj ht' (htt ▸ ht)
        rw [htt, word_setWord_ne w (by omega)]
      · have hword := word_page_congr hi' fun x (hx : x / 4096 = t') =>
          hmem x (by rw [hx]; exact htt)
        exact congrArg _ hword
  · intro x hx hsh
    refine (hmem x fun heq => ?_).trans (h.mem_kept x hx hsh)
    rcases h.tab_cases ht with ⟨he, hs⟩ | ⟨_, ho⟩
    · exact hsh (by unfold InShared; unfold sharedTable at hs ⊢; omega)
    · rw [heq, ho] at hx
      cases hx
  · intro hnone x hx
    have hv4 : 4096 ≤ v := by
      by_contra hlt
      have hn : Function.update sp.page v (some f) v = none := hnone v (by omega)
      rw [Function.update_self] at hn
      cases hn
    refine (hmem x fun heq => ?_).trans (h.shared_kept (fun v' hv' => ?_) x hx)
    · rcases h.tab_cases ht with ⟨he, _⟩ | ⟨_, ho⟩
      · omega
      · have := h.own_low ho
        unfold InShared sharedTable kernelPtAddr at hx
        omega
    · have hn : Function.update sp.page v (some f) v' = none := hnone v' hv'
      rw [Function.update_of_ne (by omega)] at hn
      exact hn

/-! ## The allocator's side of a step -/

/-- An allocation in a state with a free page. -/
theorem alloc_some {p : Pmm} (hp : PmmInv p) (hne : (freeSet p).Nonempty) :
    ∃ k ∈ freeSet p, (∀ j ∈ freeSet p, k ≤ j) ∧ (pmmAllocPage p).1.toNat = k * 4096 ∧
      freeSet (pmmAllocPage p).2 = (freeSet p).erase k ∧ PmmInv (pmmAllocPage p).2 := by
  rcases pmmAllocPage_cases hp with ⟨hemp, _⟩ | ⟨k, hk, hmin, haddr, hset, _, hinv⟩
  · rw [hemp] at hne
    exact absurd hne (by simp)
  · exact ⟨k, hk, hmin, haddr, hset, hinv⟩

/-- The free set never grows in an allocation. -/
theorem alloc_subset {p : Pmm} (hp : PmmInv p) :
    freeSet (pmmAllocPage p).2 ⊆ freeSet p ∧ PmmInv (pmmAllocPage p).2 := by
  rcases pmmAllocPage_cases hp with ⟨_, heq⟩ | ⟨k, _, _, _, hset, _, hinv⟩
  · rw [heq]
    exact ⟨Finset.Subset.refl _, hp⟩
  · rw [hset]
    exact ⟨Finset.erase_subset k _, hinv⟩

theorem pageMapped_iff {p : U32} {k : Nat} (hp : p.toNat = k * 4096) :
    pageMapped p ↔ k < 4096 := by
  unfold pageMapped identityTop
  omega

/-- What a successful step of the load adds: pages get roles and directory
entries get tables, nothing is taken back, and the frames of mapped pages keep
their contents. -/
structure Extends (sp : Space) (s : Loader) (sp' : Space) (s' : Loader) : Prop where
  dir : sp'.dir = sp.dir
  own : ∀ k r, sp.own k = some r → sp'.own k = some r
  frame : ∀ k v, sp.own k = some (.page v) → ∀ x, x / 4096 = k → s'.mem x = s.mem x
  free : freeSet s'.pmm ⊆ freeSet s.pmm

theorem Extends.refl (sp : Space) (s : Loader) : Extends sp s sp s :=
  ⟨rfl, fun _ _ h => h, fun _ _ _ _ _ => rfl, Finset.Subset.refl _⟩

theorem Extends.trans {sp sp' sp'' : Space} {s s' s'' : Loader} (h : Extends sp s sp' s')
    (h' : Extends sp' s' sp'' s'') : Extends sp s sp'' s'' :=
  ⟨h'.dir.trans h.dir, fun k r ho => h'.own k r (h.own k r ho),
    fun k v ho x hx => (h'.frame k v (h.own k _ ho) x hx).trans (h.frame k v ho x hx),
    h'.free.trans h.free⟩

/-- `pd[e]` after the directory entry has been made present: there is a table.
The step takes at most one page, and faults only when that page is not mapped. -/
theorem procEnsureTable_cases {s0 s : Loader} {sp : Space} (h : LoadInv s0 sp s) {pdPhys : U32}
    (hpd : pdPhys.toNat = sp.dir * 4096) {e : Nat} (he : e < 1024)
    (hne : sp.tab e = none → (freeSet s.pmm).Nonempty) :
    (procEnsureTable pdPhys e s = none ∧ sp.tab e = none ∧ ∀ j ∈ freeSet s.pmm, 4096 ≤ j) ∨
    ∃ s' sp', procEnsureTable pdPhys e s = some s' ∧ LoadInv s0 sp' s' ∧ Extends sp s sp' s' ∧
      sp'.page = sp.page ∧ (∀ e', e' ≠ e → sp'.tab e' = sp.tab e') ∧ sp'.tab e ≠ none ∧
      (sp.tab e ≠ none → freeSet s'.pmm = freeSet s.pmm) ∧
      (sp.tab e = none → ∃ k ∈ freeSet s.pmm, (∀ j ∈ freeSet s.pmm, k ≤ j) ∧
        freeSet s'.pmm = (freeSet s.pmm).erase k) := by
  have hload := kload32_page (m := s.mem) hpd h.dir_lt he
  have hword := h.dir_word e he
  unfold procEnsureTable
  rw [hload]
  simp only [Option.bind_eq_bind, Option.bind_some]
  cases ht : sp.tab e with
  | some t =>
    rw [ht] at hword
    rw [present_entry hword]
    exact Or.inr ⟨s, sp, rfl, h, Extends.refl sp s, rfl, fun _ _ => rfl, by rw [ht]; simp,
      fun _ => rfl, fun hc => by cases hc⟩
  | none =>
    rw [ht] at hword
    rw [not_present_zero hword]
    obtain ⟨k, hk, hmin, haddr, hset, hpmm⟩ := alloc_some h.pmm (hne ht)
    simp only [Bool.not_false, if_true]
    by_cases hk4 : k < 4096
    · right
      rw [if_pos ((pageMapped_iff haddr).mpr hk4)]
      -- the cleared page, claimed as the table of `e`
      obtain ⟨hout, hzero⟩ := clearTable_spec s.mem k
      rw [haddr]
      generalize forRange 0 1024 (fun i m => setWord m (k * 4096) i 0#32) s.mem = m1 at hout hzero
      have hclaim : LoadInv s0 (sp.claim k (.table e))
          { s with mem := m1, pmm := (pmmAllocPage s.pmm).2 } :=
        h.claim hk hset hpmm (fun _ => hk4) hout
      have hown : (sp.claim k (.table e)).own k = some (.table e) := Function.update_self ..
      have htable := hclaim.addTable he (ht : (sp.claim k (.table e)).tab e = none) hown
        hzero (toNat_userEntry haddr)
      rw [kstore32_page hpd h.dir_lt he]
      refine ⟨_, _, rfl, htable, ⟨rfl, ?_, ?_, ?_⟩, rfl, ?_, ?_, fun hc => absurd rfl hc,
        fun _ => ⟨k, hk, hmin, hset⟩⟩
      · intro j r ho
        have hjk : j ≠ k := fun heq => by rw [heq, h.own_free hk] at ho; cases ho
        show Function.update sp.own k _ j = _
        rw [Function.update_of_ne hjk]
        exact ho
      · intro j v ho x hx
        have hjk : j ≠ k := fun heq => by rw [heq, h.own_free hk] at ho; cases ho
        have hjd : j ≠ sp.dir := h.page_ne_dir ho
        show setWord m1 (sp.dir * 4096) e _ x = s.mem x
        rw [setWord_otherPage _ he (by rw [hx]; exact hjd)]
        exact hout x (by rw [hx]; exact hjk)
      · rw [hset]
        exact Finset.erase_subset k _
      · intro e' hee
        exact Function.update_of_ne hee _ _
      · show Function.update sp.tab e (some k) e ≠ none
        rw [Function.update_self]; simp
    · left
      rw [if_neg (fun hm => hk4 ((pageMapped_iff haddr).mp hm))]
      exact ⟨rfl, trivial, fun j hj => by have := hmin j hj; omega⟩

/-- `proc_map_page` of a frame the load owns. -/
theorem procMapPage_cases {s0 s : Loader} {sp : Space} (h : LoadInv s0 sp s)
    {pdPhys virt phys : U32} (hpd : pdPhys.toNat = sp.dir * 4096) {v f : Nat}
    (hv : virt.toNat / 4096 = v) (hf : phys.toNat = f * 4096) (hown : sp.own f = some (.page v))
    (hne : sp.tab (v / 1024) = none → (freeSet s.pmm).Nonempty) :
    (procMapPage pdPhys virt phys elfFlags s = none ∧ sp.tab (v / 1024) = none ∧
      ∀ j ∈ freeSet s.pmm, 4096 ≤ j) ∨
    ∃ s' sp', procMapPage pdPhys virt phys elfFlags s = some s' ∧ LoadInv s0 sp' s' ∧
      Extends sp s sp' s' ∧ sp'.page = Function.update sp.page v (some f) ∧
      (∀ e', e' ≠ v / 1024 → sp'.tab e' = sp.tab e') ∧ sp'.tab (v / 1024) ≠ none ∧
      (sp.tab (v / 1024) ≠ none → freeSet s'.pmm = freeSet s.pmm) ∧
      (sp.tab (v / 1024) = none → ∃ k ∈ freeSet s.pmm, (∀ j ∈ freeSet s.pmm, k ≤ j) ∧
        freeSet s'.pmm = (freeSet s.pmm).erase k) := by
  have hvlt := virt.isLt
  have hpi : pdIndex virt = v / 1024 := by rw [pdIndex_eq]; omega
  have hti : ptIndex virt = v % 1024 := by rw [ptIndex_eq, hv]
  have he : v / 1024 < 1024 := by omega
  unfold procMapPage
  rw [hpi, hti]
  rcases procEnsureTable_cases h hpd he hne with ⟨hnone, ht, hall⟩ |
    ⟨s1, sp1, hsome, h1, hext, hpage, htab, htn, hsame, hnew⟩
  · left
    rw [hnone]
    exact ⟨rfl, ht, hall⟩
  · right
    obtain ⟨t, ht⟩ := Option.ne_none_iff_exists'.mp htn
    have hpd1 : pdPhys.toNat = sp1.dir * 4096 := by rw [hext.dir]; exact hpd
    have hword := h1.dir_word _ he
    rw [ht] at hword
    have hpt : (word s1.mem (sp1.dir * 4096) (v / 1024) &&& ~~~0xFFF#32).toNat = t * 4096 :=
      frameAddr_entry hword
    have hmap := h1.map (w := phys ||| elfFlags) ht (hext.own f _ hown) (toNat_or_elfFlags hf)
    rw [hsome]
    simp only [Option.bind_eq_bind, Option.bind_some]
    rw [kload32_page hpd1 h1.dir_lt he, Option.bind_some,
      kstore32_page hpt (h1.tab_lt ht) (Nat.mod_lt v (by omega)), Option.bind_some]
    refine ⟨_, _, rfl, hmap, ⟨hext.dir, hext.own, ?_, hext.free⟩, by rw [← hpage], htab, htn,
      hsame, hnew⟩
    intro j v' ho x hx
    have hjt : j ≠ t := h1.page_ne_tab (hext.own j _ ho) ht
    exact (setWord_otherPage _ (Nat.mod_lt v (by omega)) (by rw [hx]; exact hjt)).trans
      (hext.frame j v' ho x hx)

end PepinOS
