import PepinOS.Lib.Fault
import PepinOS.Lib.Run
import PepinOS.Mm.Pmm
import PepinOS.Mm.Paging

/-!
# The kernel's page tables as a finite map

`mm/vmm.c` adds pages to the kernel's address space and takes them out again. A
directory entry gets its table from the physical allocator the first time a page
below it is mapped; the tables lie in the memory they map, so one wrong store could
change any translation.

`VmmInv` is the separation that excludes this: the table of each entry, no two the
same, none of them free and none the directory. Under it a store to entry `i` of the
table of `e` changes the frame of page `e * 1024 + i` and no other (`VmmInv.store`),
and `vmm_finite_map` follows by induction over the calls.
-/

namespace PepinOS

/-- Physical memory and its allocator. -/
structure Phys where
  mem : Mem
  pmm : Pmm

/-- The first half of `vmm_map_page`: a table for the directory entry, when it has none. -/
def vmmEnsureTable (pdIdx : Nat) (s : Phys) : Option Phys :=
  if !present (word s.mem kernelPdAddr pdIdx) then
    let (ptPhys, pmm) := pmmAllocPage s.pmm
    if pageMapped ptPhys then
      let mem := forRange 0 1024 (fun i m => setWord m ptPhys.toNat i 0#32) s.mem
      some ⟨setWord mem kernelPdAddr pdIdx (ptPhys ||| pagePresent ||| pageWrite), pmm⟩
    else none
  else some s

/-- `vmm_map_page`. -/
def vmmMapPage (virt phys flags : U32) (s : Phys) : Option Phys := do
  let s ← vmmEnsureTable (pdIndex virt) s
  let pde := word s.mem kernelPdAddr (pdIndex virt)
  let mem ← kstore32 s.mem (wordPtr (pde &&& ~~~0xFFF#32) (ptIndex virt)) (phys ||| flags)
  some { s with mem := mem }

/-- `vmm_unmap_page`. -/
def vmmUnmapPage (virt : U32) (s : Phys) : Option Phys :=
  let pde := word s.mem kernelPdAddr (pdIndex virt)
  if !present pde then some s
  else
    (kstore32 s.mem (wordPtr (pde &&& ~~~0xFFF#32) (ptIndex virt)) 0#32).map fun mem =>
      { s with mem := mem }

/-! ## Tables apart from each other -/

/-- The table of each directory entry and the frame of each page, and the memory that
holds them. -/
structure VmmInv (tab page : Nat → Option Nat) (s : Phys) : Prop where
  pmm : PmmInv s.pmm
  reserved : Reserved s.pmm
  low : ∀ e, e < 4 → tab e = some (sharedTable e)
  own : ∀ e t, 4 ≤ e → tab e = some t → 1024 ≤ t ∧ t < 4096 ∧ t ∉ freeSet s.pmm
  inj : ∀ e e' t, tab e = some t → tab e' = some t → e = e'
  dir : ∀ e, e < 1024 → tableFrame s.mem kernelCr3 e = tab e
  entries : ∀ e t, e < 1024 → tab e = some t → ∀ i, i < 1024 →
    entryFrame (word s.mem (t * 4096) i) = page (e * 1024 + i)
  absent : ∀ v, tab (v / 1024) = none → page v = none

section

variable {tab page : Nat → Option Nat} {s : Phys}

theorem VmmInv.table_bounds (h : VmmInv tab page s) {e t : Nat} (ht : tab e = some t) :
    512 < t ∧ t < 4096 ∧ t ∉ freeSet s.pmm := by
  rcases Nat.lt_or_ge e 4 with he | he
  · rw [h.low e he] at ht
    cases ht
    unfold sharedTable kernelPtAddr
    refine ⟨by omega, by omega, fun hm => ?_⟩
    have := h.reserved _ hm
    omega
  · obtain ⟨hge, hlt, hfree⟩ := h.own e t he ht
    exact ⟨by omega, hlt, hfree⟩

/-- The walk reads the frame of the page. -/
theorem VmmInv.walk (h : VmmInv tab page s) {v : Nat} (hv : v < 1048576) :
    pageFrame s.mem kernelCr3 v = page v := by
  unfold pageFrame
  rw [h.dir _ (by omega)]
  cases ht : tab (v / 1024) with
  | none => exact (h.absent v ht).symm
  | some t =>
    rw [Option.bind_some, h.entries _ t (by omega) ht _ (Nat.mod_lt _ (by omega))]
    congr 1
    omega

/-- **A store to a table** changes the frame of one page. -/
theorem VmmInv.store (h : VmmInv tab page s) {e t i : Nat} (he : e < 1024) (ht : tab e = some t)
    (hi : i < 1024) (w : U32) :
    VmmInv tab (Function.update page (e * 1024 + i) (entryFrame w))
      { s with mem := setWord s.mem (t * 4096) i w } := by
  have hbounds := h.table_bounds ht
  refine ⟨h.pmm, h.reserved, h.low, h.own, h.inj, fun e' he' => ?_, fun e' t' he' ht' i' hi' => ?_,
    fun v hv => ?_⟩
  · -- the directory is another page
    rw [← h.dir e' he']
    refine tableFrame_congr he' fun x hx => setWord_otherPage w hi ?_
    have hd : kernelCr3.toNat / 4096 = 512 := rfl
    omega
  · by_cases hee : e' = e
    · subst hee
      rw [ht] at ht'
      cases ht'
      by_cases hii : i' = i
      · rw [hii, word_setWord_self, Function.update_self]
      · rw [word_setWord_ne _ hii, Function.update_of_ne (by omega)]
        exact h.entries e' t he' ht i' hi'
    · have hne : t' ≠ t := fun heq => hee (h.inj e' e t (heq ▸ ht') ht)
      rw [word_page_congr hi' fun x hx => setWord_otherPage w hi (by omega),
        Function.update_of_ne (by omega)]
      exact h.entries e' t' he' ht' i' hi'
  · by_cases hv' : v = e * 1024 + i
    · rw [hv', show (e * 1024 + i) / 1024 = e by omega, ht] at hv
      cases hv
    · rw [Function.update_of_ne hv']
      exact h.absent v hv

/-- **A fresh table**, cleared and hung into the directory, maps nothing yet. -/
theorem VmmInv.addTable (h : VmmInv tab page s) {e k : Nat} {pmm : Pmm} {w : U32} (he4 : 4 ≤ e)
    (he : e < 1024) (hnone : tab e = none) (hk : k ∈ freeSet s.pmm) (hlt : k < 4096)
    (hpmm : PmmInv pmm) (hset : freeSet pmm = (freeSet s.pmm).erase k)
    (hw : entryFrame w = some k) :
    VmmInv (Function.update tab e (some k)) page
      ⟨setWord (forRange 0 1024 (fun i m => setWord m (k * 4096) i 0#32) s.mem) kernelPdAddr e w,
        pmm⟩ := by
  have hres := h.reserved k hk
  obtain ⟨hout, hin⟩ := clearTable_spec s.mem k
  generalize forRange 0 1024 (fun i m => setWord m (k * 4096) i 0#32) s.mem = m1 at hout hin
  have hdir : kernelPdAddr = 512 * 4096 := rfl
  have hother : ∀ x, x / 4096 ≠ 512 → x / 4096 ≠ k →
      setWord m1 kernelPdAddr e w x = s.mem x := by
    intro x hx hxk
    rw [hdir, setWord_otherPage w he hx]
    exact hout x hxk
  have hnew : ∀ e' t, Function.update tab e (some k) e' = some t →
      (e' = e ∧ t = k) ∨ (e' ≠ e ∧ t ≠ k ∧ tab e' = some t) := by
    intro e' t ht
    by_cases hee : e' = e
    · rw [hee, Function.update_self] at ht
      cases ht
      exact Or.inl ⟨hee, rfl⟩
    · rw [Function.update_of_ne hee] at ht
      exact Or.inr ⟨hee, fun heq => (h.table_bounds ht).2.2 (heq ▸ hk), ht⟩
  refine ⟨hpmm, fun j hj => ?_, fun e' he' => ?_, fun e' t he' ht => ?_, fun e1 e2 t h1 h2 => ?_,
    fun e' he' => ?_, fun e' t he' ht i hi => ?_, fun v hv => ?_⟩
  · rw [hset] at hj
    exact h.reserved j (Finset.mem_of_mem_erase hj)
  · rw [Function.update_of_ne (by omega)]
    exact h.low e' he'
  · rw [hset, Finset.mem_erase]
    rcases hnew e' t ht with ⟨_, rfl⟩ | ⟨_, _, ht'⟩
    · exact ⟨hres, hlt, fun hm => hm.1 rfl⟩
    · obtain ⟨hge, hlt', hfree⟩ := h.own e' t he' ht'
      exact ⟨hge, hlt', fun hm => hfree hm.2⟩
  · rcases hnew e1 t h1 with ⟨rfl, rfl⟩ | ⟨_, hne1, h1'⟩
    · rcases hnew e2 _ h2 with ⟨rfl, _⟩ | ⟨_, hne2, _⟩
      · rfl
      · exact absurd rfl hne2
    · rcases hnew e2 t h2 with ⟨_, rfl⟩ | ⟨_, _, h2'⟩
      · exact absurd rfl hne1
      · exact h.inj e1 e2 t h1' h2'
  · -- the directory: one new entry
    have hfr : frameAddr kernelCr3 = kernelPdAddr := by
      rw [frameAddr_eq]
      rfl
    unfold tableFrame
    rw [hfr]
    by_cases hee : e' = e
    · rw [hee, word_setWord_self, Function.update_self, hw]
    · rw [word_setWord_ne _ hee, Function.update_of_ne hee, ← h.dir e' he']
      unfold tableFrame
      rw [hfr, hdir, word_page_congr he' fun x hx => hout x (by omega)]
  · rcases hnew e' t ht with ⟨rfl, rfl⟩ | ⟨_, hne, ht'⟩
    · -- the new table is all zero, as is the map below `e`
      have hzero : word (setWord m1 kernelPdAddr e' w) (t * 4096) i = 0#32 := by
        rw [hdir, word_page_congr hi fun x hx => setWord_otherPage w he (by omega), hin i hi]
      rw [hzero, entryFrame_zero rfl]
      exact (h.absent _ (by rw [show (e' * 1024 + i) / 1024 = e' by omega]; exact hnone)).symm
    · have hb := h.table_bounds ht'
      rw [word_page_congr hi fun x hx => hother x (by omega) (by omega)]
      exact h.entries e' t he' ht' i hi
  · by_cases hee : v / 1024 = e
    · rw [hee, Function.update_self] at hv
      cases hv
    · rw [Function.update_of_ne hee] at hv
      exact h.absent v hv

/-! ## The two calls -/

/-- A call on `virt` gets its table: there is one, or the allocator has a page the kernel can
reach. -/
def TableReady (virt : U32) (s : Phys) : Prop :=
  present (word s.mem kernelPdAddr (pdIndex virt)) = true ∨
    (pmmAllocPage s.pmm).1 ≠ 0#32 ∧ (pmmAllocPage s.pmm).1.toNat < identityTop

/-- The entry the kernel reads for directory index `e`. -/
theorem VmmInv.entryFrame_dir (h : VmmInv tab page s) {e : Nat} (he : e < 1024) :
    entryFrame (word s.mem kernelPdAddr e) = tab e := by
  have hfr : frameAddr kernelCr3 = kernelPdAddr := by
    rw [frameAddr_eq]
    rfl
  rw [← h.dir e he]
  unfold tableFrame
  rw [hfr]

theorem entryFrame_some {e : U32} {k : Nat} (h : entryFrame e = some k) :
    present e = true ∧ (e &&& ~~~0xFFF#32).toNat = k * 4096 := by
  unfold entryFrame at h
  split at h
  next hp =>
    cases h
    refine ⟨hp, ?_⟩
    show frameAddr e = frameAddr e / 4096 * 4096
    rw [frameAddr_eq]
    omega
  next => cases h

theorem entryFrame_none {e : U32} (h : entryFrame e = none) : present e = false := by
  unfold entryFrame at h
  split at h
  next => cases h
  next hp => simpa using hp

/-- The entry `vmm_map_page` writes into the directory. -/
theorem entryFrame_or {p fl : U32} {f : Nat} (hp : p.toNat = f * 4096) (hfl : fl.toNat < 4096)
    (hpres : present fl = true) : entryFrame (p ||| fl) = some f := by
  have hnum := toNat_or_flags hp hfl
  have hodd := (present_iff fl).mp hpres
  unfold entryFrame
  rw [if_pos ((present_iff _).mpr (by rw [hnum]; omega)), frameAddr_eq, hnum]
  congr 1
  omega

theorem vmmEnsureTable_spec (h : VmmInv tab page s) {virt : U32} (hv : 4 ≤ pdIndex virt)
    (hready : TableReady virt s) : ∃ tab' t s', vmmEnsureTable (pdIndex virt) s = some s' ∧
      VmmInv tab' page s' ∧ tab' (pdIndex virt) = some t := by
  have hlt := pdIndex_lt virt
  have hentry := h.entryFrame_dir hlt
  unfold vmmEnsureTable
  cases ht : tab (pdIndex virt) with
  | some t =>
    rw [ht] at hentry
    refine ⟨tab, t, s, ?_, h, ht⟩
    simp only [(entryFrame_some hentry).1, Bool.not_true, Bool.false_eq_true, if_false]
  | none =>
    rw [ht] at hentry
    have habs := entryFrame_none hentry
    rcases hready with hp | ⟨hne, hlow⟩
    · rw [habs] at hp
      cases hp
    · rcases pmmAllocPage_cases h.pmm with ⟨_, heq⟩ | ⟨k, hk, _, haddr, hset, _, hpmm⟩
      · rw [heq] at hne
        exact absurd rfl hne
      · unfold pmmPageSize at haddr
        unfold identityTop at hlow
        have hmapped : pageMapped (pmmAllocPage s.pmm).1 := by
          unfold pageMapped identityTop
          omega
        have hw : entryFrame ((pmmAllocPage s.pmm).1 ||| pagePresent ||| pageWrite) = some k := by
          rw [BitVec.or_assoc]
          exact entryFrame_or haddr (by decide) rfl
        refine ⟨_, k, _, ?_, h.addTable hv hlt ht hk (by omega) hpmm hset hw,
          Function.update_self ..⟩
        simp only [habs, Bool.not_false, if_true, if_pos hmapped, haddr]

/-- The store of an entry through the table's address. -/
theorem VmmInv.kstore (h : VmmInv tab page s) {virt : U32} {t : Nat}
    (ht : tab (pdIndex virt) = some t) (w : U32) :
    kstore32 s.mem (wordPtr (word s.mem kernelPdAddr (pdIndex virt) &&& ~~~0xFFF#32) (ptIndex virt))
      w = some (setWord s.mem (t * 4096) (ptIndex virt) w) := by
  have hentry := h.entryFrame_dir (pdIndex_lt virt)
  rw [ht] at hentry
  exact kstore32_page (entryFrame_some hentry).2 (h.table_bounds ht).2.1 (ptIndex_lt virt)

theorem page_index (virt : U32) : pdIndex virt * 1024 + ptIndex virt = virt.toNat / 4096 := by
  rw [pdIndex_eq, ptIndex_eq]
  omega

/-- **`vmm_map_page`** gives its page the new frame. -/
theorem vmmMapPage_spec (h : VmmInv tab page s) {virt phys flags : U32}
    (hv : identityTop ≤ virt.toNat) (hphys : phys.toNat % 4096 = 0) (hfl : flags.toNat < 4096)
    (hpres : present flags = true) (hready : TableReady virt s) :
    ∃ tab' s', vmmMapPage virt phys flags s = some s' ∧
      VmmInv tab' (Function.update page (virt.toNat / 4096) (some (phys.toNat / 4096))) s' := by
  have h4 : 4 ≤ pdIndex virt := by
    unfold identityTop at hv
    rw [pdIndex_eq]
    omega
  obtain ⟨tab', t, s1, hrun, h1, ht⟩ := vmmEnsureTable_spec h h4 hready
  have hstore := h1.store (pdIndex_lt virt) ht (ptIndex_lt virt) (phys ||| flags)
  rw [page_index, entryFrame_or (f := phys.toNat / 4096) (by omega) hfl hpres] at hstore
  refine ⟨tab', _, ?_, hstore⟩
  unfold vmmMapPage
  simp only [hrun, Option.bind_eq_bind, Option.bind_some, h1.kstore ht]

/-- **`vmm_unmap_page`** takes it away. -/
theorem vmmUnmapPage_spec (h : VmmInv tab page s) (virt : U32) :
    ∃ s', vmmUnmapPage virt s = some s' ∧
      VmmInv tab (Function.update page (virt.toNat / 4096) none) s' := by
  have hentry := h.entryFrame_dir (pdIndex_lt virt)
  unfold vmmUnmapPage
  cases ht : tab (pdIndex virt) with
  | none =>
    rw [ht] at hentry
    have habs := h.absent (virt.toNat / 4096) (by
      rw [← ht, pdIndex_eq]
      congr 1
      omega)
    refine ⟨s, ?_, ?_⟩
    · simp only [entryFrame_none hentry, Bool.not_false, if_true]
    · rw [← habs, Function.update_eq_self]
      exact h
  | some t =>
    rw [ht] at hentry
    have hstore := h.store (pdIndex_lt virt) ht (ptIndex_lt virt) 0#32
    rw [page_index, entryFrame_zero rfl] at hstore
    refine ⟨_, ?_, hstore⟩
    simp only [(entryFrame_some hentry).1, Bool.not_true, Bool.false_eq_true, if_false,
      h.kstore ht, Option.map_some]

end

/-! ## Sequences of calls -/

inductive VmmCall where
  | map (virt phys flags : U32)
  | unmap (virt : U32)

/-- A call above the identity map. -/
inductive VmmStep : Phys → VmmCall → Phys → Prop where
  | map {s s' : Phys} {virt phys flags : U32} : identityTop ≤ virt.toNat → phys.toNat % 4096 = 0 →
      flags.toNat < 4096 → present flags = true → TableReady virt s →
      vmmMapPage virt phys flags s = some s' → VmmStep s (.map virt phys flags) s'
  | unmap {s s' : Phys} {virt : U32} : identityTop ≤ virt.toNat →
      vmmUnmapPage virt s = some s' → VmmStep s (.unmap virt) s'

/-- Where the calls, the newest first, have left page `v`. -/
def lastMapped : List VmmCall → Nat → Option U32
  | [], _ => none
  | .map virt phys _ :: h, v => if virt.toNat / 4096 = v then some phys else lastMapped h v
  | .unmap virt :: h, v => if virt.toNat / 4096 = v then none else lastMapped h v

/-- The frames of all pages: the identity below 16 MB, above it what the calls have made. -/
def vmmFrames (h : List VmmCall) (v : Nat) : Option Nat :=
  if v < 4096 then some v else (lastMapped h v).map fun phys => phys.toNat / 4096

/-- One more call decides the frame of its own page. -/
theorem vmmFrames_cons {h : List VmmCall} {c : VmmCall} {virt : U32} {o : Option U32}
    (hv : identityTop ≤ virt.toNat)
    (hc : ∀ v, lastMapped (c :: h) v = if virt.toNat / 4096 = v then o else lastMapped h v) :
    vmmFrames (c :: h) = Function.update (vmmFrames h) (virt.toNat / 4096)
      (o.map fun phys => phys.toNat / 4096) := by
  unfold identityTop at hv
  funext v
  unfold vmmFrames
  rw [hc]
  by_cases hvv : virt.toNat / 4096 = v
  · rw [← hvv, Function.update_self, if_neg (by omega), if_pos rfl]
  · rw [Function.update_of_ne (Ne.symm hvv), if_neg hvv]

theorem vmmFrames_map {h : List VmmCall} {virt phys flags : U32} (hv : identityTop ≤ virt.toNat) :
    vmmFrames (.map virt phys flags :: h) =
      Function.update (vmmFrames h) (virt.toNat / 4096) (some (phys.toNat / 4096)) :=
  vmmFrames_cons (o := some phys) hv fun _ => rfl

theorem vmmFrames_unmap {h : List VmmCall} {virt : U32} (hv : identityTop ≤ virt.toNat) :
    vmmFrames (.unmap virt :: h) = Function.update (vmmFrames h) (virt.toNat / 4096) none :=
  vmmFrames_cons (o := none) hv fun _ => rfl

/-- `init_paging` and `pmm_init` are the empty map over the identity. -/
theorem vmmInv_start (m : Mem) {p : Pmm} (hp : PmmInv p) (hr : Reserved p) :
    VmmInv (fun e => if e < 4 then some (sharedTable e) else none) (vmmFrames [])
      ⟨initPaging m, p⟩ := by
  obtain ⟨hdir, htab⟩ := initPaging_spec m
  refine ⟨hp, hr, fun e he => if_pos he,
    fun e t he ht => ?_, fun e e' t h h' => ?_, fun e he => ?_, fun e t he ht i hi => ?_,
    fun v hv => ?_⟩
  · rw [if_neg (by omega)] at ht
    cases ht
  · split at h
    next =>
      split at h'
      next =>
        cases h
        unfold sharedTable at h'
        have := Option.some.inj h'
        omega
      next => cases h'
    next => cases h
  · split
    next h4 => exact kernel_tableFrame hdir h4
    next h4 =>
      have hword := hdir e he
      rw [if_neg h4] at hword
      have hfr : frameAddr kernelCr3 = kernelPdAddr := by
        rw [frameAddr_eq]
        rfl
      unfold tableFrame
      rw [hfr]
      exact entryFrame_zero hword
  · split at ht
    next h4 =>
      cases ht
      rw [word_shared, entryFrame_entry (htab _ (by omega))]
      exact (if_pos (by omega)).symm
    next => cases ht
  · split at hv
    next => cases hv
    next => exact if_neg (by omega)

/-- The invariant through any sequence of calls. -/
theorem vmm_run_inv {m : Mem} {p0 : Pmm} {memSize : U32} {h : List VmmCall} {s : Phys}
    (hrun : Run VmmStep ⟨initPaging m, pmmInit p0 memSize⟩ h s) :
    ∃ tab, VmmInv tab (vmmFrames h) s := by
  refine hrun.inv (fun h s => ∃ tab, VmmInv tab (vmmFrames h) s) 
    ⟨_, vmmInv_start m (pmmInit_spec p0 memSize).1 (pmmInit_reserved p0 memSize)⟩ ?_
  rintro h s call s' ⟨tab, hinv⟩ hstep
  cases hstep with
  | map hv hphys hfl hpres hready hcall =>
    obtain ⟨tab', s1, hrun', hinv'⟩ := vmmMapPage_spec hinv hv hphys hfl hpres hready
    rw [hcall] at hrun'
    cases hrun'
    rw [vmmFrames_map hv]
    exact ⟨tab', hinv'⟩
  | unmap hv hcall =>
    rename_i virt
    obtain ⟨s1, hrun', hinv'⟩ := vmmUnmapPage_spec hinv virt
    rw [hcall] at hrun'
    cases hrun'
    rw [vmmFrames_unmap hv]
    exact ⟨tab, hinv'⟩

theorem lastMapped_aligned {s0 s : Phys} {h : List VmmCall} (hrun : Run VmmStep s0 h s) :
    ∀ v phys, lastMapped h v = some phys → phys.toNat % 4096 = 0 := by
  refine hrun.inv (fun h _ => ∀ v phys, lastMapped h v = some phys → phys.toNat % 4096 = 0)
    (fun _ _ h => by cases h) ?_
  intro h s call s' ih hstep v phys hlast
  cases hstep with
  | map _ hphys =>
    rcases ite_cases hlast with ⟨_, he⟩ | ⟨_, he⟩
    · cases he
      exact hphys
    · exact ih v phys he
  | unmap =>
    rcases ite_cases hlast with ⟨_, he⟩ | ⟨_, he⟩
    · cases he
    · exact ih v phys he

/-- **The kernel's page tables are a finite map.** After `init_paging`, `pmm_init` and any
calls above 16 MB whose tables could be allocated, every address below 16 MB is mapped to
itself; above, an address is mapped where the last call on its page put it, or nowhere. And
such a call never fails. -/
theorem vmm_finite_map {m : Mem} {p0 : Pmm} {memSize : U32} {h : List VmmCall} {s : Phys}
    (hrun : Run VmmStep ⟨initPaging m, pmmInit p0 memSize⟩ h s) :
    (∀ v : U32, translate s.mem kernelCr3 v =
      if v.toNat < identityTop then some v.toNat
      else (lastMapped h (v.toNat / 4096)).map fun phys => phys.toNat + v.toNat % 4096) ∧
    (∀ virt phys flags : U32, identityTop ≤ virt.toNat → phys.toNat % 4096 = 0 →
      flags.toNat < 4096 → present flags = true → TableReady virt s →
      ∃ s', VmmStep s (.map virt phys flags) s') ∧
    ∀ virt : U32, identityTop ≤ virt.toNat → ∃ s', VmmStep s (.unmap virt) s' := by
  obtain ⟨tab, hinv⟩ := vmm_run_inv hrun
  refine ⟨fun v => ?_, fun virt phys flags hv hphys hfl hpres hready => ?_, fun virt hv => ?_⟩
  · rw [translate_eq_pageFrame, hinv.walk (by have := v.isLt; omega)]
    unfold vmmFrames identityTop
    by_cases hlow : v.toNat < 0x1000000
    · rw [if_pos (by omega), if_pos hlow, Option.map_some]
      congr 1
      omega
    · rw [if_neg (by omega), if_neg hlow, Option.map_map]
      cases hl : lastMapped h (v.toNat / 4096) with
      | none => rfl
      | some phys =>
        have := lastMapped_aligned hrun _ phys hl
        simp only [Option.map_some, Function.comp]
        congr 1
        omega
  · obtain ⟨_, s', hcall, _⟩ := vmmMapPage_spec hinv hv hphys hfl hpres hready
    exact ⟨s', .map hv hphys hfl hpres hready hcall⟩
  · obtain ⟨s', hcall, _⟩ := vmmUnmapPage_spec hinv virt
    exact ⟨s', .unmap hv hcall⟩

/-- A page mapped at 0xD0000000, on a machine with 32 MB. -/
theorem vmm_finite_map_one : ∃ s,
    Run VmmStep ⟨initPaging fun _ => 0#8, pmmInit ⟨fun _ => 0#32, 0#32, 0#32⟩ 0x2000000#32⟩
      [.map 0xD0000000#32 0x500000#32 3#32] s ∧
    translate s.mem kernelCr3 0xD0000123#32 = some 0x500123 := by
  have hfirst : (pmmAllocPage (pmmInit ⟨fun _ => 0#32, 0#32, 0#32⟩ 0x2000000#32)).1 =
      0x400000#32 :=
    pmmInit_alloc _ (by rw [pmmTotal_32MB]; unfold pmmReserved pmmPageSize; omega)
  generalize hp : pmmInit ⟨fun _ => 0#32, 0#32, 0#32⟩ 0x2000000#32 = p at hfirst ⊢
  have hready : TableReady 0xD0000000#32 ⟨initPaging fun _ => 0#8, p⟩ := by
    refine .inr ?_
    show (pmmAllocPage p).1 ≠ 0#32 ∧ (pmmAllocPage p).1.toNat < identityTop
    rw [hfirst]
    exact ⟨nofun, Nat.le_of_ble_eq_true rfl⟩
  have hstart : Run VmmStep ⟨initPaging fun _ => 0#8, p⟩ [] ⟨initPaging fun _ => 0#8, p⟩ := .start
  rw [← hp] at hstart
  have hcalls := (vmm_finite_map hstart).2.1
  rw [hp] at hcalls
  obtain ⟨s, hstep⟩ := hcalls 0xD0000000#32 0x500000#32 3#32 (Nat.le_of_ble_eq_true rfl) rfl
    (Nat.le_of_ble_eq_true rfl) rfl hready
  have hrun : Run VmmStep ⟨initPaging fun _ => 0#8, p⟩ _ s := .step .start hstep
  refine ⟨s, hrun, ?_⟩
  rw [← hp] at hrun
  rw [(vmm_finite_map hrun).1]
  rfl

end PepinOS
