import PepinOS.Lib.Cached
import PepinOS.Mm.Vmm

/-!
# The translations the processor remembers

The processor does not walk the tables for every access. It keeps entries of the directory
and translations of whole pages, and it may load any of them at any time, between two
instructions of `vmm_map_page` too. `invlpg` and a load of CR3 are all the kernel has
against an old one.

`Paged` is the kernel's address space with these two caches. The kernel's own accesses go
through them: the tables `vmm_map_page` writes lie in the memory they map. `VmmPc` cuts the
two calls at their accesses, and `PagedStep` interleaves these with whatever the processor
loads or loses. `VmmMid` says where a call has got to, as a state of the plain model of
`Mm.Vmm`; `paged_inv` carries it, with both caches, through every step. The one page in doubt is
the one whose entry has been stored and not yet flushed.

Supervisor accesses ignore the write and user bits (CR0.WP is off), and the accessed and
dirty bits are left out.
-/

namespace PepinOS

/-! ## Walks -/

def presentEntry (w : U32) : Option U32 := if present w then some w else none

def dirEntry (m : Mem) (e : Nat) : Option U32 :=
  if e < 1024 then presentEntry (word m kernelPdAddr e) else none

def tableEntry (m : Mem) (pde : U32) (i : Nat) : Option U32 :=
  presentEntry (word m (frameAddr pde) i)

/-- Both entries on the way to page `v`. -/
def pageEntry (m : Mem) (v : Nat) : Option (U32 × U32) :=
  (dirEntry m (v / 1024)).bind fun pde => (tableEntry m pde (v % 1024)).map fun pte => (pde, pte)

/-- The kernel's address space as the processor sees it. -/
structure Paged where
  phys : Phys
  dirs : Nat → Option U32
  pages : Nat → Option (U32 × U32)

/-- The walk to page `v`, the directory entry from the cache if it is there. -/
def Paged.walk (s : Paged) (v : Nat) : Option (U32 × U32) :=
  (through s.dirs (dirEntry s.phys.mem) (v / 1024)).bind fun pde =>
    (tableEntry s.phys.mem pde (v % 1024)).map fun pte => (pde, pte)

/-- The physical address an access to `a` reaches; `none` is a page fault. -/
def Paged.addr (s : Paged) (a : U32) : Option Nat :=
  (through s.pages s.walk (a.toNat / 4096)).map fun e => frameAddr e.2 + a.toNat % 4096

def Paged.load (s : Paged) (a : U32) : Option U32 := (s.addr a).map (load32 s.phys.mem)

def Paged.setMem (s : Paged) (m : Mem) : Paged := { s with phys := { s.phys with mem := m } }

@[simp] theorem Paged.setMem_phys (s : Paged) (m : Mem) : (s.setMem m).phys = ⟨m, s.phys.pmm⟩ := rfl

def Paged.store (s : Paged) (a w : U32) : Option Paged :=
  (s.addr a).map fun p => s.setMem (store32 s.phys.mem p w)

/-- `invlpg`: the page's translation, and every directory entry. -/
def Paged.invlpg (s : Paged) (virt : U32) : Paged :=
  { s with dirs := fun _ => none, pages := Function.update s.pages (virt.toNat / 4096) none }

/-- A load of CR3. -/
def Paged.flush (s : Paged) : Paged := { s with dirs := fun _ => none, pages := fun _ => none }

/-! ## The two calls, access by access -/

/-- What is left of a call. -/
inductive VmmPc where
  | idle
  /-- `!(pd[pd_idx] & PAGE_PRESENT)` -/
  | test (c : VmmCall)
  /-- The loop over the new table at `pt`, then its directory entry. -/
  | clear (virt phys flags pt : U32) (i : Nat)
  /-- `pt = (u32 *)(pd[pd_idx] & ~0xFFF)` -/
  | table (virt w : U32)
  /-- `pt[pt_idx] = w` -/
  | entry (virt w pt : U32)
  | invlpg (virt : U32)

/-- `&pd[pd_idx]`. -/
def pdPtr (virt : U32) : U32 := wordPtr kernelCr3 (pdIndex virt)

/-- Up to the next access, and this access. -/
def VmmPc.exec : VmmPc → Paged → Option (VmmPc × Paged)
  | .idle, _ => none
  | .test (.map virt phys flags), s => do
    let pde ← s.load (pdPtr virt)
    if present pde then some (.table virt (phys ||| flags), s)
    else
      let (pt, pmm) := pmmAllocPage s.phys.pmm
      some (.clear virt phys flags pt 0, { s with phys := { s.phys with pmm := pmm } })
  | .test (.unmap virt), s => do
    let pde ← s.load (pdPtr virt)
    if present pde then some (.table virt 0#32, s) else some (.idle, s)
  | .clear virt phys flags pt i, s =>
    if i < 1024 then do
      let s ← s.store (wordPtr pt i) 0#32
      some (.clear virt phys flags pt (i + 1), s)
    else do
      let s ← s.store (pdPtr virt) (pt ||| pagePresent ||| pageWrite)
      some (.table virt (phys ||| flags), s)
  | .table virt w, s => do
    let pde ← s.load (pdPtr virt)
    some (.entry virt w (pde &&& ~~~0xFFF#32), s)
  | .entry virt w pt, s => do
    let s ← s.store (wordPtr pt (ptIndex virt)) w
    some (.invlpg virt, s)
  | .invlpg virt, s => some (.idle, s.invlpg virt)

/-- The page whose entry is stored and not flushed. -/
def VmmPc.stale : VmmPc → Set Nat
  | .invlpg virt => {virt.toNat / 4096}
  | _ => ∅

/-- A bound on the accesses that are left. -/
def VmmPc.left : VmmPc → Nat
  | .idle => 0
  | .invlpg _ => 1
  | .entry .. => 2
  | .table .. => 3
  | .clear _ _ _ _ i => 4 + (1024 - i)
  | .test _ => 1029

theorem VmmPc.left_le (pc : VmmPc) : pc.left ≤ 1029 := by
  unfold VmmPc.left
  split
  all_goals omega

theorem VmmPc.idle_of_left {pc : VmmPc} (h : pc.left = 0) : pc = .idle := by
  unfold VmmPc.left at h
  split at h
  next => rfl
  all_goals omega

/-- The conditions of `VmmStep` on a call. -/
def VmmCall.Allowed : VmmCall → Phys → Prop
  | .map virt phys flags, s => identityTop ≤ virt.toNat ∧ phys.toNat % 4096 = 0 ∧
      flags.toNat < 4096 ∧ present flags = true ∧ TableReady virt s
  | .unmap virt, _ => identityTop ≤ virt.toNat

inductive PagedEvent where
  | loadDir (e : Nat)
  | loadPage (v : Nat)
  | lose
  | flush
  | call (c : VmmCall)
  | exec

/-- The kernel's next access, or something the processor does on its own. `flush` is
`switch_to_kernel_space`, from the kernel's directory. -/
inductive PagedStep : VmmPc × Paged → PagedEvent → VmmPc × Paged → Prop where
  | loadDir {pc : VmmPc} {s : Paged} {e : Nat} {w : U32} : dirEntry s.phys.mem e = some w →
      PagedStep (pc, s) (.loadDir e) (pc, { s with dirs := Function.update s.dirs e (some w) })
  | loadPage {pc : VmmPc} {s : Paged} {v : Nat} {w : U32 × U32} : s.walk v = some w →
      PagedStep (pc, s) (.loadPage v) (pc, { s with pages := Function.update s.pages v (some w) })
  | lose {pc : VmmPc} {s : Paged} {dirs : Nat → Option U32} {pages : Nat → Option (U32 × U32)} :
      Evicted s.dirs dirs → Evicted s.pages pages →
      PagedStep (pc, s) .lose (pc, { s with dirs := dirs, pages := pages })
  | flush {pc : VmmPc} {s : Paged} : PagedStep (pc, s) .flush (pc, s.flush)
  | call {s : Paged} {c : VmmCall} : c.Allowed s.phys →
      PagedStep (.idle, s) (.call c) (.test c, s)
  | exec {pc pc' : VmmPc} {s s' : Paged} : pc.exec s = some (pc', s') →
      PagedStep (pc, s) .exec (pc', s')

/-- The calls of a history, the newest first. -/
def vmmCalls (h : List PagedEvent) : List VmmCall :=
  h.filterMap fun e => match e with
    | .call c => some c
    | _ => none

/-- The accesses of the newest call so far. -/
def callAccesses : List PagedEvent → Nat
  | [] => 0
  | .call _ :: _ => 0
  | .exec :: h => callAccesses h + 1
  | _ :: h => callAccesses h

/-- `init_paging` loads CR3 and turns paging on, `pmm_init` follows. -/
def Paged.boot (m : Mem) (p0 : Pmm) (memSize : U32) : Paged :=
  ⟨⟨initPaging m, pmmInit p0 memSize⟩, fun _ => none, fun _ => none⟩

/-! ## Walks in numbers -/

theorem presentEntry_some {w w' : U32} (h : presentEntry w = some w') :
    present w = true ∧ w' = w := by
  unfold presentEntry at h
  split at h
  next hp =>
    cases h
    exact ⟨hp, rfl⟩
  next => cases h

theorem entryFrame_eq (w : U32) :
    entryFrame w = (presentEntry w).map fun w => frameAddr w / 4096 := by
  unfold entryFrame presentEntry
  split
  next => rfl
  next => rfl

theorem dirEntry_some {m : Mem} {e : Nat} {w : U32} (h : dirEntry m e = some w) :
    e < 1024 ∧ present w = true ∧ word m kernelPdAddr e = w := by
  unfold dirEntry at h
  split at h
  next he =>
    obtain ⟨hp, rfl⟩ := presentEntry_some h
    exact ⟨he, hp, rfl⟩
  next => cases h

theorem frameAddr_kernelCr3 : frameAddr kernelCr3 = kernelPdAddr := by
  rw [frameAddr_eq]
  rfl

theorem frameAddr_round (e : U32) : frameAddr e / 4096 * 4096 = frameAddr e := by
  rw [frameAddr_eq]
  omega

theorem tableFrame_eq_dirEntry (m : Mem) {e : Nat} (he : e < 1024) :
    tableFrame m kernelCr3 e = (dirEntry m e).map fun w => frameAddr w / 4096 := by
  unfold tableFrame dirEntry
  rw [frameAddr_kernelCr3, if_pos he, entryFrame_eq]

theorem pageFrame_eq_pageEntry (m : Mem) {v : Nat} (hv : v < 1048576) :
    pageFrame m kernelCr3 v = (pageEntry m v).map fun e => frameAddr e.2 / 4096 := by
  unfold pageFrame pageEntry
  rw [tableFrame_eq_dirEntry m (by omega)]
  cases dirEntry m (v / 1024) with
  | none => rfl
  | some pde =>
    simp only [Option.map_some, Option.bind_some, frameAddr_round, entryFrame_eq, tableEntry,
      Option.map_map, Function.comp_def]

/-- Without caches the two ways to write a translation are one. -/
theorem translate_eq_pageEntry (m : Mem) (a : U32) :
    translate m kernelCr3 a =
      (pageEntry m (a.toNat / 4096)).map fun e => frameAddr e.2 + a.toNat % 4096 := by
  rw [translate_eq_pageFrame, pageFrame_eq_pageEntry m (by have := a.isLt; omega), Option.map_map]
  congr 1
  funext e
  show frameAddr e.2 / 4096 * 4096 + _ = _
  rw [frameAddr_round]

/-! ## What a store does to the walks -/

/-- `m'` leads everywhere `m` leads. -/
structure SameWalks (m m' : Mem) : Prop where
  dirs : ∀ e, dirEntry m' e = dirEntry m e
  pages : ∀ v, pageEntry m' v = pageEntry m v

theorem SameWalks.translate {m m' : Mem} (h : SameWalks m m') (a : U32) :
    translate m' kernelCr3 a = translate m kernelCr3 a := by
  rw [translate_eq_pageEntry, translate_eq_pageEntry, h.pages]

section

variable {tab page : Nat → Option Nat} {s : Phys} {m m' : Mem}

theorem dirEntry_congr (h : ∀ x, x / 4096 = 512 → m' x = m x) (e : Nat) :
    dirEntry m' e = dirEntry m e := by
  unfold dirEntry
  split
  next he => rw [show kernelPdAddr = 512 * 4096 from rfl, word_page_congr he h]
  next => rfl

theorem VmmInv.dirEntry_tab (h : VmmInv tab page s) {e : Nat} {w : U32}
    (hw : dirEntry s.mem e = some w) : ∃ t, tab e = some t ∧ frameAddr w = t * 4096 := by
  obtain ⟨he, hp, rfl⟩ := dirEntry_some hw
  have hentry := h.entryFrame_dir he
  unfold entryFrame at hentry
  rw [if_pos hp] at hentry
  exact ⟨_, hentry.symm, (frameAddr_round _).symm⟩

/-- The walks depend on the directory and the tables in it. -/
theorem VmmInv.pageEntry_congr (h : VmmInv tab page s) {v : Nat}
    (hd : dirEntry m' (v / 1024) = dirEntry s.mem (v / 1024))
    (ht : ∀ t, tab (v / 1024) = some t → word m' (t * 4096) (v % 1024) =
      word s.mem (t * 4096) (v % 1024)) : pageEntry m' v = pageEntry s.mem v := by
  unfold pageEntry
  rw [hd]
  refine Option.bind_congr fun w hw => ?_
  obtain ⟨t, htab, hframe⟩ := h.dirEntry_tab hw
  unfold tableEntry
  rw [hframe, ht t htab]

/-- A page that is neither the directory nor one of its tables. -/
theorem VmmInv.apart (h : VmmInv tab page s) {k : Nat} (hk : k ≠ 512) (hfree : ∀ e, tab e ≠ some k)
    (hm : ∀ x, x / 4096 ≠ k → m' x = s.mem x) : SameWalks s.mem m' := by
  have hdirs : ∀ e, dirEntry m' e = dirEntry s.mem e :=
    dirEntry_congr fun x hx => hm x (by omega)
  refine ⟨hdirs, fun v => h.pageEntry_congr (hdirs _) fun t ht => ?_⟩
  have htk : t ≠ k := fun heq => hfree _ (heq ▸ ht)
  exact word_page_congr (Nat.mod_lt _ (by omega)) fun x hx => hm x (by omega)

/-- A new directory entry takes nothing away. -/
theorem VmmInv.hung (h : VmmInv tab page s) (hm : SameWalks s.mem m) {e : Nat} (he : e < 1024)
    (hnone : tab e = none) (w : U32) :
    (∀ e' b, dirEntry m e' = some b → dirEntry (setWord m kernelPdAddr e w) e' = some b) ∧
    ∀ v b, pageEntry m v = some b → pageEntry (setWord m kernelPdAddr e w) v = some b := by
  have hne : ∀ e' b, dirEntry m e' = some b → e' ≠ e := by
    rintro e' b hb rfl
    rw [hm.dirs] at hb
    obtain ⟨t, ht, _⟩ := h.dirEntry_tab hb
    rw [hnone] at ht
    cases ht
  have hdirs : ∀ e' b, dirEntry m e' = some b →
      dirEntry (setWord m kernelPdAddr e w) e' = some b := by
    intro e' b hb
    have hsame := hb
    unfold dirEntry at hb ⊢
    rw [word_setWord_ne w (hne e' b hsame)]
    exact hb
  refine ⟨hdirs, fun v b hb => ?_⟩
  have hb' := hb
  unfold pageEntry at hb ⊢
  cases hd : dirEntry m (v / 1024) with
  | none =>
    rw [hd] at hb
    cases hb
  | some pde =>
    rw [hdirs _ _ hd]
    rw [hd] at hb
    have hpde := hd
    rw [hm.dirs] at hpde
    obtain ⟨t, ht, hframe⟩ := h.dirEntry_tab hpde
    have hbounds := h.table_bounds ht
    rw [Option.bind_some] at hb ⊢
    unfold tableEntry at hb ⊢
    rw [hframe] at hb ⊢
    rw [show kernelPdAddr = 512 * 4096 from rfl, word_page_congr (Nat.mod_lt _ (by omega))
      fun x hx => setWord_otherPage w he (by omega)]
    exact hb

/-- An entry of a table decides its own page. -/
theorem VmmInv.stored (h : VmmInv tab page s) {e t i : Nat} (ht : tab e = some t) (hi : i < 1024)
    (w : U32) :
    (∀ e', dirEntry (setWord s.mem (t * 4096) i w) e' = dirEntry s.mem e') ∧
    ∀ v, v ∉ ({e * 1024 + i} : Set Nat) →
      pageEntry (setWord s.mem (t * 4096) i w) v = pageEntry s.mem v := by
  have hbounds := h.table_bounds ht
  have hdirs : ∀ e', dirEntry (setWord s.mem (t * 4096) i w) e' = dirEntry s.mem e' :=
    dirEntry_congr fun x hx => setWord_otherPage w hi (by omega)
  refine ⟨hdirs, fun v hv => h.pageEntry_congr (hdirs _) fun t' ht' => ?_⟩
  have hne : v ≠ e * 1024 + i := hv
  by_cases hee : v / 1024 = e
  · rw [hee, ht] at ht'
    cases ht'
    exact word_setWord_ne w (by omega)
  · have htt : t' ≠ t := fun heq => hee (h.inj _ _ t (heq ▸ ht') ht)
    exact word_page_congr (Nat.mod_lt _ (by omega)) fun x hx => setWord_otherPage w hi (by omega)

end

/-! ## Accesses through the caches -/

/-- Both caches, the pages of `D` in doubt. -/
structure Coherent (D : Set Nat) (s : Paged) : Prop where
  dirs : CachedBut ∅ s.dirs (dirEntry s.phys.mem)
  pages : CachedBut D s.pages (pageEntry s.phys.mem)

/-- The first 16 MB are mapped to themselves. -/
def LowIdentity (m : Mem) : Prop :=
  ∀ a : U32, a.toNat < identityTop → translate m kernelCr3 a = some a.toNat

section

variable {D : Set Nat} {s : Paged}

theorem Coherent.walk_eq (h : Coherent D s) (v : Nat) : s.walk v = pageEntry s.phys.mem v := by
  unfold Paged.walk
  rw [h.dirs.through_eq (Set.notMem_empty _)]
  rfl

/-- **The caches make no difference** to an access outside `D`. -/
theorem Coherent.addr_eq (h : Coherent D s) {a : U32} (ha : a.toNat / 4096 ∉ D) :
    s.addr a = translate s.phys.mem kernelCr3 a := by
  unfold Paged.addr
  rw [funext h.walk_eq, h.pages.through_eq ha, translate_eq_pageEntry]

theorem Coherent.load_low (h : Coherent ∅ s) (hl : LowIdentity s.phys.mem) {a : U32}
    (ha : a.toNat < identityTop) : s.load a = some (load32 s.phys.mem a.toNat) := by
  unfold Paged.load
  rw [h.addr_eq (Set.notMem_empty _), hl a ha, Option.map_some]

theorem Coherent.store_low (h : Coherent ∅ s) (hl : LowIdentity s.phys.mem) {a w : U32}
    (ha : a.toNat < identityTop) :
    s.store a w = some (s.setMem (store32 s.phys.mem a.toNat w)) := by
  unfold Paged.store
  rw [h.addr_eq (Set.notMem_empty _), hl a ha, Option.map_some]

theorem Coherent.same (h : Coherent D s) {m : Mem} (hm : SameWalks s.phys.mem m) :
    Coherent D (s.setMem m) :=
  ⟨h.dirs.grow fun e _ hb => (hm.dirs e).trans hb, h.pages.grow fun v _ hb => (hm.pages v).trans hb⟩

theorem Coherent.invlpg {virt : U32} (h : Coherent {virt.toNat / 4096} s) :
    Coherent ∅ (s.invlpg virt) :=
  ⟨CachedBut.empty _ _, h.pages.invalidate⟩

/-- The processor's own steps keep the caches. -/
theorem Coherent.loadDir (h : Coherent D s) {e : Nat} {w : U32}
    (hw : dirEntry s.phys.mem e = some w) :
    Coherent D { s with dirs := Function.update s.dirs e (some w) } :=
  ⟨h.dirs.fill w hw, h.pages⟩

theorem Coherent.loadPage (h : Coherent D s) {v : Nat} {w : U32 × U32} (hw : s.walk v = some w) :
    Coherent D { s with pages := Function.update s.pages v (some w) } :=
  ⟨h.dirs, h.pages.fill w (by rw [← h.walk_eq]; exact hw)⟩

end

theorem SameWalks.low {m m' : Mem} (h : SameWalks m m') (hl : LowIdentity m) : LowIdentity m' :=
  fun a ha => (h.translate a).trans (hl a ha)

theorem VmmInv.lowIdentity {tab : Nat → Option Nat} {calls : List VmmCall} {s : Phys}
    (h : VmmInv tab (vmmFrames calls) s) : LowIdentity s.mem := by
  intro a ha
  unfold identityTop at ha
  rw [translate_eq_pageFrame, h.walk (by omega)]
  unfold vmmFrames
  rw [if_pos (by omega), Option.map_some]
  congr 1
  omega

/-! ## Where a call has got to -/

def VmmCall.virt : VmmCall → U32
  | .map virt _ _ => virt
  | .unmap virt => virt

/-- The table entry the call writes. -/
def VmmCall.newEntry : VmmCall → U32
  | .map _ phys flags => phys ||| flags
  | .unmap _ => 0#32

/-- The call up to that entry; `none` where it does not get there. -/
def VmmCall.prepared : VmmCall → Phys → Option Phys
  | .map virt _ _, s => vmmEnsureTable (pdIndex virt) s
  | .unmap virt, s => if present (word s.mem kernelPdAddr (pdIndex virt)) then some s else none

/-- `s` is what the completed calls `h` and this much of the next have made of `s0`. -/
inductive VmmMid (s0 : Phys) : List VmmCall → VmmPc → Phys → Prop where
  | idle {h : List VmmCall} {s : Phys} : Run VmmStep s0 h s → VmmMid s0 h .idle s
  | test {h : List VmmCall} {s : Phys} {c : VmmCall} : Run VmmStep s0 h s → c.Allowed s →
      VmmMid s0 (c :: h) (.test c) s
  | clear {h : List VmmCall} {s : Phys} {virt phys flags : U32} {i : Nat} :
      Run VmmStep s0 h s → (VmmCall.map virt phys flags).Allowed s →
      present (word s.mem kernelPdAddr (pdIndex virt)) = false → i ≤ 1024 →
      VmmMid s0 (.map virt phys flags :: h) (.clear virt phys flags (pmmAllocPage s.pmm).1 i)
        ⟨forRange 0 i (fun i m => setWord m (pmmAllocPage s.pmm).1.toNat i 0#32) s.mem,
          (pmmAllocPage s.pmm).2⟩
  | table {h : List VmmCall} {s s' : Phys} {c : VmmCall} : Run VmmStep s0 h s → c.Allowed s →
      c.prepared s = some s' → VmmMid s0 (c :: h) (.table c.virt c.newEntry) s'
  | entry {h : List VmmCall} {s s' : Phys} {c : VmmCall} : Run VmmStep s0 h s → c.Allowed s →
      c.prepared s = some s' →
      VmmMid s0 (c :: h)
        (.entry c.virt c.newEntry (word s'.mem kernelPdAddr (pdIndex c.virt) &&& ~~~0xFFF#32)) s'
  | invlpg {h : List VmmCall} {s : Phys} {c : VmmCall} : Run VmmStep s0 (c :: h) s →
      VmmMid s0 (c :: h) (.invlpg c.virt) s

theorem VmmMid.run_of_idle {s0 s : Phys} {calls : List VmmCall} (h : VmmMid s0 calls .idle s) :
    Run VmmStep s0 calls s := by
  generalize hpc : VmmPc.idle = pc at h
  cases h with
  | idle hrun => exact hrun
  | _ => cases hpc

section

variable {tab page : Nat → Option Nat} {s s' : Phys} {c : VmmCall} {virt phys flags : U32}

theorem VmmCall.Allowed.above (h : c.Allowed s) : identityTop ≤ c.virt.toNat := by
  cases c with
  | map => exact h.1
  | unmap => exact h

theorem pdIndex_above (hv : identityTop ≤ virt.toNat) : 4 ≤ pdIndex virt := by
  unfold identityTop at hv
  rw [pdIndex_eq]
  omega

/-- The table is there. -/
theorem VmmInv.prepared (h : VmmInv tab page s) (ha : c.Allowed s) (hp : c.prepared s = some s') :
    ∃ tab' t, VmmInv tab' page s' ∧ tab' (pdIndex c.virt) = some t := by
  cases c with
  | map virt phys flags =>
    obtain ⟨hv, _, _, _, hready⟩ := ha
    obtain ⟨tab', t, s1, hrun, hinv, ht⟩ := vmmEnsureTable_spec h (pdIndex_above hv) hready
    have heq : vmmEnsureTable (pdIndex virt) s = some s' := hp
    rw [hrun] at heq
    cases heq
    exact ⟨tab', t, hinv, ht⟩
  | unmap virt =>
    rcases ite_cases hp with ⟨hpres, heq⟩ | ⟨_, heq⟩
    · cases heq
      have hentry := h.entryFrame_dir (pdIndex_lt virt)
      unfold entryFrame at hentry
      rw [if_pos hpres] at hentry
      exact ⟨tab, _, h, hentry.symm⟩
    · cases heq

/-- The page `pmm_alloc_page` hands out for a table. -/
theorem VmmInv.fresh (h : VmmInv tab page s) (ha : (VmmCall.map virt phys flags).Allowed s)
    (habs : present (word s.mem kernelPdAddr (pdIndex virt)) = false) :
    tab (pdIndex virt) = none ∧ ∃ k, (pmmAllocPage s.pmm).1.toNat = k * 4096 ∧ 512 < k ∧ k < 4096 ∧
      ∀ e, tab e ≠ some k := by
  obtain ⟨_, _, _, _, hready⟩ := ha
  have hentry := h.entryFrame_dir (pdIndex_lt virt)
  unfold entryFrame at hentry
  rw [if_neg (by rw [habs]; exact Bool.false_ne_true)] at hentry
  refine ⟨hentry.symm, ?_⟩
  rcases hready with hp | ⟨hne, hlow⟩
  · rw [habs] at hp
    cases hp
  · rcases pmmAllocPage_cases h.pmm with ⟨_, heq⟩ | ⟨k, hk, _, haddr, _⟩
    · rw [heq] at hne
      exact absurd rfl hne
    · have hres := h.reserved k hk
      unfold pmmPageSize at haddr
      unfold identityTop at hlow
      exact ⟨k, haddr, by omega, by omega, fun e he => (h.table_bounds he).2.2 hk⟩

end

/-! ## The kernel's next access -/

/-- What an access of the kernel has to do. -/
def Continues (s0 : Phys) (h : List VmmCall) (pc : VmmPc) (s : Paged) : Prop :=
  ∃ pc' s', pc.exec s = some (pc', s') ∧ VmmMid s0 h pc' s'.phys ∧ Coherent pc'.stale s' ∧
    pc'.left < pc.left

theorem pdPtr_toNat (virt : U32) : (pdPtr virt).toNat = kernelPdAddr + 4 * pdIndex virt :=
  wordPtr_toNat (k := 512) rfl (by omega) (pdIndex_lt virt)

theorem pdPtr_low (virt : U32) : (pdPtr virt).toNat < identityTop := by
  have := pdIndex_lt virt
  rw [pdPtr_toNat]
  unfold kernelPdAddr identityTop
  omega

theorem Coherent.load_pd {s : Paged} (hc : Coherent ∅ s) (hl : LowIdentity s.phys.mem) (virt : U32) :
    s.load (pdPtr virt) = some (word s.phys.mem kernelPdAddr (pdIndex virt)) := by
  rw [hc.load_low hl (pdPtr_low virt), pdPtr_toNat]
  rfl

section

variable {m : Mem} {p0 : Pmm} {memSize : U32} {h : List VmmCall} {s : Paged} {s1 : Phys}
  {c : VmmCall} {virt phys flags : U32}

/-- A table entry of a page that is there. -/
theorem pageLow {k i : Nat} {pt : U32} (hpt : pt.toNat = k * 4096) (hk : k < 4096) (hi : i < 1024) :
    (wordPtr pt i).toNat = k * 4096 + 4 * i ∧ (wordPtr pt i).toNat < identityTop := by
  have ha := wordPtr_toNat hpt hk hi
  unfold identityTop
  exact ⟨ha, by omega⟩

theorem testMap_continues
    (hrun : Run VmmStep ⟨initPaging m, pmmInit p0 memSize⟩ h s.phys)
    (ha : (VmmCall.map virt phys flags).Allowed s.phys) (hc : Coherent ∅ s) :
    Continues ⟨initPaging m, pmmInit p0 memSize⟩ (.map virt phys flags :: h)
      (.test (.map virt phys flags)) s := by
  obtain ⟨tab, hinv⟩ := vmm_run_inv hrun
  have hload := hc.load_pd hinv.lowIdentity virt
  unfold Continues
  simp only [VmmPc.exec, hload, Option.bind_eq_bind, Option.bind_some]
  cases hp : present (word s.phys.mem kernelPdAddr (pdIndex virt)) with
  | true =>
    have hprep : (VmmCall.map virt phys flags).prepared s.phys = some s.phys := by
      simp only [VmmCall.prepared, vmmEnsureTable, hp, Bool.not_true, Bool.false_eq_true, if_false]
    exact ⟨_, _, if_pos rfl, .table hrun ha hprep, hc, (by decide : 3 < 1029)⟩
  | false =>
    exact ⟨_, _, if_neg Bool.false_ne_true, .clear hrun ha hp (Nat.zero_le _), ⟨hc.dirs, hc.pages⟩,
      (by decide : 1028 < 1029)⟩

theorem testUnmap_continues
    (hrun : Run VmmStep ⟨initPaging m, pmmInit p0 memSize⟩ h s.phys)
    (ha : (VmmCall.unmap virt).Allowed s.phys) (hc : Coherent ∅ s) :
    Continues ⟨initPaging m, pmmInit p0 memSize⟩ (.unmap virt :: h) (.test (.unmap virt)) s := by
  obtain ⟨tab, hinv⟩ := vmm_run_inv hrun
  have hload := hc.load_pd hinv.lowIdentity virt
  unfold Continues
  simp only [VmmPc.exec, hload, Option.bind_eq_bind, Option.bind_some]
  cases hp : present (word s.phys.mem kernelPdAddr (pdIndex virt)) with
  | true =>
    exact ⟨_, _, if_pos rfl, .table hrun ha (if_pos hp), hc, (by decide : 3 < 1029)⟩
  | false =>
    -- no table, nothing mapped: the call is over
    have hskip : vmmUnmapPage virt s.phys = some s.phys := by
      simp only [vmmUnmapPage, hp, Bool.not_false, if_true]
    exact ⟨_, _, if_neg Bool.false_ne_true, .idle (.step hrun (.unmap ha hskip)), hc,
      (by decide : 0 < 1029)⟩

theorem clear_continues {i : Nat} (hrun : Run VmmStep ⟨initPaging m, pmmInit p0 memSize⟩ h s1)
    (ha : (VmmCall.map virt phys flags).Allowed s1)
    (habs : present (word s1.mem kernelPdAddr (pdIndex virt)) = false) (hi : i ≤ 1024)
    (hs : s.phys = ⟨forRange 0 i (fun i m => setWord m (pmmAllocPage s1.pmm).1.toNat i 0#32) s1.mem,
      (pmmAllocPage s1.pmm).2⟩) (hc : Coherent ∅ s) :
    Continues ⟨initPaging m, pmmInit p0 memSize⟩ (.map virt phys flags :: h)
      (.clear virt phys flags (pmmAllocPage s1.pmm).1 i) s := by
  obtain ⟨tab, hinv⟩ := vmm_run_inv hrun
  obtain ⟨hnone, k, hpt, hk, hk4, hfree⟩ := hinv.fresh ha habs
  -- the page being cleared is not part of any walk
  have hsame : ∀ i, i ≤ 1024 → SameWalks s1.mem
      (forRange 0 i (fun i m => setWord m (pmmAllocPage s1.pmm).1.toNat i 0#32) s1.mem) := by
    intro i hi
    refine hinv.apart (by omega) hfree fun x hx => ?_
    rw [hpt]
    exact (forRange_setWord s1.mem hi fun _ _ _ _ => rfl).1 x (by rw [inRun_page]; exact hx)
  have hmem : s.phys.mem = _ := congrArg Phys.mem hs
  have hnow : SameWalks s1.mem s.phys.mem := by
    rw [hmem]
    exact hsame i hi
  have hlow := hnow.low hinv.lowIdentity
  unfold Continues
  rcases Nat.lt_or_ge i 1024 with hlt | hge
  · obtain ⟨hword, haddr⟩ := pageLow hpt hk4 hlt
    have hstore : s.store (wordPtr (pmmAllocPage s1.pmm).1 i) 0#32 =
        some (s.setMem (setWord s.phys.mem (pmmAllocPage s1.pmm).1.toNat i 0#32)) := by
      rw [hc.store_low hlow haddr, hword, ← hpt]
      rfl
    have hnext : s.setMem (setWord s.phys.mem (pmmAllocPage s1.pmm).1.toNat i 0#32) =
        s.setMem (forRange 0 (i + 1) (fun i m => setWord m (pmmAllocPage s1.pmm).1.toNat i 0#32)
          s1.mem) := by
      rw [hmem, forRange_succ]
    rw [hnext] at hstore
    have hstep : SameWalks s.phys.mem
        (forRange 0 (i + 1) (fun i m => setWord m (pmmAllocPage s1.pmm).1.toNat i 0#32) s1.mem) :=
      ⟨fun e => by rw [hnow.dirs, (hsame (i + 1) hlt).dirs],
        fun v => by rw [hnow.pages, (hsame (i + 1) hlt).pages]⟩
    refine ⟨.clear virt phys flags (pmmAllocPage s1.pmm).1 (i + 1), _, ?_, ?_, hc.same hstep, ?_⟩
    · simp only [VmmPc.exec, if_pos hlt, hstore, Option.bind_eq_bind, Option.bind_some]
    · rw [Paged.setMem_phys, congrArg Phys.pmm hs]
      exact .clear hrun ha habs hlt
    · unfold VmmPc.left
      simp only
      omega
  · have hi' : i = 1024 := by omega
    subst hi'
    have hpd := pdPtr_low virt
    have hstore := hc.store_low (w := (pmmAllocPage s1.pmm).1 ||| pagePresent ||| pageWrite) hlow hpd
    rw [pdPtr_toNat] at hstore
    obtain ⟨hdirs, hpages⟩ := hinv.hung hnow (pdIndex_lt virt) hnone
      ((pmmAllocPage s1.pmm).1 ||| pagePresent ||| pageWrite)
    have hprep : (VmmCall.map virt phys flags).prepared s1 = some (s.setMem (setWord s.phys.mem
        kernelPdAddr (pdIndex virt) ((pmmAllocPage s1.pmm).1 ||| pagePresent ||| pageWrite))).phys := by
      have hmapped : pageMapped (pmmAllocPage s1.pmm).1 := by
        unfold pageMapped identityTop
        omega
      simp only [VmmCall.prepared, vmmEnsureTable, habs, Bool.not_false, if_true, if_pos hmapped,
        Paged.setMem, hs]
    refine ⟨.table virt (phys ||| flags), _, ?_, .table hrun ha hprep,
      ⟨hc.dirs.grow hdirs, hc.pages.grow hpages⟩, (by decide : 3 < 4)⟩
    simp only [VmmPc.exec, if_neg (Nat.lt_irrefl 1024), hstore, Option.bind_eq_bind,
      Option.bind_some]
    rfl

theorem table_continues (hrun : Run VmmStep ⟨initPaging m, pmmInit p0 memSize⟩ h s1)
    (ha : c.Allowed s1) (hp : c.prepared s1 = some s.phys) (hc : Coherent ∅ s)
    (hl : LowIdentity s.phys.mem) :
    Continues ⟨initPaging m, pmmInit p0 memSize⟩ (c :: h) (.table c.virt c.newEntry) s := by
  unfold Continues
  simp only [VmmPc.exec, hc.load_pd hl c.virt, Option.bind_eq_bind, Option.bind_some]
  exact ⟨_, _, rfl, .entry hrun ha hp, hc, (by decide : 2 < 3)⟩

/-- The store ends the call of the plain model. -/
theorem VmmCall.step_of_prepared (hrun : Run VmmStep ⟨initPaging m, pmmInit p0 memSize⟩ h s1)
    (ha : c.Allowed s1) {s2 : Phys} (hp : c.prepared s1 = some s2) {m' : Mem}
    (hstore : kstore32 s2.mem (wordPtr (word s2.mem kernelPdAddr (pdIndex c.virt) &&& ~~~0xFFF#32)
      (ptIndex c.virt)) c.newEntry = some m') :
    Run VmmStep ⟨initPaging m, pmmInit p0 memSize⟩ (c :: h) ⟨m', s2.pmm⟩ := by
  refine .step hrun ?_
  cases c with
  | map virt phys flags =>
    simp only [VmmCall.virt, VmmCall.newEntry] at hstore
    obtain ⟨hv, hphys, hfl, hpres, hready⟩ := ha
    have htable : vmmEnsureTable (pdIndex virt) s1 = some s2 := hp
    refine .map hv hphys hfl hpres hready ?_
    simp only [vmmMapPage, htable, hstore, Option.bind_eq_bind, Option.bind_some]
  | unmap virt =>
    simp only [VmmCall.virt, VmmCall.newEntry] at hstore
    rcases ite_cases hp with ⟨hpres, heq⟩ | ⟨_, heq⟩
    · cases heq
      refine .unmap ha ?_
      simp only [vmmUnmapPage, hpres, Bool.not_true, Bool.false_eq_true, if_false, hstore,
        Option.map_some]
    · cases heq

theorem entry_continues (hrun : Run VmmStep ⟨initPaging m, pmmInit p0 memSize⟩ h s1)
    (ha : c.Allowed s1) (hp : c.prepared s1 = some s.phys) (hc : Coherent ∅ s)
    (hl : LowIdentity s.phys.mem) :
    Continues ⟨initPaging m, pmmInit p0 memSize⟩ (c :: h)
      (.entry c.virt c.newEntry (word s.phys.mem kernelPdAddr (pdIndex c.virt) &&& ~~~0xFFF#32)) s := by
  obtain ⟨tab, hinv⟩ := vmm_run_inv hrun
  obtain ⟨tab', t, hinv', ht⟩ := hinv.prepared ha hp
  have hbounds := hinv'.table_bounds ht
  have hentry := hinv'.entryFrame_dir (pdIndex_lt c.virt)
  rw [ht] at hentry
  obtain ⟨hword, haddr⟩ := pageLow (entryFrame_some hentry).2 hbounds.2.1 (ptIndex_lt c.virt)
  have hstore : s.store (wordPtr (word s.phys.mem kernelPdAddr (pdIndex c.virt) &&& ~~~0xFFF#32)
      (ptIndex c.virt)) c.newEntry =
      some (s.setMem (setWord s.phys.mem (t * 4096) (ptIndex c.virt) c.newEntry)) := by
    rw [hc.store_low hl haddr, hword]
    rfl
  -- from here on one page is in doubt
  obtain ⟨hdirs, hpages⟩ := hinv'.stored ht (ptIndex_lt c.virt) c.newEntry
  rw [page_index] at hpages
  have hrun' := c.step_of_prepared hrun ha hp (hinv'.kstore ht _)
  have hdirs' : CachedBut ∅ s.dirs (dirEntry (setWord s.phys.mem (t * 4096) (ptIndex c.virt)
      c.newEntry)) := hc.dirs.grow fun e _ hb => (hdirs e).trans hb
  have hexec : (VmmPc.entry c.virt c.newEntry (word s.phys.mem kernelPdAddr (pdIndex c.virt) &&&
      ~~~0xFFF#32)).exec s =
      some (.invlpg c.virt, s.setMem (setWord s.phys.mem (t * 4096) (ptIndex c.virt) c.newEntry)) := by
    simp only [VmmPc.exec, hstore, Option.bind_eq_bind, Option.bind_some]
  have hco : Coherent (VmmPc.invlpg c.virt).stale
      (s.setMem (setWord s.phys.mem (t * 4096) (ptIndex c.virt) c.newEntry)) :=
    ⟨hdirs', hc.pages.change hpages⟩
  exact ⟨.invlpg c.virt, _, hexec, .invlpg hrun', hco, (by decide : 1 < 2)⟩

/-- The next access of any call: it does not fault, and leaves the caches right. -/
theorem VmmMid.continues {pc : VmmPc} {calls : List VmmCall}
    (hmid : VmmMid ⟨initPaging m, pmmInit p0 memSize⟩ calls pc s.phys) (hc : Coherent pc.stale s)
    (hpc : pc ≠ .idle) : Continues ⟨initPaging m, pmmInit p0 memSize⟩ calls pc s := by
  generalize hs : s.phys = q at hmid
  cases hmid with
  | idle => exact absurd rfl hpc
  | test hrun ha =>
    rename_i c
    rw [← hs] at hrun ha
    cases c with
    | map => exact testMap_continues hrun ha hc
    | unmap => exact testUnmap_continues hrun ha hc
  | clear hrun ha habs hi => exact clear_continues hrun ha habs hi hs hc
  | table hrun ha hp =>
    rw [← hs] at hp
    obtain ⟨tab, hinv⟩ := vmm_run_inv hrun
    obtain ⟨_, _, hinv', _⟩ := hinv.prepared ha hp
    exact table_continues hrun ha hp hc hinv'.lowIdentity
  | entry hrun ha hp =>
    subst hs
    obtain ⟨tab, hinv⟩ := vmm_run_inv hrun
    obtain ⟨_, _, hinv', _⟩ := hinv.prepared ha hp
    exact entry_continues hrun ha hp hc hinv'.lowIdentity
  | invlpg hrun =>
    rename_i _ c
    subst hs
    exact ⟨.idle, s.invlpg c.virt, rfl, .idle hrun, Coherent.invlpg hc, (by decide : 0 < 1)⟩

/-- What every interleaving keeps. -/
structure PagedInv (s0 : Phys) (h : List PagedEvent) (t : VmmPc × Paged) : Prop where
  mid : VmmMid s0 (vmmCalls h) t.1 t.2.phys
  coherent : Coherent t.1.stale t.2
  /-- whatever came in between, the call has made no more accesses than it may -/
  bounded : callAccesses h + t.1.left ≤ 1029

theorem PagedInv.step {t t' : VmmPc × Paged} {h : List PagedEvent} {e : PagedEvent}
    (hi : PagedInv ⟨initPaging m, pmmInit p0 memSize⟩ h t) (hstep : PagedStep t e t') :
    PagedInv ⟨initPaging m, pmmInit p0 memSize⟩ (e :: h) t' := by
  obtain ⟨hmid, hc, hb⟩ := hi
  cases hstep with
  | loadDir hw => exact ⟨hmid, hc.loadDir hw, hb⟩
  | loadPage hw => exact ⟨hmid, hc.loadPage hw, hb⟩
  | lose hdirs hpages => exact ⟨hmid, ⟨hc.dirs.evict hdirs, hc.pages.evict hpages⟩, hb⟩
  | flush => exact ⟨hmid, ⟨CachedBut.empty _ _, CachedBut.empty _ _⟩, hb⟩
  | call ha => exact ⟨.test hmid.run_of_idle ha, hc, (Nat.zero_add _).trans_le (VmmPc.left_le _)⟩
  | exec hexec =>
    rename_i pc pc' s s'
    have hpc : pc ≠ .idle := by
      rintro rfl
      cases hexec
    obtain ⟨pc1, s1, hexec1, hmid1, hc1, hless⟩ := hmid.continues hc hpc
    rw [hexec] at hexec1
    cases hexec1
    refine ⟨hmid1, hc1, ?_⟩
    have hbefore : callAccesses h + pc.left ≤ 1029 := hb
    show callAccesses h + 1 + pc'.left ≤ 1029
    omega

theorem paged_inv {t : VmmPc × Paged} {h : List PagedEvent}
    (hrun : Run PagedStep (.idle, Paged.boot m p0 memSize) h t) :
    PagedInv ⟨initPaging m, pmmInit p0 memSize⟩ h t :=
  hrun.inv (PagedInv ⟨initPaging m, pmmInit p0 memSize⟩)
    ⟨.idle .start, ⟨CachedBut.empty _ _, CachedBut.empty _ _⟩, Nat.zero_le _⟩
    fun _ _ _ _ => PagedInv.step

/-- A call comes to its end within its bound. -/
theorem PagedInv.finishes {h : List PagedEvent} : ∀ (n : Nat) (t : VmmPc × Paged),
    PagedInv ⟨initPaging m, pmmInit p0 memSize⟩ h t → t.1.left ≤ n →
    ∃ k s', k ≤ n ∧ Run PagedStep t (List.replicate k .exec) (.idle, s') := by
  intro n
  induction n generalizing h with
  | zero =>
    rintro ⟨pc, s⟩ _ hle
    obtain rfl : pc = .idle := VmmPc.idle_of_left (Nat.le_zero.mp hle)
    exact ⟨0, s, Nat.le_refl _, .start⟩
  | succ n ih =>
    rintro ⟨pc, s⟩ hi hle
    by_cases hpc : pc = .idle
    · subst hpc
      exact ⟨0, s, Nat.zero_le _, .start⟩
    · obtain ⟨pc', s', hexec, _, _, hless⟩ := hi.mid.continues hi.coherent hpc
      have hstep : PagedStep (pc, s) .exec (pc', s') := .exec hexec
      obtain ⟨k, s2, hk, hrun⟩ := ih (pc', s') (hi.step hstep) (by
        have : pc.left ≤ n + 1 := hle
        show pc'.left ≤ n
        omega)
      refine ⟨k + 1, s2, by omega, ?_⟩
      have hrun' := (Run.start.step hstep).append hrun
      rw [List.replicate_succ']
      exact hrun'

end

/-- **No stale translation**, as long as the calls keep the conditions of `VmmCall.Allowed`: pages
from 16 MB on, and at `vmm_map_page` a page-aligned address, a present entry and a page table
that is there or will come from below 16 MB. However the accesses of the calls are
interleaved with what the processor loads into its caches and loses from them, an access to
any page but the one whose entry is just stored goes where the tables say. Between calls that
is every page, and memory is what the plain calls make of it, one after the other. No access
of a call faults, and in any interleaving a call makes at most 1029 of them; left alone it
comes to its end. -/
theorem tlb_coherent {m : Mem} {p0 : Pmm} {memSize : U32} {h : List PagedEvent} {pc : VmmPc}
    {s : Paged} (hrun : Run PagedStep (.idle, Paged.boot m p0 memSize) h (pc, s)) :
    (∀ a : U32, a.toNat / 4096 ∉ pc.stale → s.addr a = translate s.phys.mem kernelCr3 a) ∧
    (pc = .idle → Run VmmStep ⟨initPaging m, pmmInit p0 memSize⟩ (vmmCalls h) s.phys) ∧
    (pc ≠ .idle → ∃ t, PagedStep (pc, s) .exec t) ∧ callAccesses h ≤ 1029 ∧
    ∃ k s', k ≤ 1029 ∧ Run PagedStep (pc, s) (List.replicate k .exec) (.idle, s') := by
  have hi := paged_inv hrun
  refine ⟨fun a ha => hi.coherent.addr_eq ha, ?_, fun hpc => ?_, ?_, ?_⟩
  · rintro rfl
    exact hi.mid.run_of_idle
  · obtain ⟨pc', s', hexec, _⟩ := hi.mid.continues hi.coherent hpc
    exact ⟨_, .exec hexec⟩
  · exact (Nat.le_add_right ..).trans hi.bounded
  · exact hi.finishes 1029 (pc, s) pc.left_le

/-- A page mapped at 0xD0000000 on a machine with 32 MB, its translation loaded, and unmapped
again: an access faults. -/
theorem tlb_coherent_unmapped : ∃ h s,
    Run PagedStep (.idle, Paged.boot (fun _ => 0#8) ⟨fun _ => 0#32, 0#32, 0#32⟩ 0x2000000#32) h
      (.idle, s) ∧
    vmmCalls h = [.unmap 0xD0000000#32, .map 0xD0000000#32 0x500000#32 3#32] ∧
    .loadPage 0xD0000 ∈ h ∧ s.addr 0xD0000123#32 = none := by
  have hready : TableReady 0xD0000000#32
      ⟨initPaging fun _ => 0#8, pmmInit ⟨fun _ => 0#32, 0#32, 0#32⟩ 0x2000000#32⟩ := by
    have hfirst : (pmmAllocPage (pmmInit ⟨fun _ => 0#32, 0#32, 0#32⟩ 0x2000000#32)).1 =
        0x400000#32 :=
      pmmInit_alloc _ (by rw [pmmTotal_32MB]; unfold pmmReserved pmmPageSize; omega)
    refine .inr ?_
    show (pmmAllocPage _).1 ≠ 0#32 ∧ (pmmAllocPage _).1.toNat < identityTop
    rw [hfirst]
    exact ⟨nofun, Nat.le_of_ble_eq_true rfl⟩
  have hcalls : ∀ k l, vmmCalls (List.replicate k .exec ++ l) = vmmCalls l := by
    intro k l
    unfold vmmCalls
    rw [List.filterMap_append, List.filterMap_replicate_of_none rfl, List.nil_append]
  -- the page is mapped
  have hmap : (VmmCall.map 0xD0000000#32 0x500000#32 3#32).Allowed
      (Paged.boot (fun _ => 0#8) ⟨fun _ => 0#32, 0#32, 0#32⟩ 0x2000000#32).phys :=
    ⟨Nat.le_of_ble_eq_true rfl, rfl, Nat.le_of_ble_eq_true rfl, rfl, hready⟩
  have hrun1 := Run.start.step (PagedStep.call hmap)
  obtain ⟨k1, s1, _, hfin1⟩ := (tlb_coherent hrun1).2.2.2.2
  have hrun2 := hrun1.append hfin1
  have hplain := (tlb_coherent hrun2).2.1 rfl
  obtain ⟨tab, hinv⟩ := vmm_run_inv hplain
  -- the processor loads it
  have hpage : ∃ w, s1.walk 0xD0000 = some w := by
    rw [(paged_inv hrun2).coherent.walk_eq]
    have hframe := hinv.walk (v := 0xD0000) (by decide)
    rw [pageFrame_eq_pageEntry _ (by decide), hcalls] at hframe
    cases hw : pageEntry s1.phys.mem 0xD0000 with
    | some w => exact ⟨w, rfl⟩
    | none =>
      rw [hw] at hframe
      cases hframe
  obtain ⟨w, hw⟩ := hpage
  have hrun3 := hrun2.step (PagedStep.loadPage hw)
  -- and it is unmapped
  have hunmap : (VmmCall.unmap 0xD0000000#32).Allowed s1.phys := Nat.le_of_ble_eq_true rfl
  have hrun4 := hrun3.step (PagedStep.call hunmap)
  obtain ⟨k2, s2, _, hfin2⟩ := (tlb_coherent hrun4).2.2.2.2
  have hrun5 := hrun4.append hfin2
  obtain ⟨haddr, hplain5, _⟩ := tlb_coherent hrun5
  have hlist : vmmCalls (List.replicate k2 PagedEvent.exec ++ .call (.unmap 0xD0000000#32) ::
      .loadPage 0xD0000 :: (List.replicate k1 PagedEvent.exec ++
        [.call (.map 0xD0000000#32 0x500000#32 3#32)])) =
      [.unmap 0xD0000000#32, .map 0xD0000000#32 0x500000#32 3#32] := by
    rw [hcalls]
    show VmmCall.unmap _ :: vmmCalls (List.replicate k1 PagedEvent.exec ++ _) = _
    rw [hcalls]
    rfl
  refine ⟨_, s2, hrun5, hlist, by simp, ?_⟩
  obtain ⟨tab', hinv'⟩ := vmm_run_inv (hplain5 rfl)
  rw [haddr _ (Set.notMem_empty _), translate_eq_pageFrame, hinv'.walk (by decide), hlist]
  rfl

end PepinOS
