import PepinOS.Fs.LoadClone
import PepinOS.Process.Launched
import PepinOS.Process.OpenSpaces
import PepinOS.Process.UserMemory

/-!
# The kernel seen from every task

Interrupts and system calls run on the directory of the task they come from, so what
`vmm_map_page` maps has to be there too. Directories are copied when a task is created:
`elf_exec` copies all entries of the kernel's directory, `create_task_space` the first
four. A page mapped later shows up in a task only if its directory entry had a table by
then, which the task got with the copy.

`SpaceStep` is any order of the four calls, and `SeenAlike` that each page mapped by
`vmm_map_page` translates the same everywhere. It fails (`mapped_page_unseen`), and
`kernel_seen_alike` says which calls keep it: their conditions are in `Allowed`. The
invariant behind it is that all directories lead to one table for each mapped page, and
that no table or directory is written through another (`SpaceInv`).
-/

namespace PepinOS

/-- The machine, the page directories of the tasks, and the pages that `vmm_map_page` has
mapped and that are not since unmapped. -/
structure Spaces where
  loader : Loader
  tasks : List U32
  mapped : Finset Nat

def Spaces.dirs (s : Spaces) : List U32 := kernelCr3 :: s.tasks

def Spaces.phys (s : Spaces) : Phys := ⟨s.loader.mem, s.loader.pmm⟩

def Spaces.withPhys (s : Spaces) (p : Phys) : Spaces :=
  { s with loader := { s.loader with mem := p.mem, pmm := p.pmm } }

/-- The pages `create_task_space` writes are the caller's own: no two the same, not the
allocator's, in no directory's tables. -/
structure FreshSpace (s : Spaces) (code pd pt : Nat) : Prop where
  distinct : [code, pd, pt].Nodup
  above : ∀ k ∈ [code, pd, pt], 0x205 ≤ k
  notFree : ∀ k ∈ [code, pd, pt], k ∉ freeSet s.loader.pmm
  unused : ∀ k ∈ [code, pd, pt], ∀ c ∈ s.dirs, inTables s.loader.mem c (k * 4096) = false

theorem FreshSpace.tables_ne {s : Spaces} {code pd pt : Nat} (h : FreshSpace s code pd pt) :
    pd ≠ pt := by
  have hd := h.distinct
  simp only [List.nodup_cons, List.mem_cons, List.not_mem_nil, or_false, not_or] at hd
  exact hd.2.1

inductive SpaceCall where
  | map (virt phys flags : U32)
  | unmap (virt : U32)
  | space (pdAddr : U32)
  | load (file : Option FileImage)

/-- One call. Directory entry 256 is the tasks'. An entry without the present bit maps
nothing. -/
inductive SpaceStep (b : ElfBuf) : Spaces → SpaceCall → Spaces → Prop where
  | map {s : Spaces} {virt phys flags : U32} {p : Phys} : pdIndex virt ≠ 256 →
      vmmMapPage virt phys flags s.phys = some p →
      SpaceStep b s (.map virt phys flags) { s.withPhys p with
        mapped := if present (phys ||| flags) then insert (virt.toNat / 4096) s.mapped
          else s.mapped.erase (virt.toNat / 4096) }
  | unmap {s : Spaces} {virt : U32} {p : Phys} : pdIndex virt ≠ 256 →
      vmmUnmapPage virt s.phys = some p →
      SpaceStep b s (.unmap virt)
        { s.withPhys p with mapped := s.mapped.erase (virt.toNat / 4096) }
  | space {s : Spaces} {src : Nat} {mem : Mem}
      {codePhys stackPhys codeVirt stackVirt pdAddr ptAddr : U32} {code pd pt : Nat} :
      FreshSpace s code pd pt → codePhys.toNat = code * 4096 → pdAddr.toNat = pd * 4096 →
      ptAddr.toNat = pt * 4096 → pdIndex codeVirt = 256 →
      createTaskSpace (copyTask src codePhys s.loader.mem) codePhys stackPhys codeVirt stackVirt
        pdAddr ptAddr = some mem →
      SpaceStep b s (.space pdAddr)
        { s with loader := { s.loader with mem := mem }, tasks := s.tasks ++ [pdAddr] }
  | refused {s : Spaces} {file : Option FileImage} {l : Loader} :
      elfExec b file s.loader = some l → l.sched.ntasks = s.loader.sched.ntasks →
      SpaceStep b s (.load file) { s with loader := l }
  | load {s : Spaces} {file : Option FileImage} {l : Loader} {i : Fin 8} :
      elfExec b file s.loader = some l → i.val = s.loader.sched.ntasks →
      l.sched.ntasks = s.loader.sched.ntasks + 1 →
      SpaceStep b s (.load file)
        { s with loader := l, tasks := s.tasks ++ [(l.sched.pool i).cr3] }

/-- A page mapped by `vmm_map_page` translates in every task as in the kernel. -/
def SeenAlike (s : Spaces) : Prop :=
  ∀ v : U32, v.toNat / 4096 ∈ s.mapped → ∀ c ∈ s.tasks,
    translate s.loader.mem c v = translate s.loader.mem kernelCr3 v

/-- All directories lead to one table for entry `e`. -/
def SharedEntry (s : Spaces) (e : Nat) : Prop :=
  ∃ t, ∀ c ∈ s.dirs, tableFrame s.loader.mem c e = some t

/-- The calls that keep the tasks' view of the kernel. Before each of them the first 16 MB
are mapped to themselves, which is how the kernel gets at its tables. -/
def Allowed (b : ElfBuf) (s : Spaces) (c : SpaceCall) : Prop :=
  (∀ v : U32, v.toNat < identityTop → translate s.loader.mem kernelCr3 v = some v.toNat) ∧
  match c with
  | .map virt _ _ => Enough (vmmMapPageAsks virt s.phys) s.loader.pmm ∧
      (s.tasks = [] ∨ SharedEntry s (pdIndex virt))
  | .unmap _ => True
  | .space _ => ∀ v ∈ s.mapped, v < 4096
  | .load file => Enough (elfAsks b file s.loader) s.loader.pmm

/-- The machine after `init_paging` and `pmm_init`. -/
def freshSpaces (m : Mem) (memSize : U32) (pool : Fin 8 → Task) : Spaces :=
  ⟨freshLoader m memSize pool, [], ∅⟩

/-! ## Directories and tables apart -/

structure SpaceInv (s : Spaces) : Prop where
  pmm : PmmInv s.loader.pmm
  reserved : Reserved s.loader.pmm
  dirs : ∀ c ∈ s.dirs, (c.toNat / 4096 = 512 ∨ 0x205 ≤ c.toNat / 4096) ∧
    c.toNat / 4096 ∉ freeSet s.loader.pmm
  tables : ∀ c ∈ s.dirs, ∀ e t, e < 1024 → tableFrame s.loader.mem c e = some t →
    512 < t ∧ t ∉ freeSet s.loader.pmm ∧ ∀ c' ∈ s.dirs, t ≠ c'.toNat / 4096
  shared : ∀ v ∈ s.mapped, v / 1024 < 1024 ∧ SharedEntry s (v / 1024)

/-- **One table for each mapped page** is all it takes. -/
theorem SpaceInv.seenAlike {s : Spaces} (h : SpaceInv s) : SeenAlike s := by
  intro v hv c hc
  obtain ⟨_, t, ht⟩ := h.shared _ hv
  have hcv := ht c (List.mem_cons_of_mem _ hc)
  have hkv := ht kernelCr3 (List.mem_cons_self ..)
  rw [translate_eq_pageFrame, translate_eq_pageFrame]
  unfold pageFrame
  rw [hcv, hkv]

/-- A call that leaves the directories alone. -/
theorem SpaceInv.keep {s s' : Spaces} (h : SpaceInv s) (htasks : s'.tasks = s.tasks)
    (hpmm : PmmInv s'.loader.pmm) (hsub : freeSet s'.loader.pmm ⊆ freeSet s.loader.pmm)
    (hmem : ∀ c ∈ s.dirs, ∀ x, x / 4096 = c.toNat / 4096 → s'.loader.mem x = s.loader.mem x)
    (hmapped : ∀ v ∈ s'.mapped, v ∈ s.mapped ∨ v / 1024 < 1024 ∧ SharedEntry s (v / 1024)) :
    SpaceInv s' := by
  have hdirs : s'.dirs = s.dirs := congrArg (kernelCr3 :: ·) htasks
  have hframe : ∀ c ∈ s.dirs, ∀ e, e < 1024 →
      tableFrame s'.loader.mem c e = tableFrame s.loader.mem c e :=
    fun c hc e he => tableFrame_congr he (hmem c hc)
  refine ⟨hpmm, fun k hk => h.reserved k (hsub hk), ?_, ?_, fun v hv => ?_⟩
  · rw [hdirs]
    exact fun c hc => ⟨(h.dirs c hc).1, fun hm => (h.dirs c hc).2 (hsub hm)⟩
  · rw [hdirs]
    intro c hc e t he ht
    rw [hframe c hc e he] at ht
    obtain ⟨h1, h2, h3⟩ := h.tables c hc e t he ht
    exact ⟨h1, fun hm => h2 (hsub hm), h3⟩
  · have hold : v / 1024 < 1024 ∧ SharedEntry s (v / 1024) := by
      rcases hmapped v hv with hv' | hv'
      · exact h.shared v hv'
      · exact hv'
    obtain ⟨he, t, ht⟩ := hold
    refine ⟨he, t, ?_⟩
    rw [hdirs]
    intro c hc
    rw [hframe c hc _ he]
    exact ht c hc

/-- A task joins with a directory of its own. -/
theorem SpaceInv.join {s s' : Spaces} {c0 : U32} (h : SpaceInv s)
    (htasks : s'.tasks = s.tasks ++ [c0]) (hmapped : s'.mapped = s.mapped)
    (hpmm : PmmInv s'.loader.pmm) (hsub : freeSet s'.loader.pmm ⊆ freeSet s.loader.pmm)
    (hmem : ∀ c ∈ s.dirs, ∀ x, x / 4096 = c.toNat / 4096 → s'.loader.mem x = s.loader.mem x)
    (hdir : 0x205 ≤ c0.toNat / 4096 ∧ c0.toNat / 4096 ∉ freeSet s'.loader.pmm)
    (hapart : ∀ c ∈ s.dirs, ∀ e t, e < 1024 → tableFrame s.loader.mem c e = some t →
      t ≠ c0.toNat / 4096)
    (htables : ∀ e t, e < 1024 → tableFrame s'.loader.mem c0 e = some t →
      512 < t ∧ t ∉ freeSet s'.loader.pmm ∧ t ≠ c0.toNat / 4096 ∧
      ∀ c ∈ s.dirs, t ≠ c.toNat / 4096)
    (hshared : ∀ v ∈ s.mapped, ∀ t, tableFrame s.loader.mem kernelCr3 (v / 1024) = some t →
      tableFrame s'.loader.mem c0 (v / 1024) = some t) : SpaceInv s' := by
  have hdirs : ∀ c, c ∈ s'.dirs → c ∈ s.dirs ∨ c = c0 := by
    intro c hc
    unfold Spaces.dirs at hc ⊢
    rw [htasks, ← List.cons_append, List.mem_append, List.mem_singleton] at hc
    exact hc
  have hframe : ∀ c ∈ s.dirs, ∀ e, e < 1024 →
      tableFrame s'.loader.mem c e = tableFrame s.loader.mem c e :=
    fun c hc e he => tableFrame_congr he (hmem c hc)
  refine ⟨hpmm, fun k hk => h.reserved k (hsub hk), fun c hc => ?_, fun c hc e t he ht => ?_,
    fun v hv => ?_⟩
  · rcases hdirs c hc with hc | rfl
    · exact ⟨(h.dirs c hc).1, fun hm => (h.dirs c hc).2 (hsub hm)⟩
    · exact ⟨.inr hdir.1, hdir.2⟩
  · rcases hdirs c hc with hc | rfl
    · rw [hframe c hc e he] at ht
      obtain ⟨h1, h2, h3⟩ := h.tables c hc e t he ht
      refine ⟨h1, fun hm => h2 (hsub hm), fun c' hc' => ?_⟩
      rcases hdirs c' hc' with hc' | rfl
      · exact h3 c' hc'
      · exact hapart c hc e t he ht
    · obtain ⟨h1, h2, h3, h4⟩ := htables e t he ht
      refine ⟨h1, h2, fun c' hc' => ?_⟩
      rcases hdirs c' hc' with hc' | rfl
      · exact h4 c' hc'
      · exact h3
  · rw [hmapped] at hv
    obtain ⟨he, t, ht⟩ := h.shared v hv
    refine ⟨he, t, fun c hc => ?_⟩
    rcases hdirs c hc with hc | rfl
    · rw [hframe c hc _ he]
      exact ht c hc
    · exact hshared v hv t (ht kernelCr3 (List.mem_cons_self ..))

/-! ## The calls -/

/-- `vmm_map_page` writes the table of its entry, or makes one first. -/
theorem vmmMapPage_cases {virt phys flags : U32} {s s' : Phys}
    (h : vmmMapPage virt phys flags s = some s') :
    (∃ t, entryFrame (word s.mem kernelPdAddr (pdIndex virt)) = some t ∧ s'.pmm = s.pmm ∧
      ∀ x, x / 4096 ≠ t → s'.mem x = s.mem x) ∨
    (entryFrame (word s.mem kernelPdAddr (pdIndex virt)) = none ∧
      vmmMapPageAsks virt s = [(pmmAllocPage s.pmm).1] ∧ s'.pmm = (pmmAllocPage s.pmm).2 ∧
      ∀ k, (pmmAllocPage s.pmm).1.toNat = k * 4096 → k ≠ 512 →
        (∀ x, x / 4096 ≠ k → x / 4096 ≠ 512 → s'.mem x = s.mem x) ∧
        ∀ e, e < 1024 → entryFrame (word s'.mem kernelPdAddr e) =
          if e = pdIndex virt then some k else entryFrame (word s.mem kernelPdAddr e)) := by
  have hlt := pdIndex_lt virt
  simp only [vmmMapPage, Option.bind_eq_bind, Option.bind_eq_some_iff] at h
  obtain ⟨s1, hensure, mem, hst, h⟩ := h
  cases h
  simp only [vmmEnsureTable] at hensure
  split at hensure
  next habs =>
    right
    split at hensure
    next =>
      cases hensure
      have hnone : entryFrame (word s.mem kernelPdAddr (pdIndex virt)) = none := by
        refine if_neg ?_
        simpa using habs
      refine ⟨hnone, if_pos habs, rfl, fun k haddr hk => ?_⟩
      have hdir : kernelPdAddr = 512 * 4096 := rfl
      have hw : entryFrame ((pmmAllocPage s.pmm).1 ||| pagePresent ||| pageWrite) = some k := by
        rw [BitVec.or_assoc]
        exact entryFrame_or haddr (Nat.le_of_ble_eq_true rfl) rfl
      have hzero : ∀ x, x / 4096 ≠ k →
          forRange 0 1024 (fun i m => setWord m (k * 4096) i 0#32) s.mem x = s.mem x :=
        (clearTable_spec s.mem k).1
      simp only [haddr] at hst
      generalize forRange 0 1024 (fun i m => setWord m (k * 4096) i 0#32) s.mem = m1 at hst hzero
      rw [word_setWord_self] at hst
      -- the table just entered gets the new entry
      rw [kstore32_some (entryFrame_some hw).2 (ptIndex_lt virt) hst]
      dsimp only
      constructor
      · intro x hxk hx
        rw [setWord_otherPage _ (ptIndex_lt virt) hxk, hdir, setWord_otherPage _ hlt hx]
        exact hzero x hxk
      · intro e he
        rw [hdir, word_page_congr he fun x hx => setWord_otherPage _ (ptIndex_lt virt) (by omega)]
        split
        next heq =>
          rw [heq, word_setWord_self]
          exact hw
        next hne =>
          rw [word_setWord_ne _ hne]
          exact congrArg entryFrame (word_page_congr he fun x hx => hzero x (by omega))
    next => cases hensure
  next hpres =>
    left
    cases hensure
    have ht : entryFrame (word s.mem kernelPdAddr (pdIndex virt)) =
        some (frameAddr (word s.mem kernelPdAddr (pdIndex virt)) / 4096) := by
      refine if_pos ?_
      simpa using hpres
    rw [kstore32_some (entryFrame_some ht).2 (ptIndex_lt virt) hst]
    exact ⟨_, ht, rfl, fun x hx => setWord_otherPage _ (ptIndex_lt virt) hx⟩

theorem kernel_entry (m : Mem) (e : Nat) :
    entryFrame (word m kernelPdAddr e) = tableFrame m kernelCr3 e := by
  have hfr : frameAddr kernelCr3 = kernelPdAddr := by
    rw [frameAddr_eq]
    rfl
  unfold tableFrame
  rw [hfr]

/-- What a store to a table leaves alone. -/
theorem SpaceInv.table_other {s : Spaces} (h : SpaceInv s) {e t : Nat} (he : e < 1024)
    (ht : tableFrame s.loader.mem kernelCr3 e = some t) {m : Mem}
    (hm : ∀ x, x / 4096 ≠ t → m x = s.loader.mem x) :
    ∀ c ∈ s.dirs, ∀ x, x / 4096 = c.toNat / 4096 → m x = s.loader.mem x := by
  intro c hc x hx
  have hne := (h.tables kernelCr3 (List.mem_cons_self ..) e t he ht).2.2 c hc
  exact hm x (by omega)

/-- Before there are tasks the kernel's directory is the only one. -/
theorem Spaces.dirs_nil {s : Spaces} (h : s.tasks = []) {c : U32} (hc : c ∈ s.dirs) :
    c = kernelCr3 := by
  unfold Spaces.dirs at hc
  rw [h] at hc
  exact List.mem_singleton.mp hc

/-- A fresh table for entry `e` of the kernel's directory, before there are tasks. -/
theorem SpaceInv.newTable {s : Spaces} (h : SpaceInv s) (hnil : s.tasks = []) {p : Phys} {e k : Nat}
    (hk : k ∈ freeSet s.loader.pmm) (hset : freeSet p.pmm = (freeSet s.loader.pmm).erase k)
    (hinv : PmmInv p.pmm) (he : e < 1024)
    (htable : ∀ e', e' < 1024 → tableFrame p.mem kernelCr3 e' =
      if e' = e then some k else tableFrame s.loader.mem kernelCr3 e') {mapped : Finset Nat}
    (hmapped : ∀ v ∈ mapped, v ∈ s.mapped ∨ v / 1024 = e) :
    SpaceInv { s.withPhys p with mapped := mapped } := by
  have hkernel : kernelCr3 ∈ s.dirs := List.mem_cons_self ..
  have hdirs : ∀ c, c ∈ Spaces.dirs { s.withPhys p with mapped := mapped } → c = kernelCr3 :=
    fun c hc => Spaces.dirs_nil hnil hc
  have hk1 := h.reserved k hk
  have hsub : freeSet p.pmm ⊆ freeSet s.loader.pmm := by
    rw [hset]
    exact Finset.erase_subset k _
  have hkfree : k ∉ freeSet p.pmm := by
    rw [hset]
    exact Finset.notMem_erase k _
  refine ⟨hinv, fun j hj => h.reserved j (hsub hj), fun c hc => ?_, fun c hc e' t he' ht => ?_,
    fun v hv => ?_⟩
  · obtain ⟨h1, h2⟩ := h.dirs c hc
    exact ⟨h1, fun hm => h2 (hsub hm)⟩
  · rw [hdirs c hc] at ht
    have ht' : tableFrame p.mem kernelCr3 e' = some t := ht
    rw [htable e' he'] at ht'
    split at ht'
    next =>
      cases ht'
      refine ⟨by omega, hkfree, fun c' hc' => ?_⟩
      rw [hdirs c' hc']
      show k ≠ 512
      omega
    next =>
      obtain ⟨h1, h2, h3⟩ := h.tables kernelCr3 hkernel e' t he' ht'
      exact ⟨h1, fun hm => h2 (hsub hm), h3⟩
  · have hentry : ∃ t, tableFrame p.mem kernelCr3 (v / 1024) = some t ∧ v / 1024 < 1024 := by
      rcases hmapped v hv with hv' | rfl
      · obtain ⟨he', t, ht⟩ := h.shared v hv'
        rw [htable _ he']
        split
        next => exact ⟨k, rfl, he'⟩
        next => exact ⟨t, ht kernelCr3 hkernel, he'⟩
      · rw [htable _ he, if_pos rfl]
        exact ⟨k, rfl, he⟩
    obtain ⟨t, ht, he'⟩ := hentry
    refine ⟨he', t, fun c hc => ?_⟩
    rw [hdirs c hc]
    exact ht

/-- **`vmm_map_page`** on an entry that all directories share, or before there are tasks. -/
theorem SpaceInv.map {s : Spaces} (h : SpaceInv s) {virt phys flags : U32} {p : Phys}
    (hrun : vmmMapPage virt phys flags s.phys = some p)
    (henough : Enough (vmmMapPageAsks virt s.phys) s.loader.pmm)
    (hshared : s.tasks = [] ∨ SharedEntry s (pdIndex virt)) {mapped : Finset Nat}
    (hmapped : ∀ v ∈ mapped, v ∈ s.mapped ∨ v = virt.toNat / 4096) :
    SpaceInv { s.withPhys p with mapped := mapped } := by
  have hlt := pdIndex_lt virt
  have hpage : virt.toNat / 4096 / 1024 = pdIndex virt := by
    rw [pdIndex_eq]
    omega
  rcases vmmMapPage_cases hrun with ⟨t, ht, hpmm, hmem⟩ | ⟨hnone, hasks, hpmm, hnew⟩
  · have ht' : tableFrame s.loader.mem kernelCr3 (pdIndex virt) = some t :=
      (kernel_entry _ _).symm.trans ht
    have hentry : SharedEntry s (pdIndex virt) := by
      rcases hshared with hnil | hsh
      · exact ⟨t, fun c hc => by rw [Spaces.dirs_nil hnil hc]; exact ht'⟩
      · exact hsh
    refine h.keep rfl ?_ ?_ (h.table_other hlt ht' hmem) fun v hv => ?_
    · show PmmInv p.pmm
      rw [hpmm]
      exact h.pmm
    · show freeSet p.pmm ⊆ freeSet s.loader.pmm
      rw [hpmm]
      exact Finset.Subset.refl _
    · rcases hmapped v hv with hv' | rfl
      · exact .inl hv'
      · rw [hpage]
        exact .inr ⟨hlt, hentry⟩
  · -- a fresh table: then no task is there yet
    rw [kernel_entry] at hnone
    have hnil : s.tasks = [] := by
      rcases hshared with hnil | ⟨t, ht⟩
      · exact hnil
      · have ht' := ht kernelCr3 (List.mem_cons_self ..)
        exact absurd (hnone.symm.trans ht') nofun
    have hne : (pmmAllocPage s.loader.pmm).1 ≠ 0#32 := by
      have hasks' : Asks (fun _ : Unit => s.loader.pmm) [(pmmAllocPage s.loader.pmm).1]
          s.loader.pmm none := .one nofun
      have henough' : Enough [(pmmAllocPage s.loader.pmm).1] s.loader.pmm := hasks ▸ henough
      intro h0
      exact (hasks'.enough_iff h.pmm).mpr henough' (List.mem_singleton.mpr h0.symm)
    rcases pmmAllocPage_cases h.pmm with ⟨_, heq⟩ | ⟨k, hk, _, haddr, hset, _, hinv⟩
    · rw [heq] at hne
      exact absurd rfl hne
    · have hk1 := h.reserved k hk
      have hpmm' : p.pmm = (pmmAllocPage s.loader.pmm).2 := hpmm
      refine h.newTable hnil hk (by rw [hpmm']; exact hset) (by rw [hpmm']; exact hinv) hlt
        (fun e he => ?_) fun v hv => ?_
      · rw [← kernel_entry, ← kernel_entry]
        exact (hnew k haddr (by omega)).2 e he
      · rcases hmapped v hv with hv' | rfl
        · exact .inl hv'
        · exact .inr hpage

theorem SpaceInv.unmap {s : Spaces} (h : SpaceInv s) {virt : U32} {p : Phys}
    (hrun : vmmUnmapPage virt s.phys = some p) :
    SpaceInv { s.withPhys p with mapped := s.mapped.erase (virt.toNat / 4096) } := by
  have hlt := pdIndex_lt virt
  have hsub : ∀ v ∈ s.mapped.erase (virt.toNat / 4096), v ∈ s.mapped ∨
      v / 1024 < 1024 ∧ SharedEntry s (v / 1024) := fun v hv => .inl (Finset.mem_of_mem_erase hv)
  simp only [vmmUnmapPage] at hrun
  split at hrun
  next =>
    cases hrun
    exact h.keep rfl h.pmm (Finset.Subset.refl _) (fun _ _ _ _ => rfl) hsub
  next hpres =>
    obtain ⟨mem, hst, hrun⟩ := Option.map_eq_some_iff.mp hrun
    cases hrun
    have ht : entryFrame (word s.phys.mem kernelPdAddr (pdIndex virt)) =
        some (frameAddr (word s.phys.mem kernelPdAddr (pdIndex virt)) / 4096) := by
      refine if_pos ?_
      simpa using hpres
    have hmem := kstore32_some (entryFrame_some ht).2 (ptIndex_lt virt) hst
    refine h.keep rfl h.pmm (Finset.Subset.refl _)
      (h.table_other hlt ((kernel_entry _ _).symm.trans ht) fun x hx => ?_) hsub
    show mem x = _
    rw [hmem]
    exact setWord_otherPage _ (ptIndex_lt virt) hx

/-- **`elf_exec`** that gets its pages. -/
theorem SpaceInv.load {b : ElfBuf} {s : Spaces} (h : SpaceInv s) {file : Option FileImage}
    {l : Loader} (hrun : elfExec b file s.loader = some l)
    (henough : Enough (elfAsks b file s.loader) s.loader.pmm) :
    (l.sched.ntasks = s.loader.sched.ntasks → SpaceInv { s with loader := l }) ∧
    ∀ i : Fin 8, i.val = s.loader.sched.ntasks →
      l.sched.ntasks = s.loader.sched.ntasks + 1 →
      SpaceInv { s with loader := l, tasks := s.tasks ++ [(l.sched.pool i).cr3] } := by
  have hkernel : kernelCr3 ∈ s.dirs := List.mem_cons_self ..
  have hapart : ∀ t, KernelTable s.loader.mem t → t ∉ freeSet s.loader.pmm := by
    rintro t ⟨e, he, ht⟩
    exact (h.tables kernelCr3 hkernel e t he ht).2.1
  have hlow : ∀ c ∈ s.dirs, 512 ≤ c.toNat / 4096 := by
    intro c hc
    rcases (h.dirs c hc).1 with heq | hge
    · omega
    · omega
  rcases elfExec_clone h.pmm h.reserved hapart henough hrun with
    ⟨hn, hpmm, hmem⟩ | ⟨hn, hpmm, d, hc, hcr3⟩
  · refine ⟨fun _ => ?_, fun i _ hn' => by omega⟩
    refine h.keep rfl (hpmm ▸ h.pmm) (hpmm ▸ Finset.Subset.refl _) (fun c hc x hx => ?_)
      fun v hv => .inl hv
    exact hmem x (by have := hlow c hc; omega)
  · refine ⟨fun hn' => by omega, fun i hi _ => ?_⟩
    have hd := hcr3 i hi
    generalize (l.sched.pool i).cr3 = c0 at hd
    have hpg : c0.toNat / 4096 = d := by omega
    have hfr : frameAddr c0 = d * 4096 := by
      rw [frameAddr_eq]
      omega
    have hd1 := h.reserved d hc.dir.1
    have hframe : ∀ e, tableFrame l.mem c0 e = entryFrame (word l.mem (d * 4096) e) := by
      intro e
      unfold tableFrame
      rw [hfr]
    refine h.join rfl rfl hpmm hc.free (fun c hcd x hx => ?_) ⟨by omega, hpg ▸ hc.dir.2⟩
      (fun c hcd e t he ht heq => ?_) (fun e t he ht => ?_) fun v hv t ht => ?_
    · -- a directory that was there is no table of the kernel's
      refine hc.kept x (by have := hlow c hcd; omega) (by rw [hx]; exact (h.dirs c hcd).2) ?_
      rintro ⟨e, he, ht⟩
      exact (h.tables kernelCr3 hkernel e _ he ht).2.2 c hcd hx
    · have hfree := (h.tables c hcd e t he ht).2.1
      rw [heq, hpg] at hfree
      exact hfree hc.dir.1
    · have ht' : entryFrame (word l.mem (d * 4096) e) = some t := (hframe e).symm.trans ht
      rw [hpg]
      cases hk : tableFrame s.loader.mem kernelCr3 e with
      | some t' =>
        rw [hc.copied e t' he hk] at ht'
        cases ht'
        obtain ⟨h1, h2, h3⟩ := h.tables kernelCr3 hkernel e t he hk
        exact ⟨h1, fun hm => h2 (hc.free hm), fun heq => h2 (heq ▸ hc.dir.1), h3⟩
      | none =>
        obtain ⟨h1, h2, h3⟩ := hc.own e t he hk ht'
        have := h.reserved t h1
        exact ⟨by omega, h2, h3, fun c hcd heq => (h.dirs c hcd).2 (heq ▸ h1)⟩
    · exact (hframe _).trans (hc.copied _ t (h.shared v hv).1 ht)

/-- The directory of `create_task_space` leads to the kernel's tables and to its own. -/
theorem createTaskSpace_frames {m m' : Mem}
    {codePhys stackPhys codeVirt stackVirt pdAddr ptAddr : U32} {d l : Nat}
    (hpd : pdAddr.toNat = d * 4096) (hpt : ptAddr.toNat = l * 4096) (hne : d ≠ l)
    (hkd : d ≠ 512) (hkp : l ≠ 512) (hcode : pdIndex codeVirt = 256)
    (hrun : createTaskSpace m codePhys stackPhys codeVirt stackVirt pdAddr ptAddr = some m') :
    ∀ e, e < 1024 → tableFrame m' pdAddr e =
      if 768 ≤ e ∧ e < 772 then some (sharedTable (e - 768))
      else if e < 4 then tableFrame m kernelCr3 e
      else if e = 256 then some l
      else none := by
  intro e he
  have hfr : frameAddr pdAddr = d * 4096 := by
    rw [frameAddr_eq]
    omega
  unfold tableFrame
  rw [hfr, (createTaskSpace_spec hpd hpt hne hkd hkp hrun).2 e he, hcode]
  split
  next hw => exact entryFrame_window (by omega)
  next =>
    split
    next => exact kernel_entry m e
    next =>
      split
      next => exact entryFrame_entry (toNat_userEntry hpt)
      next => exact entryFrame_zero rfl

/-- **`create_task_space`** when nothing is mapped above 16 MB. -/
theorem SpaceInv.space {s : Spaces} (h : SpaceInv s) {src : Nat} {mem : Mem}
    {codePhys stackPhys codeVirt stackVirt pdAddr ptAddr : U32} {code pd pt : Nat}
    (hfresh : FreshSpace s code pd pt) (hcode : codePhys.toNat = code * 4096)
    (hpd : pdAddr.toNat = pd * 4096) (hpt : ptAddr.toNat = pt * 4096)
    (hvirt : pdIndex codeVirt = 256)
    (hrun : createTaskSpace (copyTask src codePhys s.loader.mem) codePhys stackPhys codeVirt
      stackVirt pdAddr ptAddr = some mem) (hlow : ∀ v ∈ s.mapped, v < 4096) :
    SpaceInv { s with loader := { s.loader with mem := mem }, tasks := s.tasks ++ [pdAddr] } := by
  have hkernel : kernelCr3 ∈ s.dirs := List.mem_cons_self ..
  have hcode' := hfresh.above code (by simp)
  have hpd' := hfresh.above pd (by simp)
  have hpt' := hfresh.above pt (by simp)
  have hne := hfresh.tables_ne
  have hframes := createTaskSpace_frames hpd hpt hne (by omega) (by omega) hvirt hrun
  have hmem : ∀ x, x / 4096 ≠ code → x / 4096 ≠ pd → x / 4096 ≠ pt →
      mem x = s.loader.mem x := fun x =>
    taskSpace_other hcode hpd hpt hne (by omega) (by omega) hrun
  -- the fresh pages are no directory and no table
  have hapart : ∀ k ∈ [code, pd, pt], ∀ c ∈ s.dirs, k ≠ c.toNat / 4096 ∧
      ∀ e t, e < 1024 → tableFrame s.loader.mem c e = some t → k ≠ t := by
    intro k hk c hc
    have hin := hfresh.unused k hk c hc
    have hdiv : k * 4096 / 4096 = k := Nat.mul_div_cancel k (by omega)
    refine ⟨hdiv ▸ inTables_dir hin, fun e t he ht => ?_⟩
    exact hdiv ▸ inTables_table hin he ht
  have hpg : pdAddr.toNat / 4096 = pd := by omega
  -- the kernel's directory, when the code is in place
  have hcopied : ∀ e, e < 1024 → tableFrame (copyTask src codePhys s.loader.mem) kernelCr3 e =
      tableFrame s.loader.mem kernelCr3 e := by
    intro e he
    refine tableFrame_congr he fun x hx => copyTask_other hcode ?_
    have hk : kernelCr3.toNat / 4096 = 512 := rfl
    omega
  refine h.join rfl rfl h.pmm (Finset.Subset.refl _) (fun c hc x hx => ?_)
    ⟨by omega, hpg ▸ hfresh.notFree pd (by simp)⟩ (fun c hc e t he ht heq => ?_)
    (fun e t he ht => ?_) fun v hv t ht => ?_
  · refine hmem x ?_ ?_ ?_
    · rw [hx]
      exact ((hapart code (by simp) c hc).1).symm
    · rw [hx]
      exact ((hapart pd (by simp) c hc).1).symm
    · rw [hx]
      exact ((hapart pt (by simp) c hc).1).symm
  · rw [hpg] at heq
    exact (hapart pd (by simp) c hc).2 e t he ht heq.symm
  · have ht' : tableFrame mem pdAddr e = some t := ht
    rw [hframes e he] at ht'
    rw [hpg]
    split at ht'
    next hw =>
      have hs : sharedTable (e - 768) = t := Option.some.inj ht'
      unfold sharedTable kernelPtAddr at hs
      refine ⟨by omega, fun hm => ?_, by omega, fun c hc => ?_⟩
      · have := h.reserved t hm
        omega
      · have := (h.dirs c hc).1
        omega
    next =>
      split at ht'
      next =>
        rw [hcopied e he] at ht'
        obtain ⟨h1, h2, h3⟩ := h.tables kernelCr3 hkernel e t he ht'
        exact ⟨h1, h2, ((hapart pd (by simp) kernelCr3 hkernel).2 e t he ht').symm, h3⟩
      next =>
        split at ht'
        next =>
          cases ht'
          exact ⟨by omega, hfresh.notFree pt (by simp), hne.symm,
            fun c hc => (hapart pt (by simp) c hc).1⟩
        next => cases ht'
  · have hv4 := hlow v hv
    show tableFrame mem pdAddr (v / 1024) = some t
    rw [hframes _ (by omega), if_neg (by omega), if_pos (by omega), hcopied _ (by omega)]
    exact ht

/-! ## Task A -/

/-- The fixed pages of task A, before there are tasks. -/
theorem freshSpace_taskA {s : Spaces} (hnil : s.tasks = []) (hres : Reserved s.loader.pmm)
    (ht : ∀ e t, e < 1024 → tableFrame s.loader.mem kernelCr3 e = some t →
      t < 0x205 ∨ 1024 ≤ t) : FreshSpace s 0x300 0x205 0x206 := by
  have hk : ∀ k ∈ [0x300, 0x205, 0x206], 0x205 ≤ k ∧ k < 1024 := by
    intro k hk
    simp only [List.mem_cons, List.not_mem_nil, or_false] at hk
    omega
  refine ⟨by simp, fun k hm => (hk k hm).1, fun k hm hf => ?_, fun k hm c hc => ?_⟩
  · have := hres k hf
    have := hk k hm
    omega
  · rw [Spaces.dirs_nil hnil hc, ← Bool.not_eq_true, inTables_iff, Nat.mul_div_cancel k (by omega)]
    have hb := hk k hm
    rintro (heq | ⟨e, he, hte⟩)
    · have hkc : kernelCr3.toNat / 4096 = 512 := rfl
      omega
    · have := ht e k he hte
      omega

theorem space_taskA {b : ElfBuf} {s : Spaces} (h : FreshSpace s 0x300 0x205 0x206) :
    ∃ s', SpaceStep b s (.space taskAPdAddr) s' ∧ s'.tasks = s.tasks ++ [taskAPdAddr] ∧
      s'.mapped = s.mapped ∧ (∀ x, x / 4096 < 0x205 → s'.loader.mem x = s.loader.mem x) ∧
      ∀ e, e < 4 →
        tableFrame s'.loader.mem taskAPdAddr e = tableFrame s.loader.mem kernelCr3 e := by
  have hpd : taskAPdAddr.toNat + 4096 ≤ identityTop ∧ taskAPtAddr.toNat + 4096 ≤ identityTop :=
    ⟨Nat.le_of_ble_eq_true rfl, Nat.le_of_ble_eq_true rfl⟩
  obtain ⟨mem, hrun⟩ := @createTaskSpace_some (copyTask 0x100000 taskACodePhys s.loader.mem)
    taskACodePhys taskAStackPhys taskCodeVirt taskStackVirt taskAPdAddr taskAPtAddr hpd
  refine ⟨_, .space h rfl rfl rfl rfl hrun, rfl, rfl, fun x hx => ?_, fun e he => ?_⟩
  · exact taskSpace_other (c := 0x300) (d := 0x205) (l := 0x206) rfl rfl rfl (by omega) (by omega)
      (by omega) hrun (by omega) (by omega) (by omega)
  · have hframe := createTaskSpace_frames (d := 0x205) (l := 0x206) rfl rfl (by omega) (by omega)
      (by omega) rfl hrun e (by omega)
    rw [if_neg (by omega), if_pos he] at hframe
    refine hframe.trans (tableFrame_congr (by omega) fun x hx => ?_)
    have hkc : kernelCr3.toNat / 4096 = 512 := rfl
    exact copyTask_other (k := 0x300) rfl (by omega)

/-! ## Runs -/

/-- The kernel's directory as `init_paging` leaves it. -/
theorem kernelDir_tables {m : Mem} (hk : KernelDir m) {e t : Nat} (he : e < 1024)
    (ht : tableFrame m kernelCr3 e = some t) : 512 < t ∧ t < 0x205 := by
  by_cases h4 : e < 4
  · rw [kernel_tableFrame hk h4] at ht
    have hs : sharedTable e = t := Option.some.inj ht
    unfold sharedTable kernelPtAddr at hs
    omega
  · have hword := hk e he
    rw [if_neg h4] at hword
    rw [← kernel_entry, entryFrame_zero hword] at ht
    cases ht

theorem freshSpaces_inv (m : Mem) (memSize : U32) (pool : Fin 8 → Task) :
    SpaceInv (freshSpaces m memSize pool) := by
  have hready := freshLoader_ready m memSize pool
  have hlow : ∀ k, k < 1024 → k ∉ freeSet (freshLoader m memSize pool).pmm := by
    intro k hk hm
    have := hready.reserved k hm
    omega
  have hdirs : ∀ c, c ∈ (freshSpaces m memSize pool).dirs → c.toNat / 4096 = 512 := by
    intro c hc
    rw [List.mem_singleton.mp hc]
    rfl
  refine ⟨hready.pmm, hready.reserved, fun c hc => ⟨.inl (hdirs c hc), ?_⟩,
    fun c hc e t he ht => ?_, fun v hv => absurd hv (Finset.notMem_empty v)⟩
  · rw [hdirs c hc]
    exact hlow 512 (by omega)
  · rw [List.mem_singleton.mp hc] at ht
    obtain ⟨h1, h2⟩ := kernelDir_tables hready.kernel he ht
    refine ⟨h1, hlow t (by omega), fun c' hc' => ?_⟩
    rw [hdirs c' hc']
    omega

/-- A run of calls each of which is allowed. -/
def AllowedRun (b : ElfBuf) (s0 : Spaces) : List SpaceCall → Spaces → Prop :=
  Run (fun s c s' => Allowed b s c ∧ SpaceStep b s c s') s0

/-- **The kernel is seen alike** in every state of a run of allowed calls. A file with a
page below 16 MB is not meant: the TLB decides where the loader's stores go once it is mapped. -/
theorem kernel_seen_alike {b : ElfBuf} {m : Mem} {memSize : U32} {pool : Fin 8 → Task}
    {h : List SpaceCall} {s : Spaces} (hrun : AllowedRun b (freshSpaces m memSize pool) h s) :
    SeenAlike s := by
  refine SpaceInv.seenAlike (Run.ind SpaceInv (freshSpaces_inv m memSize pool) ?_ hrun)
  rintro s c s' hinv ⟨⟨_, hallowed⟩, hstep⟩
  cases hstep with
  | map _ hcall =>
    refine hinv.map hcall hallowed.1 hallowed.2 fun v hv => ?_
    split at hv
    next =>
      rcases Finset.mem_insert.mp hv with rfl | hv
      · exact .inr rfl
      · exact .inl hv
    next => exact .inl (Finset.mem_of_mem_erase hv)
  | unmap _ hcall => exact hinv.unmap hcall
  | space hfresh hcode hpd hpt hvirt hcall =>
    exact hinv.space hfresh hcode hpd hpt hvirt hcall hallowed
  | refused hcall hn => exact (hinv.load hcall hallowed).1 hn
  | load hcall hi hn => exact (hinv.load hcall hallowed).2 _ hi hn

/-- Task A created, then a page of the identity map mapped once more. -/
theorem allowedRun_taskA {b : ElfBuf} (s0 : Spaces) (hnil : s0.tasks = [])
    (hmapped : s0.mapped = ∅) (hres : Reserved s0.loader.pmm) (hk : KernelDir s0.loader.mem)
    (ht : KernelTables s0.loader.mem) :
    ∃ s, AllowedRun b s0 [.map 0x500000#32 0x500000#32 3#32, .space taskAPdAddr] s ∧
      0x500 ∈ s.mapped ∧ taskAPdAddr ∈ s.tasks := by
  have hident : ∀ {m : Mem}, KernelDir m → KernelTables m → ∀ v : U32, v.toNat < identityTop →
      translate m kernelCr3 v = some v.toNat := by
    intro m hk ht v hv
    unfold identityTop at hv
    rw [translate_eq_pageFrame, kernel_pageFrame hk ht (by omega)]
    show some (v.toNat / 4096 * 4096 + v.toNat % 4096) = some v.toNat
    rw [Nat.div_add_mod']
  have hfresh : FreshSpace s0 0x300 0x205 0x206 := freshSpace_taskA hnil hres fun e t he hte =>
    .inl (kernelDir_tables hk he hte).2
  obtain ⟨s1, hstep1, htasks, _, hlow, hentries⟩ := space_taskA (b := b) hfresh
  have hallowed1 : Allowed b s0 (.space taskAPdAddr) := by
    refine ⟨hident hk ht, fun v hv => ?_⟩
    rw [hmapped] at hv
    exact absurd hv (Finset.notMem_empty v)
  have hk1 : KernelDir s1.loader.mem := kernelDir_congr hk fun x hx => hlow x (by omega)
  have ht1 : KernelTables s1.loader.mem := kernelTables_congr ht fun x _ hx => hlow x hx
  have hidx : pdIndex 0x500000#32 = 1 := rfl
  have hentry : tableFrame s1.loader.mem kernelCr3 1 = some (sharedTable 1) :=
    kernel_tableFrame hk1 (by omega)
  have hword : entryFrame (word s1.phys.mem kernelPdAddr (pdIndex 0x500000#32)) =
      some (sharedTable 1) := by
    rw [hidx, kernel_entry]
    exact hentry
  have hpres : present (word s1.phys.mem kernelPdAddr (pdIndex 0x500000#32)) = true :=
    (entryFrame_some hword).1
  -- the entry has its table, so no page is asked for
  have hcall : ∃ p, vmmMapPage 0x500000#32 0x500000#32 3#32 s1.phys = some p := by
    have hst := kstore32_page (m := s1.phys.mem) (w := 0x500000#32 ||| 3#32)
      (entryFrame_some hword).2 (k := sharedTable 1) (by unfold sharedTable kernelPtAddr; omega)
      (ptIndex_lt 0x500000#32)
    unfold vmmMapPage vmmEnsureTable
    simp only [hpres, Bool.not_true, Bool.false_eq_true, if_false, Option.bind_eq_bind,
      Option.bind_some]
    exact ⟨_, by rw [hst]; rfl⟩
  obtain ⟨p, hcall⟩ := hcall
  have hallowed2 : Allowed b s1 (.map 0x500000#32 0x500000#32 3#32) := by
    refine ⟨hident hk1 ht1, ?_, .inr ⟨sharedTable 1, fun c hc => ?_⟩⟩
    · unfold vmmMapPageAsks
      rw [hpres]
      exact .inl rfl
    · rw [hidx]
      unfold Spaces.dirs at hc
      rw [htasks, hnil] at hc
      rcases List.mem_cons.mp hc with rfl | hc
      · exact hentry
      · rw [List.mem_singleton.mp hc, hentries 1 (by omega)]
        exact kernel_tableFrame hk (by omega)
  have hstep2 : SpaceStep b s1 (.map 0x500000#32 0x500000#32 3#32)
      { s1.withPhys p with mapped := insert 0x500 s1.mapped } := .map nofun hcall
  refine ⟨_, .step (.step .start ⟨hallowed1, hstep1⟩) ⟨hallowed2, hstep2⟩,
    Finset.mem_insert_self .., ?_⟩
  show taskAPdAddr ∈ s1.tasks
  rw [htasks]
  exact List.mem_append_right _ (List.mem_singleton_self _)

/-- The page as task A sees it. -/
theorem kernel_seen_alike_taskA : ∃ s, AllowedRun lowBuf
      (freshSpaces (fun _ => 0#8) 0x2000000#32 fun _ => newTask 0 0 0 0 0 0 0)
      [.map 0x500000#32 0x500000#32 3#32, .space taskAPdAddr] s ∧
    translate s.loader.mem taskAPdAddr 0x500000#32 =
      translate s.loader.mem kernelCr3 0x500000#32 := by
  have hready := freshLoader_ready (fun _ => 0#8) 0x2000000#32 fun _ => newTask 0 0 0 0 0 0 0
  have htables : KernelTables
      (freshLoader (fun _ => 0#8) 0x2000000#32 fun _ => newTask 0 0 0 0 0 0 0).mem := by
    rw [freshLoader_mem]
    exact (initPaging_spec _).2
  obtain ⟨s, hrun, hv, hc⟩ := allowedRun_taskA (b := lowBuf)
    (freshSpaces (fun _ => 0#8) 0x2000000#32 fun _ => newTask 0 0 0 0 0 0 0) rfl rfl
    hready.reserved hready.kernel htables
  exact ⟨s, hrun, kernel_seen_alike hrun 0x500000#32 hv taskAPdAddr hc⟩

/-! ## Calls that are not allowed -/

theorem translate_congr {m m' : Mem} {cr3 v : U32}
    (hdir : ∀ x, x / 4096 = cr3.toNat / 4096 → m' x = m x)
    (htab : ∀ t, tableFrame m cr3 (pdIndex v) = some t → ∀ x, x / 4096 = t → m' x = m x) :
    translate m' cr3 v = translate m cr3 v := by
  have hpage : v.toNat / 4096 / 1024 = pdIndex v := by
    rw [pdIndex_eq]
    omega
  rw [translate_eq_pageFrame, translate_eq_pageFrame]
  unfold pageFrame
  rw [hpage, tableFrame_congr (pdIndex_lt v) hdir]
  cases ht : tableFrame m cr3 (pdIndex v) with
  | none => rw [Option.bind_none, Option.bind_none]
  | some t =>
    rw [Option.bind_some, Option.bind_some,
      word_page_congr (Nat.mod_lt _ (by omega)) (htab t ht)]

/-- **A task of `create_task_space` does not see** what the kernel has mapped above 16 MB,
entry 256 and the window apart. -/
theorem space_unseen {b : ElfBuf} {s s' : Spaces} {pdAddr v : U32} {pa : Nat}
    (hstep : SpaceStep b s (.space pdAddr) s') (h4 : 4 ≤ pdIndex v) (h256 : pdIndex v ≠ 256)
    (hwin : ¬(768 ≤ pdIndex v ∧ pdIndex v < 772))
    (htr : translate s.loader.mem kernelCr3 v = some pa) :
    translate s'.loader.mem kernelCr3 v = some pa ∧
      translate s'.loader.mem pdAddr v = none := by
  have hkernel : kernelCr3 ∈ s.dirs := List.mem_cons_self ..
  cases hstep with
  | @space src mem codePhys stackPhys codeVirt stackVirt _ ptAddr code pd pt hfresh hcode hpd hpt
      hvirt hrun =>
    have hcode' := hfresh.above code (by simp)
    have hpd' := hfresh.above pd (by simp)
    have hpt' := hfresh.above pt (by simp)
    have hne := hfresh.tables_ne
    have hmem : ∀ x, (∀ k ∈ [code, pd, pt], x / 4096 ≠ k) → mem x = s.loader.mem x := fun x hx =>
      taskSpace_other hcode hpd hpt hne (by omega) (by omega) hrun (hx code (by simp))
        (hx pd (by simp)) (hx pt (by simp))
    constructor
    · rw [← htr]
      refine translate_congr (fun x hx => hmem x fun k hk heq => ?_)
        fun t ht x hx => hmem x fun k hk heq => ?_
      · have hkc : kernelCr3.toNat / 4096 = 512 := rfl
        have := hfresh.above k hk
        omega
      · have hin := inTables_table (hfresh.unused k hk kernelCr3 hkernel) (pdIndex_lt v) ht
        rw [Nat.mul_div_cancel k (by omega)] at hin
        exact hin (heq.symm.trans hx)
    · have hframe := createTaskSpace_frames hpd hpt hne (by omega) (by omega) hvirt hrun
        (pdIndex v) (pdIndex_lt v)
      rw [if_neg hwin, if_neg (by omega), if_neg h256] at hframe
      have hpage : v.toNat / 4096 / 1024 = pdIndex v := by
        rw [pdIndex_eq]
        omega
      rw [translate_eq_pageFrame]
      unfold pageFrame
      rw [hpage, hframe]
      rfl

/-- 0xD0000000 mapped, then task A created. -/
theorem unseen_of_map {b : ElfBuf} {s0 : Spaces} {p : Phys} {tab page : Nat → Option Nat}
    (hnil : s0.tasks = [])
    (hcall : vmmMapPage 0xD0000000#32 0x500000#32 3#32 s0.phys = some p)
    (hinv : VmmInv tab page p)
    (htr : translate p.mem kernelCr3 0xD0000123#32 = some 0x500123) :
    ∃ h s, Run (SpaceStep b) s0 h s ∧ ¬SeenAlike s := by
  have hidx : pdIndex 0xD0000123#32 = 832 := rfl
  have hstep1 : SpaceStep b s0 (.map 0xD0000000#32 0x500000#32 3#32)
      { s0.withPhys p with mapped := insert 0xD0000 s0.mapped } := .map nofun hcall
  have hfresh : FreshSpace { s0.withPhys p with mapped := insert 0xD0000 s0.mapped }
      0x300 0x205 0x206 := by
    refine freshSpace_taskA hnil hinv.reserved fun e t he ht => ?_
    have ht' : tab e = some t := (hinv.dir e he).symm.trans ht
    rcases Nat.lt_or_ge e 4 with h4 | h4
    · rw [hinv.low e h4] at ht'
      have hs : sharedTable e = t := Option.some.inj ht'
      unfold sharedTable kernelPtAddr at hs
      omega
    · exact .inr (hinv.own e t h4 ht').1
  obtain ⟨s2, hstep2, htasks, hmapped, _⟩ := space_taskA (b := b) hfresh
  obtain ⟨hkern, htask⟩ := space_unseen hstep2 (v := 0xD0000123#32) (by rw [hidx]; omega)
    (by rw [hidx]; omega) (by rw [hidx]; omega) htr
  refine ⟨_, s2, .step (.step .start hstep1) hstep2, fun hseen => ?_⟩
  have hv : (0xD0000123#32 : U32).toNat / 4096 ∈ s2.mapped := by
    rw [hmapped]
    exact Finset.mem_insert_self ..
  have hsame := hseen _ hv taskAPdAddr (by
    rw [htasks]
    exact List.mem_append_right _ (List.mem_singleton_self _))
  rw [htask, hkern] at hsame
  cases hsame

/-- **A page the kernel has mapped and a task does not see**: 0xD0000000, mapped before task A
is created. -/
theorem mapped_page_unseen : ¬∀ (b : ElfBuf) (m : Mem) (memSize : U32) (pool : Fin 8 → Task)
    (h : List SpaceCall) (s : Spaces), Run (SpaceStep b) (freshSpaces m memSize pool) h s →
      SeenAlike s := by
  intro hall
  obtain ⟨p, hrun, htr⟩ := vmm_finite_map_one
  obtain ⟨tab, hinv⟩ := vmm_run_inv hrun
  have hcall : vmmMapPage 0xD0000000#32 0x500000#32 3#32
      (freshSpaces (fun _ => 0#8) 0x2000000#32 fun _ => newTask 0 0 0 0 0 0 0).phys = some p := by
    unfold freshSpaces Spaces.phys
    rw [freshLoader_mem, freshLoader_pmm]
    cases hrun with
    | step h1 hstep =>
      cases h1
      cases hstep with
      | map _ _ _ _ _ hcall => exact hcall
  have hnil : (freshSpaces (fun _ => 0#8) 0x2000000#32 fun _ => newTask 0 0 0 0 0 0 0).tasks = [] :=
    rfl
  have hall' := hall lowBuf (fun _ => 0#8) 0x2000000#32 fun _ => newTask 0 0 0 0 0 0 0
  generalize freshSpaces (fun _ => 0#8) 0x2000000#32 (fun _ => newTask 0 0 0 0 0 0 0) = s0
    at hcall hnil hall'
  obtain ⟨h, s, hr, hunseen⟩ := unseen_of_map hnil hcall hinv htr
  exact hunseen (hall' h s hr)

end PepinOS
