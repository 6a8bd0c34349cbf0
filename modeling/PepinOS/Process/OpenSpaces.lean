import PepinOS.Mm.Vmm
import PepinOS.Process.Isolation
import PepinOS.Process.Machine

/-!
# What a task may use of what it has mapped

Nearly every entry the kernel writes into a directory or a page table carries the
flags `present`, `write` and `user`. The exception is the window at 3 GB that
`create_task_space` makes of the kernel's four tables, for a kernel that would run
there: its directory entries lack the user bit. So a present address is one the task
can use itself, or it lies in the window; and the window is the first 16 MB once
more, through the same tables, which the task can use at their own addresses.

`OpenDir` says this of a directory, in terms of its entries, and `permits` of an
address. `Created.open` is that every directory made by `create_task_space` or
`elf_exec` is open.
-/

namespace PepinOS

/-- An entry that, when present, is for ring 3 and for writing. -/
def OpenEntry (e : U32) : Prop := present e = true → userBit e = true ∧ writeBit e = true

def OpenTable (m : Mem) (t : Nat) : Prop := ∀ i, i < 1024 → OpenEntry (word m (t * 4096) i)

/-- Directory entry `e` belongs to the window and leads to the table of an open entry 768
below. -/
def WindowEntry (m : Mem) (cr3 : U32) (e : Nat) : Prop :=
  768 ≤ e ∧ e < 772 ∧ tableFrame m cr3 e = tableFrame m cr3 (e - 768) ∧
    OpenEntry (word m (frameAddr cr3) (e - 768))

/-- All that the directory maps is open, the window's entries apart. -/
structure OpenDir (m : Mem) (cr3 : U32) : Prop where
  tables : ∀ e t, e < 1024 → tableFrame m cr3 e = some t → OpenTable m t
  entries : ∀ e, e < 1024 → OpenEntry (word m (frameAddr cr3) e) ∨ WindowEntry m cr3 e

/-- The task may use `v` itself, for reading and for writing, or `v` is the alias at 3 GB of
an address it may use. -/
def permits (m : Mem) (cr3 v : U32) : Bool :=
  userWritable m cr3 v ||
    (decide (kernelVirtual ≤ v.toNat ∧ v.toNat < kernelVirtual + identityTop) &&
      userWritable m cr3 (v - 0xC0000000#32) &&
      translate m cr3 (v - 0xC0000000#32) == translate m cr3 v)

theorem openEntry_seven {e : U32} {f : Nat} (h : e.toNat = f * 4096 + 7) : OpenEntry e := by
  intro _
  rw [userBit_iff, writeBit_iff, h]
  omega

theorem openEntry_zero {e : U32} (h : e.toNat = 0) : OpenEntry e := by
  intro hp
  rw [not_present_zero h] at hp
  cases hp

/-- A number of the kernel's own making is open. -/
theorem openEntry_entryNat {e : U32} {o : Option Nat} (h : e.toNat = entryNat 0 o) :
    OpenEntry e := by
  cases o with
  | none => exact openEntry_zero h
  | some f => exact openEntry_seven h

/-- An address with the three flags, whatever its low bits. -/
theorem openEntry_or (p : U32) : OpenEntry (p ||| pagePresent ||| pageWrite ||| pageUser) := by
  have hbit : ∀ {e : U32} {k : Nat}, k < 32 → e.getLsbD k = true →
      (e &&& BitVec.twoPow 32 k != 0#32) = true := by
    intro e k hk he
    rw [and_twoPow_iff e hk]
    rw [BitVec.getLsbD, Nat.testBit_eq_decide_div_mod_eq, decide_eq_true_eq] at he
    exact he
  intro _
  refine ⟨hbit (k := 2) (by omega) ?_, hbit (k := 1) (by omega) ?_⟩
  · simp only [BitVec.getLsbD_or]
    rw [show pageUser.getLsbD 2 = true from rfl, Bool.or_true]
  · simp only [BitVec.getLsbD_or]
    rw [show pageWrite.getLsbD 1 = true from rfl, Bool.or_true, Bool.true_or]

/-! ## The walk through an open directory -/

theorem translate_some {m : Mem} {cr3 v : U32} {pa : Nat} (h : translate m cr3 v = some pa) :
    present (pde m cr3 v) = true ∧ present (pte m cr3 v) = true := by
  unfold translate at h
  split at h
  next hp => exact Bool.and_eq_true_iff.mp hp
  next => cases h

theorem translate_present {m : Mem} {cr3 v : U32} (hd : present (pde m cr3 v) = true)
    (ht : present (pte m cr3 v) = true) :
    translate m cr3 v = some (frameAddr (pte m cr3 v) + v.toNat % 4096) := by
  unfold translate
  rw [hd, ht, toNat_and_fff]
  rfl

/-- The table of a present directory entry, and what `pte` reads from it. -/
theorem userWritable_of {m : Mem} {cr3 v : U32} (hd : present (pde m cr3 v) = true)
    (ht : present (pte m cr3 v) = true) (hde : OpenEntry (pde m cr3 v))
    (hte : OpenEntry (pte m cr3 v)) : userWritable m cr3 v = true := by
  obtain ⟨hdu, hdw⟩ := hde hd
  obtain ⟨htu, htw⟩ := hte ht
  unfold userWritable userAccess
  rw [hd, ht, hdu, hdw, htu, htw]
  rfl

/-- **What an open directory maps, the task may use**, there or at the alias below. -/
theorem OpenDir.permits {m : Mem} {cr3 v : U32} (h : OpenDir m cr3) {pa : Nat}
    (htr : translate m cr3 v = some pa) : permits m cr3 v = true := by
  obtain ⟨hd, ht⟩ := translate_some htr
  obtain ⟨hframe, hround⟩ := tableFrame_present hd
  have hlt := pdIndex_lt v
  have hte : OpenEntry (pte m cr3 v) := by
    have hopen := h.tables _ _ hlt hframe (ptIndex v) (ptIndex_lt v)
    rw [hround] at hopen
    exact hopen
  unfold PepinOS.permits
  rw [Bool.or_eq_true]
  rcases h.entries (pdIndex v) hlt with hde | ⟨hlo, hhi, hsame, hde⟩
  · exact .inl (userWritable_of hd ht hde hte)
  · -- the window: the same table, one entry of the directory further down
    right
    rw [pdIndex_eq] at hlo hhi
    have hsub : (v - 0xC0000000#32).toNat = v.toNat - kernelVirtual := by
      rw [BitVec.toNat_sub_of_le (by show 0xC0000000 ≤ v.toNat; omega)]
      rfl
    unfold kernelVirtual at hsub
    have hpd : pdIndex (v - 0xC0000000#32) = pdIndex v - 768 := by
      rw [pdIndex_eq, pdIndex_eq, hsub]
      omega
    have hpt : ptIndex (v - 0xC0000000#32) = ptIndex v := by
      rw [ptIndex_eq, ptIndex_eq, hsub]
      omega
    rw [hframe] at hsame
    have hd' : present (pde m cr3 (v - 0xC0000000#32)) = true ∧
        frameAddr (pde m cr3 (v - 0xC0000000#32)) = frameAddr (pde m cr3 v) := by
      have hpde : entryFrame (pde m cr3 (v - 0xC0000000#32)) =
          some (frameAddr (pde m cr3 v) / 4096) := by
        rw [hsame]
        unfold tableFrame pde
        rw [hpd]
      obtain ⟨hp, hf⟩ := entryFrame_some hpde
      exact ⟨hp, Eq.trans hf hround⟩
    have hpte : pte m cr3 (v - 0xC0000000#32) = pte m cr3 v := by
      unfold pte
      rw [hd'.2, hpt]
    have hde' : OpenEntry (pde m cr3 (v - 0xC0000000#32)) := by
      unfold pde
      rw [hpd]
      exact hde
    have ht' : present (pte m cr3 (v - 0xC0000000#32)) = true := by rw [hpte]; exact ht
    have hte' : OpenEntry (pte m cr3 (v - 0xC0000000#32)) := by rw [hpte]; exact hte
    rw [Bool.and_eq_true, Bool.and_eq_true, decide_eq_true_eq, beq_iff_eq]
    refine ⟨⟨?_, userWritable_of hd'.1 ht' hde' hte'⟩, ?_⟩
    · unfold kernelVirtual identityTop
      omega
    · have hmod : (v.toNat - 0xC0000000) % 4096 = v.toNat % 4096 := by omega
      rw [translate_present hd'.1 ht', translate_present hd ht, hpte, hsub, hmod]

/-- Only the pages of the directory and of its tables matter. -/
theorem OpenDir.congr {m m' : Mem} {cr3 : U32} (h : OpenDir m cr3)
    (hdir : ∀ x, x / 4096 = cr3.toNat / 4096 → m' x = m x)
    (htab : ∀ e t, e < 1024 → tableFrame m cr3 e = some t → OpenTable m' t) : OpenDir m' cr3 := by
  have hframe : ∀ e, e < 1024 → tableFrame m' cr3 e = tableFrame m cr3 e :=
    fun e he => tableFrame_congr he hdir
  have hword : ∀ e, e < 1024 → word m' (frameAddr cr3) e = word m (frameAddr cr3) e := by
    intro e he
    rw [frameAddr_eq]
    exact word_page_congr he hdir
  refine ⟨fun e t he ht => htab e t he (hframe e he ▸ ht), fun e he => ?_⟩
  rw [hword e he]
  rcases h.entries e he with hopen | ⟨hlo, hhi, hsame, hopen⟩
  · exact .inl hopen
  · refine .inr ⟨hlo, hhi, ?_, ?_⟩
    · rw [hframe e he, hframe (e - 768) (by omega)]
      exact hsame
    · rw [hword (e - 768) (by omega)]
      exact hopen

theorem OpenTable.congr {m m' : Mem} {t : Nat} (h : OpenTable m t)
    (hm : ∀ x, x / 4096 = t → m' x = m x) : OpenTable m' t := by
  intro i hi
  rw [word_page_congr hi hm]
  exact h i hi

/-! ## The directories the kernel makes -/

/-- What the creations keep: the kernel's tables and all directories are open, and a table
behind a directory is the kernel's or among its task's frames. -/
structure OpenInv (s : Loader) (ts : List Member) : Prop where
  shared : ∀ e, e < 4 → OpenTable s.mem (sharedTable e)
  dirs : ∀ t ∈ ts, OpenDir s.mem t.cr3
  tables : ∀ t ∈ ts, ∀ e k, e < 1024 → tableFrame s.mem t.cr3 e = some k →
    (∃ e', e' < 4 ∧ k = sharedTable e') ∨ (k ∈ t.frames ∧ 0x205 ≤ k ∧ k ∉ freeSet s.pmm)

/-- Memory that keeps the directories and the tasks' own tables keeps it. -/
theorem OpenInv.step {s s' : Loader} {ts us : List Member} (h : OpenInv s ts)
    (hsub : freeSet s'.pmm ⊆ freeSet s.pmm)
    (hshared : ∀ e, e < 4 → OpenTable s'.mem (sharedTable e))
    (hdir : ∀ t ∈ ts, ∀ x, x / 4096 = t.cr3.toNat / 4096 → s'.mem x = s.mem x)
    (hown : ∀ t ∈ ts, ∀ x, x / 4096 ∈ t.frames → 0x205 ≤ x / 4096 → x / 4096 ∉ freeSet s.pmm →
      s'.mem x = s.mem x)
    (hnew : ∀ u ∈ us, OpenDir s'.mem u.cr3 ∧ ∀ e k, e < 1024 →
      tableFrame s'.mem u.cr3 e = some k →
      (∃ e', e' < 4 ∧ k = sharedTable e') ∨ (k ∈ u.frames ∧ 0x205 ≤ k ∧ k ∉ freeSet s'.pmm)) :
    OpenInv s' (ts ++ us) := by
  refine ⟨hshared, fun t ht => ?_, fun t ht e k he hk => ?_⟩
  · rcases List.mem_append.mp ht with ht | ht
    · refine (h.dirs t ht).congr (hdir t ht) fun e k he hk => ?_
      rcases h.tables t ht e k he hk with ⟨e', he', rfl⟩ | ⟨hf, hge, hnf⟩
      · exact hshared e' he'
      · refine ((h.dirs t ht).tables e k he hk).congr fun x hx => ?_
        rw [← hx] at hf hge hnf
        exact hown t ht x hf hge hnf
    · exact (hnew t ht).1
  · rcases List.mem_append.mp ht with ht | ht
    · rw [tableFrame_congr he (hdir t ht)] at hk
      rcases h.tables t ht e k he hk with hsh | ⟨hf, hge, hnf⟩
      · exact .inl hsh
      · exact .inr ⟨hf, hge, fun hm => hnf (hsub hm)⟩
    · exact (hnew t ht).2 e k he hk

/-- The window entry, a page table without the user bit. -/
theorem entryFrame_window {e : Nat} (he : e < 4) :
    entryFrame (BitVec.ofNat 32 (kernelPtAddr + e * 4096) ||| pagePresent ||| pageWrite) =
      some (sharedTable e) := by
  rw [BitVec.or_assoc]
  refine entryFrame_or ?_ (by decide) rfl
  rw [BitVec.toNat_ofNat]
  unfold sharedTable kernelPtAddr
  omega

/-- The directory of `create_task_space` is open, when the kernel's tables are. -/
theorem createTaskSpace_open {m m' : Mem}
    {codePhys stackPhys codeVirt stackVirt pdAddr ptAddr : U32} {d l : Nat} (hk : KernelDir m)
    (hpd : pdAddr.toNat = d * 4096) (hpt : ptAddr.toNat = l * 4096) (hne : d ≠ l)
    (hkd : d ≠ 512) (hkp : l ≠ 512)
    (hrun : createTaskSpace m codePhys stackPhys codeVirt stackVirt pdAddr ptAddr = some m')
    (hshared : ∀ e, e < 4 → OpenTable m' (sharedTable e)) :
    OpenDir m' pdAddr ∧ ∀ e k, e < 1024 → tableFrame m' pdAddr e = some k →
      (∃ e', e' < 4 ∧ k = sharedTable e') ∨ k = l := by
  obtain ⟨_, hwords⟩ := createTaskSpace_spec hpd hpt hne hkd hkp hrun
  have htable := createTaskSpace_table hpd hpt hne hkd hrun
  have hfr : frameAddr pdAddr = d * 4096 := by
    rw [frameAddr_eq]
    omega
  -- an entry of the kernel's, copied
  have hlow : ∀ e, e < 4 → (word m' (frameAddr pdAddr) e).toNat = sharedTable e * 4096 + 7 := by
    intro e he
    rw [hfr, hwords e (by omega), if_neg (by omega), if_pos he, hk e (by omega), if_pos he]
  have hframes : ∀ e k, e < 1024 → tableFrame m' pdAddr e = some k →
      (∃ e', e' < 4 ∧ k = sharedTable e') ∨ k = l := by
    intro e k he ht
    unfold tableFrame at ht
    by_cases h4 : e < 4
    · rw [entryFrame_entry (hlow e h4)] at ht
      cases ht
      exact .inl ⟨e, h4, rfl⟩
    · rw [hfr, hwords e he] at ht
      split at ht
      next hw =>
        rw [entryFrame_window (by omega)] at ht
        exact .inl ⟨e - 768, by omega, (Option.some.inj ht).symm⟩
      next =>
        split at ht
        next =>
          rw [entryFrame_entry (toNat_userEntry hpt)] at ht
          cases ht
          exact .inr rfl
        next =>
          rw [entryFrame_zero rfl] at ht
          cases ht
  refine ⟨⟨fun e t he ht => ?_, fun e he => ?_⟩, hframes⟩
  · rcases hframes e t he ht with ⟨e', he', rfl⟩ | rfl
    · exact hshared e' he'
    · intro i hi
      rw [htable i hi]
      split
      next => exact openEntry_or stackPhys
      next =>
        split
        next => exact openEntry_or codePhys
        next => exact openEntry_zero rfl
  · by_cases h4 : e < 4
    · exact .inl (openEntry_seven (hlow e h4))
    · by_cases hw : 768 ≤ e ∧ e < 772
      · -- the window entry and the identity entry lead to one table
        refine .inr ⟨hw.1, hw.2, ?_, openEntry_seven (hlow (e - 768) (by omega))⟩
        unfold tableFrame
        rw [entryFrame_entry (hlow (e - 768) (by omega)), hfr, hwords e he, if_pos hw,
          entryFrame_window (by omega)]
      · left
        rw [hfr, hwords e he, if_neg hw, if_neg h4]
        split
        next => exact openEntry_or ptAddr
        next => exact openEntry_zero rfl

/-- What a load builds is open, when the kernel's tables were. -/
theorem LoadInv.openDir {s0 s : Loader} {sp : Space} (h : LoadInv s0 sp s) {cr3 : U32}
    (hcr3 : cr3.toNat = sp.dir * 4096) (hold : ∀ e, e < 4 → OpenTable s0.mem (sharedTable e)) :
    (∀ e, e < 4 → OpenTable s.mem (sharedTable e)) ∧ OpenDir s.mem cr3 ∧
      ∀ e k, e < 1024 → tableFrame s.mem cr3 e = some k →
        (∃ e', e' < 4 ∧ k = sharedTable e') ∨ sp.own k = some (.table e) := by
  have hshared : ∀ e, e < 4 → OpenTable s.mem (sharedTable e) := by
    intro e he i hi
    have hword := h.tab_word e _ (by omega) (h.tab_shared e he) i hi
    rw [if_pos he] at hword
    cases hp : sp.page (e * 1024 + i) with
    | none =>
      -- not redirected: the entry that was there
      rw [hp] at hword
      rw [BitVec.eq_of_toNat_eq hword]
      exact hold e he i hi
    | some f =>
      rw [hp] at hword
      exact openEntry_seven hword
  refine ⟨hshared, ⟨fun e t he ht => ?_, fun e he => .inl ?_⟩, fun e k he hk => ?_⟩
  · rw [h.tableFrame_eq hcr3 he] at ht
    rcases h.tab_cases ht with ⟨he4, rfl⟩ | ⟨he4, _⟩
    · exact hshared e he4
    · intro i hi
      have hword := h.tab_word e t he ht i hi
      rw [if_neg (by omega)] at hword
      exact openEntry_entryNat hword
  · have hfr : frameAddr cr3 = sp.dir * 4096 := by
      rw [frameAddr_eq]
      omega
    rw [hfr]
    exact openEntry_entryNat (h.dir_word e he)
  · rw [h.tableFrame_eq hcr3 he] at hk
    rcases h.tab_cases hk with ⟨he4, hs⟩ | ⟨_, ho⟩
    · exact .inl ⟨e, he4, hs⟩
    · exact .inr ho

/-- A call of `elf_exec`, whatever it did. -/
theorem elfExec_open {b : ElfBuf} {file : Option FileImage} {s s' : Loader} {ts : List Member}
    (hs : SharedInv s ts) (h : OpenInv s ts) (hrun : elfExec b file s = some s')
    (halloc : Allocated s s') :
    (s'.sched.ntasks = s.sched.ntasks ∧ OpenInv s' ts) ∨
    (s'.sched.ntasks = s.sched.ntasks + 1 ∧ ∀ i : Fin 8, i.val = s.sched.ntasks →
      OpenInv s' (ts ++ [⟨(s'.sched.pool i).cr3, freeSet s.pmm \ freeSet s'.pmm⟩])) := by
  rcases elfExec_joins hs.pmm hs.reserved hs.kernel hrun halloc with
    ⟨hpmm, hsched, hmem⟩ | ⟨f, pdPhys, sp, _, hj⟩
  · -- only the file buffer was written
    have hhigh : ∀ x, 512 ≤ x / 4096 → s'.mem x = s.mem x := fun x hx =>
      hmem x (b.notMem_high hx)
    have hstep : OpenInv s' (ts ++ []) := by
      refine h.step (by rw [hpmm]) (fun e he => (h.shared e he).congr fun x hx => hhigh x ?_)
        (fun t ht x hx => hhigh x ?_) (fun t _ x _ hge _ => hhigh x (by omega))
        fun u hu => absurd hu List.not_mem_nil
      · unfold sharedTable kernelPtAddr at hx
        omega
      · have := hs.dir_above t ht
        omega
    rw [List.append_nil] at hstep
    exact .inl ⟨by rw [hsched], hstep⟩
  · right
    refine ⟨hj.ntasks, fun i hi => ?_⟩
    have hinv := hj.inv
    have hkept : ∀ x, 512 ≤ x / 4096 → x / 4096 ∉ freeSet s.pmm → ¬InShared x →
        s'.mem x = s.mem x := fun x hx hfree hsh =>
      (hinv.kept_apart hfree hsh).trans (readFile_high hx)
    have hold : ∀ e, e < 4 → OpenTable (readFile b f s).mem (sharedTable e) := fun e he =>
      (h.shared e he).congr fun x hx => readFile_high (by
        unfold sharedTable kernelPtAddr at hx
        omega)
    obtain ⟨hshared, hdir, hframes⟩ := hinv.openDir hj.dir hold
    have hout : ∀ x, 0x205 ≤ x / 4096 → ¬InShared x := by
      intro x hx
      unfold InShared sharedTable kernelPtAddr
      omega
    refine h.step hj.free hshared ?_ (fun t _ x _ hge hnf => hkept x (by omega) hnf (hout x hge)) ?_
    · intro t ht x hx
      have habove := hs.dir_above t ht
      exact hkept x (by omega) (by rw [hx]; exact hs.dir_kept t ht) (hout x (by omega))
    · intro u hu
      rw [List.mem_singleton.mp hu, hj.cr3 i hi]
      refine ⟨hdir, fun e k he hk => ?_⟩
      rcases hframes e k he hk with hsh | ho
      · exact .inl hsh
      · have hlow := hinv.own_low ho
        obtain ⟨h1, h2, _⟩ := hinv.own_taken _ _ ho
        exact .inr ⟨Finset.mem_sdiff.mpr ⟨h1, h2⟩, by omega, h2⟩

/-- `create_task_space` with fresh pages. -/
theorem space_open {s : Loader} {ts : List Member} {src : Nat} {mem : Mem}
    {codePhys stackPhys codeVirt stackVirt pdAddr ptAddr : U32} {code stack pd pt kstack : Nat}
    (hs : SharedInv s ts) (h : OpenInv s ts) (hfresh : FreshPages s ts code stack pd pt kstack)
    (hcode : codePhys.toNat = code * 4096) (hpd : pdAddr.toNat = pd * 4096)
    (hpt : ptAddr.toNat = pt * 4096)
    (hrun : createTaskSpace (copyTask src codePhys s.mem) codePhys stackPhys codeVirt stackVirt
      pdAddr ptAddr = some mem) :
    OpenInv { s with mem := mem } (ts ++ [⟨pdAddr, {code, stack, pd, pt, kstack}⟩]) := by
  have hcode' := hfresh.above code (by simp)
  have hpd' := hfresh.above pd (by simp)
  have hpt' := hfresh.above pt (by simp)
  have hne := hfresh.tables_ne
  have hmem : ∀ x, x / 4096 ≠ code → x / 4096 ≠ pd → x / 4096 ≠ pt → mem x = s.mem x := fun x =>
    taskSpace_other hcode hpd hpt hne (by omega) (by omega) hrun
  -- no page of a task that was there is one of the fresh pages
  have hold : ∀ t ∈ ts, ∀ x, x / 4096 ∈ t.frames → mem x = s.mem x := by
    intro t ht x hx
    have hnot : ∀ k ∈ [code, stack, pd, pt, kstack], x / 4096 ≠ k := fun k hk heq =>
      hfresh.unowned k hk t ht (heq ▸ hx)
    exact hmem x (hnot code (by simp)) (hnot pd (by simp)) (hnot pt (by simp))
  have hshared : ∀ e, e < 4 → OpenTable mem (sharedTable e) := fun e he =>
    (h.shared e he).congr fun x hx => by
      unfold sharedTable kernelPtAddr at hx
      exact hmem x (by omega) (by omega) (by omega)
  have hk : KernelDir (copyTask src codePhys s.mem) :=
    kernelDir_congr hs.kernel fun x hx => copyTask_other hcode (by omega)
  obtain ⟨hopen, hframes⟩ :=
    createTaskSpace_open hk hpd hpt hne (by omega) (by omega) hrun hshared
  refine h.step (Finset.Subset.refl _) hshared ?_ (fun t ht x hx _ _ => hold t ht x hx) ?_
  · intro t ht x hx
    exact hold t ht x (by rw [hx]; exact hs.dir_own t ht)
  · intro u hu
    rw [List.mem_singleton.mp hu]
    refine ⟨hopen, fun e k he hk => ?_⟩
    rcases hframes e k he hk with hsh | rfl
    · exact .inl hsh
    · exact .inr ⟨by simp, hpt', hfresh.notFree k (by simp)⟩

/-- **Every directory is open**, in any order of creations. -/
theorem Created.open {b : ElfBuf} {s : Loader} {ts : List Member} (h : Created b s ts) :
    OpenInv s ts := by
  induction h with
  | boot m memSize pool =>
    refine ⟨fun e he i hi => ?_, fun t ht => absurd ht List.not_mem_nil,
      fun t ht => absurd ht List.not_mem_nil⟩
    rw [freshLoader_mem, word_shared]
    exact openEntry_seven ((initPaging_spec m).2 _ (by omega))
  | space hc hfresh hcode _ hpd hpt hrun ih => exact space_open hc.inv ih hfresh hcode hpd hpt hrun
  | refused hc hrun hn ih =>
    rcases elfExec_open hc.inv ih hrun (fun i hi hlt => by omega) with ⟨_, h'⟩ | ⟨hn', _⟩
    · exact h'
    · omega
  | load hc hrun hi hn halloc ih =>
    rcases elfExec_open hc.inv ih hrun halloc with ⟨hn', _⟩ | ⟨_, h'⟩
    · omega
    · exact h' _ hi

end PepinOS
