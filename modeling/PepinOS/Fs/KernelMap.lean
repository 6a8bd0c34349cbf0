import PepinOS.Fs.Elf
import PepinOS.Mm.Vmm

/-!
# Two ways to map a page

`proc_map_page` calls itself equivalent to `vmm_map_page`, over any directory. On the
kernel's own directory the two write the same words but one: the entry of a page table
just made, which `proc_map_page` gives the user bit and `vmm_map_page` does not. The
processor takes the conjunction of both levels, so a page mapped for ring 3 where no
table was is the kernel's only after `vmm_map_page`. Where the directory is also one of
its own page tables, that word can be read as a page, too.
-/

namespace PepinOS

/-- Ring 3 passes both entries on the way to `v`. -/
def effUser (m : Mem) (cr3 v : U32) : Bool :=
  present (pde m cr3 v) && userBit (pde m cr3 v) && userBit (pte m cr3 v)

/-- Writes pass both entries on the way to `v`. -/
def effWrite (m : Mem) (cr3 v : U32) : Bool :=
  present (pde m cr3 v) && writeBit (pde m cr3 v) && writeBit (pte m cr3 v)

/-- What the two calls leave is the same: both stop at a fault, or the allocator is the
same, every address has the same frame and the same permissions, and those of `virt` are
the flags' if its directory entry was not there before. -/
def MapAlike (virt phys flags : U32) (s : Loader) : Prop :=
  match procMapPage kernelCr3 virt phys flags s, vmmMapPage virt phys flags ⟨s.mem, s.pmm⟩ with
  | none, none => True
  | some l, some p => l.pmm = p.pmm ∧
      (∀ v, translate l.mem kernelCr3 v = translate p.mem kernelCr3 v ∧
        effWrite l.mem kernelCr3 v = effWrite p.mem kernelCr3 v ∧
        effUser l.mem kernelCr3 v = effUser p.mem kernelCr3 v) ∧
      (present (word s.mem kernelPdAddr (pdIndex virt)) = false → ∀ m, m = l.mem ∨ m = p.mem →
        effWrite m kernelCr3 virt = writeBit flags ∧ effUser m kernelCr3 virt = userBit flags)
  | _, _ => False

/-- Ring 3 reads the directory as one of its own page tables. -/
def SelfMapped (m : Mem) : Prop :=
  ∃ e, e < 1024 ∧ present (word m kernelPdAddr e) = true ∧ userBit (word m kernelPdAddr e) = true ∧
    frameAddr (word m kernelPdAddr e) = kernelPdAddr

/-! ## Entries but for the user bit -/

/-- The entries agree in all but the user bit. -/
structure SameEntry (w w' : U32) : Prop where
  frame : frameAddr w = frameAddr w'
  present : present w = present w'
  write : writeBit w = writeBit w'

theorem SameEntry.refl (w : U32) : SameEntry w w := ⟨rfl, rfl, rfl⟩

theorem frameAddr_page (w : U32) : frameAddr w = frameAddr w / 4096 * 4096 := by
  rw [frameAddr_eq]
  omega

theorem frameAddr_kernel : frameAddr kernelCr3 = 512 * 4096 := by
  rw [frameAddr_eq]
  rfl

section

variable {m m' : Mem}
  (h : ∀ t j, j < 1024 → SameEntry (word m (t * 4096) j) (word m' (t * 4096) j))

include h

theorem pde_alike (v : U32) : SameEntry (pde m kernelCr3 v) (pde m' kernelCr3 v) := by
  unfold pde
  rw [frameAddr_kernel]
  exact h 512 _ (pdIndex_lt v)

theorem pte_alike (v : U32) : SameEntry (pte m kernelCr3 v) (pte m' kernelCr3 v) := by
  unfold pte
  rw [← (pde_alike h v).frame, frameAddr_page]
  exact h _ _ (ptIndex_lt v)

/-- Then the walk and the right to write are the same everywhere. -/
theorem walk_alike (v : U32) : translate m kernelCr3 v = translate m' kernelCr3 v ∧
    effWrite m kernelCr3 v = effWrite m' kernelCr3 v := by
  unfold translate effWrite
  rw [(pde_alike h v).present, (pte_alike h v).present, (pte_alike h v).frame,
    (pde_alike h v).write, (pte_alike h v).write]
  exact ⟨rfl, rfl⟩

end

/-! ## A page under a new table -/

/-- Page `k` becomes the table of directory entry `e`, with one entry of its own. -/
def freshTable (m : Mem) (k e i : Nat) (dirWord entry : U32) : Mem :=
  setWord (setWord (forRange 0 1024 (fun i m => setWord m (k * 4096) i 0#32) m) kernelPdAddr e
    dirWord) (k * 4096) i entry

section

variable {m : Mem} {k e i : Nat} {dirWord entry : U32}

/-- The new table: empty but for its entry. -/
theorem freshTable_table (hk : k ≠ 512) (he : e < 1024) {j : Nat} (hj : j < 1024) :
    word (freshTable m k e i dirWord entry) (k * 4096) j = if j = i then entry else 0#32 := by
  have hdir : kernelPdAddr = 512 * 4096 := rfl
  unfold freshTable
  by_cases hji : j = i
  · rw [if_pos hji, hji, word_setWord_self]
  · rw [if_neg hji, word_setWord_ne _ hji, hdir,
      word_page_congr hj fun x hx => setWord_otherPage dirWord he (by omega)]
    exact (clearTable_spec m k).2 j hj

/-- The directory: as before but for the new entry. -/
theorem freshTable_dir (hk : k ≠ 512) (hi : i < 1024) {j : Nat} (hj : j < 1024) :
    word (freshTable m k e i dirWord entry) kernelPdAddr j =
      if j = e then dirWord else word m kernelPdAddr j := by
  have hdir : kernelPdAddr = 512 * 4096 := rfl
  unfold freshTable
  rw [hdir, word_page_congr hj fun x hx => setWord_otherPage entry hi (by omega)]
  by_cases hje : j = e
  · rw [if_pos hje, hje, word_setWord_self]
  · rw [if_neg hje, word_setWord_ne _ hje,
      word_page_congr hj fun x hx => (clearTable_spec m k).1 x (by omega)]

/-- Any other page is as before. -/
theorem freshTable_other (he : e < 1024) (hi : i < 1024) {t j : Nat} (ht : t ≠ 512)
    (htk : t ≠ k) (hj : j < 1024) :
    word (freshTable m k e i dirWord entry) (t * 4096) j = word m (t * 4096) j := by
  have hdir : kernelPdAddr = 512 * 4096 := rfl
  refine word_page_congr hj fun x hx => ?_
  unfold freshTable
  rw [setWord_otherPage entry hi (by omega), hdir, setWord_otherPage dirWord he (by omega)]
  exact (clearTable_spec m k).1 x (by omega)

variable (hk : k ≠ 512) (he : e < 1024) (hi : i < 1024)

include hk he hi

/-- Two entries for the directory change no other word. -/
theorem freshTable_ne {w w' : U32} {t j : Nat} (hj : j < 1024) (hne : ¬(t = 512 ∧ j = e)) :
    word (freshTable m k e i w entry) (t * 4096) j =
      word (freshTable m k e i w' entry) (t * 4096) j := by
  by_cases ht : t = 512
  · have hje : j ≠ e := fun heq => hne ⟨ht, heq⟩
    have hdir : kernelPdAddr = 512 * 4096 := rfl
    rw [ht, ← hdir, freshTable_dir hk hi hj, freshTable_dir hk hi hj, if_neg hje, if_neg hje]
  · by_cases htk : t = k
    · rw [htk, freshTable_table hk he hj, freshTable_table hk he hj]
    · rw [freshTable_other he hi ht htk hj, freshTable_other he hi ht htk hj]

variable (m entry) in
/-- If the two agree but for the user bit, so do all words. -/
theorem freshTable_alike {w w' : U32} (hw : SameEntry w w') (t j : Nat) (hj : j < 1024) :
    SameEntry (word (freshTable m k e i w entry) (t * 4096) j)
      (word (freshTable m k e i w' entry) (t * 4096) j) := by
  by_cases hte : t = 512 ∧ j = e
  · have hdir : kernelPdAddr = 512 * 4096 := rfl
    rw [hte.1, hte.2, ← hdir, freshTable_dir hk hi he, freshTable_dir hk hi he, if_pos rfl,
      if_pos rfl]
    exact hw
  · rw [freshTable_ne hk he hi hj hte]
    exact .refl _

end

/-! ## The two calls -/

section

variable {virt phys flags : U32} {s : Loader}

theorem kload32_dir (m : Mem) (v : U32) :
    kload32 m (wordPtr kernelCr3 (pdIndex v)) = some (word m kernelPdAddr (pdIndex v)) :=
  kload32_page (k := 512) rfl (by omega) (pdIndex_lt v)

/-- With a table there, the two are one. -/
theorem procMapPage_present (hp : present (word s.mem kernelPdAddr (pdIndex virt)) = true) :
    procMapPage kernelCr3 virt phys flags s =
      (vmmMapPage virt phys flags ⟨s.mem, s.pmm⟩).map fun p =>
        { s with mem := p.mem, pmm := p.pmm } := by
  simp only [procMapPage, procEnsureTable, vmmMapPage, vmmEnsureTable, kload32_dir, hp,
    Option.bind_eq_bind, Option.bind_some, Bool.not_true, Bool.false_eq_true, if_false]
  cases kstore32 s.mem (wordPtr (word s.mem kernelPdAddr (pdIndex virt) &&& ~~~0xFFF#32)
    (ptIndex virt)) (phys ||| flags) with
  | none => rfl
  | some m => rfl

variable (habs : present (word s.mem kernelPdAddr (pdIndex virt)) = false)

include habs

variable (virt phys flags) in
/-- A table out of the kernel's reach stops both. -/
theorem mapPage_unmapped (hm : ¬pageMapped (pmmAllocPage s.pmm).1) :
    procMapPage kernelCr3 virt phys flags s = none ∧
      vmmMapPage virt phys flags ⟨s.mem, s.pmm⟩ = none := by
  simp only [procMapPage, procEnsureTable, vmmMapPage, vmmEnsureTable, kload32_dir, habs,
    Option.bind_eq_bind, Option.bind_some, Bool.not_false, if_true, if_neg hm, Option.bind_none,
    and_self]

omit habs in
/-- The table's address, read back from either entry. -/
theorem freshDir_frame {k : Nat} {w : U32} (hw : w.toNat / 4096 = k) (m : Mem) :
    (word (setWord m kernelPdAddr (pdIndex virt) w) kernelPdAddr (pdIndex virt) &&&
      ~~~0xFFF#32).toNat = k * 4096 := by
  rw [word_setWord_self, toNat_and_not_fff, hw]

variable (virt phys flags) in
/-- What the two leave: they differ in the directory entry. -/
theorem mapPage_fresh {k : Nat} (haddr : (pmmAllocPage s.pmm).1.toNat = k * 4096)
    (hk4 : k < 4096) :
    procMapPage kernelCr3 virt phys flags s = some { s with
      mem := freshTable s.mem k (pdIndex virt) (ptIndex virt)
        ((pmmAllocPage s.pmm).1 ||| pagePresent ||| pageWrite ||| pageUser) (phys ||| flags)
      pmm := (pmmAllocPage s.pmm).2 } ∧
    vmmMapPage virt phys flags ⟨s.mem, s.pmm⟩ = some
      ⟨freshTable s.mem k (pdIndex virt) (ptIndex virt)
        ((pmmAllocPage s.pmm).1 ||| pagePresent ||| pageWrite) (phys ||| flags),
        (pmmAllocPage s.pmm).2⟩ := by
  have hm : pageMapped (pmmAllocPage s.pmm).1 := by
    unfold pageMapped identityTop
    omega
  have hw7 : ((pmmAllocPage s.pmm).1 ||| pagePresent ||| pageWrite ||| pageUser).toNat =
      k * 4096 + 7 := toNat_userEntry haddr
  have hw3 : ((pmmAllocPage s.pmm).1 ||| pagePresent ||| pageWrite).toNat = k * 4096 + 3 := by
    rw [BitVec.or_assoc]
    exact toNat_or_flags haddr (by decide)
  have hdirStore : ∀ m w, kstore32 m (wordPtr kernelCr3 (pdIndex virt)) w =
      some (setWord m kernelPdAddr (pdIndex virt) w) := fun m w =>
    kstore32_page (k := 512) rfl (by omega) (pdIndex_lt virt)
  constructor
  · simp only [procMapPage, procEnsureTable, kload32_dir, habs, Option.bind_eq_bind,
      Option.bind_some, Bool.not_false, if_true, if_pos hm, hdirStore, haddr]
    rw [kstore32_page (freshDir_frame (k := k) (by omega) _) hk4 (ptIndex_lt virt)]
    rfl
  · simp only [vmmMapPage, vmmEnsureTable, habs, Option.bind_eq_bind, Option.bind_some,
      Bool.not_false, if_true, if_pos hm, haddr]
    rw [kstore32_page (freshDir_frame (k := k) (by omega) _) hk4 (ptIndex_lt virt)]
    rfl

end

/-! ## Permissions under a new table -/

section

variable {m : Mem} {k : Nat} {virt w entry : U32} (hk : k ≠ 512)

include hk

theorem pde_freshTable (v : U32) :
    pde (freshTable m k (pdIndex virt) (ptIndex virt) w entry) kernelCr3 v =
      if pdIndex v = pdIndex virt then w else word m kernelPdAddr (pdIndex v) := by
  unfold pde
  rw [frameAddr_kernel]
  exact freshTable_dir hk (ptIndex_lt virt) (pdIndex_lt v)

/-- Below the new entry: the one page. -/
theorem pte_freshTable (hw : frameAddr w = k * 4096) {v : U32} (hv : pdIndex v = pdIndex virt) :
    pte (freshTable m k (pdIndex virt) (ptIndex virt) w entry) kernelCr3 v =
      if ptIndex v = ptIndex virt then entry else 0#32 := by
  unfold pte
  rw [pde_freshTable hk, if_pos hv, hw]
  exact freshTable_table hk (pdIndex_lt virt) (ptIndex_lt v)

end

/-- The bits below a page's address are those of the flags. -/
theorem aligned_or_and {phys : U32} (h : phys.toNat % 4096 = 0) (flags : U32) {k : Nat}
    (hk : k < 12) :
    (phys ||| flags) &&& BitVec.twoPow 32 k = flags &&& BitVec.twoPow 32 k := by
  have hbit : phys.getLsbD k = false := by
    rw [BitVec.getLsbD, Nat.testBit_eq_decide_div_mod_eq, decide_eq_false_iff_not]
    obtain ⟨c, hc⟩ := Nat.dvd_of_mod_eq_zero h
    have hsplit : 4096 * c = 2 ^ k * (2 * (2 ^ (11 - k) * c)) := by
      rw [← Nat.mul_assoc, ← Nat.mul_assoc, ← Nat.pow_succ, ← Nat.pow_add,
        show k + 1 + (11 - k) = 12 by omega]
    rw [hc, hsplit, Nat.mul_div_cancel_left _ (Nat.two_pow_pos k), Nat.mul_mod_right]
    exact Nat.zero_ne_one
  rw [BitVec.and_or_distrib_right, BitVec.and_twoPow phys, hbit]
  exact BitVec.zero_or

theorem userBit_or {phys flags : U32} (h : phys.toNat % 4096 = 0) :
    userBit (phys ||| flags) = userBit flags := by
  have hmask : (phys ||| flags) &&& pageUser = flags &&& pageUser :=
    aligned_or_and h flags (k := 2) (by omega)
  unfold userBit
  rw [hmask]

theorem writeBit_or {phys flags : U32} (h : phys.toNat % 4096 = 0) :
    writeBit (phys ||| flags) = writeBit flags := by
  have hmask : (phys ||| flags) &&& pageWrite = flags &&& pageWrite :=
    aligned_or_and h flags (k := 1) (by omega)
  unfold writeBit
  rw [hmask]

/-- The entry of a new table, as each of the two writes it. -/
structure DirWords (k : Nat) (w w' : U32) : Prop where
  same : SameEntry w w'
  frame : frameAddr w = k * 4096
  present : PepinOS.present w = true
  write : writeBit w = true
  user : userBit w = true
  kernel : userBit w' = false

theorem dirWords {p : U32} {k : Nat} (hp : p.toNat = k * 4096) :
    DirWords k (p ||| pagePresent ||| pageWrite ||| pageUser) (p ||| pagePresent ||| pageWrite) := by
  have h7 : (p ||| pagePresent ||| pageWrite ||| pageUser).toNat = k * 4096 + 7 :=
    toNat_userEntry hp
  have h3 : (p ||| pagePresent ||| pageWrite).toNat = k * 4096 + 3 := by
    rw [BitVec.or_assoc]
    exact toNat_or_flags hp (by decide)
  have hp3 : present (p ||| pagePresent ||| pageWrite) = true := by
    rw [present_iff]
    omega
  have hw3 : writeBit (p ||| pagePresent ||| pageWrite) = true := by
    rw [writeBit_iff]
    omega
  refine ⟨⟨?_, ?_, ?_⟩, frameAddr_entry h7, present_entry h7, writeBit_entry h7, ?_, ?_⟩
  · rw [frameAddr_eq, frameAddr_eq, h7, h3]
    omega
  · rw [present_entry h7, hp3]
  · rw [writeBit_entry h7, hw3]
  · rw [userBit_iff, h7]
    omega
  · rw [← Bool.not_eq_true, userBit_iff, h3]
    omega

section

variable {m : Mem} {k : Nat} {virt w w' phys flags : U32} (hk : k ≠ 512) (hd : DirWords k w w')
  (hphys : phys.toNat % 4096 = 0)

include hk hd hphys

variable (m virt flags) in
/-- With the user bit above, the permissions of the new page are those of its entry. -/
theorem effUser_virt :
    effUser (freshTable m k (pdIndex virt) (ptIndex virt) w (phys ||| flags)) kernelCr3 virt =
        userBit flags ∧
      effUser (freshTable m k (pdIndex virt) (ptIndex virt) w' (phys ||| flags)) kernelCr3 virt =
        false := by
  have hframe' : frameAddr w' = k * 4096 := by rw [← hd.same.frame]; exact hd.frame
  unfold effUser
  rw [pde_freshTable hk, pde_freshTable hk, pte_freshTable hk hd.frame rfl,
    pte_freshTable hk hframe' rfl, if_pos rfl, if_pos rfl, if_pos rfl, hd.present, hd.user,
    hd.kernel, userBit_or hphys]
  exact ⟨rfl, by rw [Bool.and_false, Bool.false_and]⟩

variable (m virt flags) in
theorem effWrite_virt :
    effWrite (freshTable m k (pdIndex virt) (ptIndex virt) w (phys ||| flags)) kernelCr3 virt =
      writeBit flags := by
  unfold effWrite
  rw [pde_freshTable hk, pte_freshTable hk hd.frame rfl, if_pos rfl, if_pos rfl, hd.present,
    hd.write, writeBit_or hphys]
  rfl

variable (flags) in
/-- What ring 3 may use is the same everywhere exactly when it may not use the new page and
does not read the directory as a table. -/
theorem effUser_alike_iff (habs : present (word m kernelPdAddr (pdIndex virt)) = false) :
    (∀ v, effUser (freshTable m k (pdIndex virt) (ptIndex virt) w (phys ||| flags)) kernelCr3 v =
      effUser (freshTable m k (pdIndex virt) (ptIndex virt) w' (phys ||| flags)) kernelCr3 v) ↔
    userBit flags = false ∧ ¬SelfMapped m := by
  have hframe' : frameAddr w' = k * 4096 := by rw [← hd.same.frame]; exact hd.frame
  have hdir : kernelPdAddr = 512 * 4096 := rfl
  constructor
  · intro hall
    constructor
    · obtain ⟨hproc, hvmm⟩ := effUser_virt m virt flags hk hd hphys
      rw [← hproc, hall virt, hvmm]
    · intro hself
      obtain ⟨e, he, hp, hu, hf⟩ := hself
      -- the address whose page is the directory's new entry
      have hpt := pdIndex_lt virt
      have hv : pdIndex (BitVec.ofNat 32 (e * 4194304 + pdIndex virt * 4096)) = e ∧
          ptIndex (BitVec.ofNat 32 (e * 4194304 + pdIndex virt * 4096)) = pdIndex virt := by
        rw [pdIndex_eq, ptIndex_eq, BitVec.toNat_ofNat]
        omega
      have hne : e ≠ pdIndex virt := by
        intro heq
        rw [heq, habs] at hp
        cases hp
      have heq := hall (BitVec.ofNat 32 (e * 4194304 + pdIndex virt * 4096))
      unfold effUser pte at heq
      rw [pde_freshTable hk, pde_freshTable hk, hv.1, hv.2, if_neg hne, if_neg hne, hp, hu, hf,
        freshTable_dir hk (ptIndex_lt virt) hpt, freshTable_dir hk (ptIndex_lt virt) hpt,
        if_pos rfl, if_pos rfl, hd.user, hd.kernel] at heq
      cases heq
  · intro hcond v
    obtain ⟨hflags, hself⟩ := hcond
    unfold effUser
    by_cases hv : pdIndex v = pdIndex virt
    · have hentry : userBit (if ptIndex v = ptIndex virt then phys ||| flags else 0#32) = false := by
        split
        next => rw [userBit_or hphys, hflags]
        next => rfl
      rw [pte_freshTable hk hd.frame hv, pte_freshTable hk hframe' hv, hentry, Bool.and_false,
        Bool.and_false]
    · unfold pte
      rw [pde_freshTable hk, pde_freshTable hk, if_neg hv, if_neg hv]
      by_cases hp : present (word m kernelPdAddr (pdIndex v)) = true ∧
          userBit (word m kernelPdAddr (pdIndex v)) = true
      · -- its table is not the directory
        have hnot : frameAddr (word m kernelPdAddr (pdIndex v)) / 4096 ≠ 512 := by
          intro heq
          refine hself ⟨_, pdIndex_lt v, hp.1, hp.2, ?_⟩
          rw [frameAddr_page, heq, hdir]
        rw [frameAddr_page, freshTable_ne hk (pdIndex_lt virt) (ptIndex_lt virt) (ptIndex_lt v)
          (fun hne => hnot hne.1)]
      · have hno : (present (word m kernelPdAddr (pdIndex v)) &&
            userBit (word m kernelPdAddr (pdIndex v))) = false := by
          rw [← Bool.not_eq_true, Bool.and_eq_true]
          exact hp
        rw [hno, Bool.false_and, Bool.false_and]

end

/-- **When `proc_map_page` on the kernel's directory is `vmm_map_page`**, with the allocator
about to hand out any page but the directory's own. -/
theorem procMapPage_alike_iff (s : Loader) (virt phys flags : U32) (hpmm : PmmInv s.pmm)
    (hdir : (pmmAllocPage s.pmm).1.toNat ≠ kernelPdAddr) (hfree : (freeSet s.pmm).Nonempty)
    (hphys : phys.toNat % 4096 = 0) :
    MapAlike virt phys flags s ↔
      present (word s.mem kernelPdAddr (pdIndex virt)) = true ∨
      ¬pageMapped (pmmAllocPage s.pmm).1 ∨ (userBit flags = false ∧ ¬SelfMapped s.mem) := by
  unfold MapAlike
  by_cases hp : present (word s.mem kernelPdAddr (pdIndex virt)) = true
  · rw [procMapPage_present hp]
    refine iff_of_true ?_ (Or.inl hp)
    cases vmmMapPage virt phys flags ⟨s.mem, s.pmm⟩ with
    | none => exact trivial
    | some p => exact ⟨rfl, fun v => ⟨rfl, rfl, rfl⟩, fun habs => by rw [hp] at habs; cases habs⟩
  · have habs : present (word s.mem kernelPdAddr (pdIndex virt)) = false := by simpa using hp
    by_cases hm : pageMapped (pmmAllocPage s.pmm).1
    · rcases pmmAllocPage_cases hpmm with ⟨hemp, _⟩ | ⟨k, hkf, _, haddr, _⟩
      · rw [hemp] at hfree
        exact absurd hfree Finset.not_nonempty_empty
      · unfold pmmPageSize at haddr
        have hk : k ≠ 512 := by
          unfold kernelPdAddr at hdir
          omega
        have hk4 : k < 4096 := by
          unfold pageMapped identityTop at hm
          omega
        obtain ⟨hproc, hvmm⟩ := mapPage_fresh virt phys flags habs haddr hk4
        have hd := dirWords haddr
        rw [hproc, hvmm]
        have hiff := effUser_alike_iff flags hk hd hphys habs
        have hwalk := walk_alike (freshTable_alike s.mem (phys ||| flags) hk (pdIndex_lt virt)
          (ptIndex_lt virt) hd.same)
        have hwrite := effWrite_virt s.mem virt flags hk hd hphys
        have huser := effUser_virt s.mem virt flags hk hd hphys
        constructor
        · intro hall
          exact Or.inr (Or.inr (hiff.mp fun v => (hall.2.1 v).2.2))
        · intro hcond
          have hflags : userBit flags = false ∧ ¬SelfMapped s.mem := by
            rcases hcond with h | h | h
            · exact absurd h hp
            · exact absurd hm h
            · exact h
          refine ⟨rfl, fun v => ⟨(hwalk v).1, (hwalk v).2, hiff.mpr hflags v⟩, fun _ m hm' => ?_⟩
          rcases hm' with rfl | rfl
          · exact ⟨hwrite, huser.1⟩
          · exact ⟨(hwalk virt).2.symm.trans hwrite, huser.2.trans hflags.1.symm⟩
    · obtain ⟨hproc, hvmm⟩ := mapPage_unmapped virt phys flags habs hm
      rw [hproc, hvmm]
      exact iff_of_true trivial (Or.inr (Or.inl hm))

/-- The kernel as it has booted: the page of the first table is at 4 MB, and the directory
leads to other pages only. -/
theorem boot_tableless {virt : U32} (hv : 4 ≤ pdIndex virt) :
    ∃ s : Loader, s = freshLoader (fun _ => 0#8) 0x2000000#32 (fun _ => newTask 0 0 0 0 0 0 0) ∧
      PmmInv s.pmm ∧ (freeSet s.pmm).Nonempty ∧
      present (word s.mem kernelPdAddr (pdIndex virt)) = false ∧
      (pmmAllocPage s.pmm).1.toNat = 1024 * 4096 ∧ ¬SelfMapped s.mem := by
  obtain ⟨hpmm, _, hk, _⟩ := freshLoader_ready (fun _ => 0#8) 0x2000000#32
    (fun _ => newTask 0 0 0 0 0 0 0)
  have hfirst : (pmmAllocPage (freshLoader (fun _ => 0#8) 0x2000000#32
      (fun _ => newTask 0 0 0 0 0 0 0)).pmm).1 = 0x400000#32 := by
    rw [freshLoader_pmm]
    exact pmmInit_alloc _ (by rw [pmmTotal_32MB]; unfold pmmReserved pmmPageSize; omega)
  generalize freshLoader (fun _ => 0#8) 0x2000000#32 (fun _ => newTask 0 0 0 0 0 0 0) = s at *
  refine ⟨s, rfl, hpmm, ?_, ?_, ?_, ?_⟩
  · rcases pmmAllocPage_cases hpmm with ⟨_, heq⟩ | ⟨k, hkf, _⟩
    · rw [heq] at hfirst
      cases hfirst
    · exact ⟨k, hkf⟩
  · have hword := hk (pdIndex virt) (pdIndex_lt virt)
    rw [if_neg (by omega)] at hword
    exact not_present_zero hword
  · rw [hfirst]
    rfl
  · intro hself
    obtain ⟨e, he, hp, _, hf⟩ := hself
    have hword := hk e he
    split at hword
    next =>
      rw [frameAddr_entry hword] at hf
      unfold sharedTable kernelPtAddr kernelPdAddr at hf
      omega
    next =>
      rw [not_present_zero hword] at hp
      cases hp

/-- A user page at `0xD0000000`, the first of its 4 MB: ring 3 may use it after
`proc_map_page`, but not after `vmm_map_page`. -/
theorem mapUser_differs : ∃ s l p,
    procMapPage kernelCr3 0xD0000000#32 0x500000#32 7#32 s = some l ∧
    vmmMapPage 0xD0000000#32 0x500000#32 7#32 ⟨s.mem, s.pmm⟩ = some p ∧
    effUser l.mem kernelCr3 0xD0000000#32 = true ∧
    effUser p.mem kernelCr3 0xD0000000#32 = false ∧
    ¬MapAlike 0xD0000000#32 0x500000#32 7#32 s := by
  have hv : 4 ≤ pdIndex 0xD0000000#32 := by
    rw [pdIndex_eq]
    simp
  obtain ⟨s, _, _, _, habs, haddr, _⟩ := boot_tableless hv
  obtain ⟨hproc, hvmm⟩ := mapPage_fresh 0xD0000000#32 0x500000#32 7#32 habs haddr (by omega)
  have hphys : (0x500000#32 : U32).toNat % 4096 = 0 := rfl
  obtain ⟨hu, hu'⟩ := effUser_virt s.mem 0xD0000000#32 7#32 (by omega) (dirWords haddr) hphys
  refine ⟨s, _, _, hproc, hvmm, hu, hu', ?_⟩
  unfold MapAlike
  rw [hproc, hvmm]
  intro hall
  have hsame := (hall.2.1 0xD0000000#32).2.2
  rw [hu, hu'] at hsame
  cases hsame

theorem procMapPage_alike_supervisor : ∃ s l p,
    procMapPage kernelCr3 0xD0000000#32 0x500000#32 3#32 s = some l ∧
    vmmMapPage 0xD0000000#32 0x500000#32 3#32 ⟨s.mem, s.pmm⟩ = some p ∧
    MapAlike 0xD0000000#32 0x500000#32 3#32 s := by
  have hv : 4 ≤ pdIndex 0xD0000000#32 := by
    rw [pdIndex_eq]
    simp
  obtain ⟨s, _, hpmm, hfree, habs, haddr, hself⟩ := boot_tableless hv
  obtain ⟨hproc, hvmm⟩ := mapPage_fresh 0xD0000000#32 0x500000#32 3#32 habs haddr (by omega)
  have hdir : (pmmAllocPage s.pmm).1.toNat ≠ kernelPdAddr := by
    rw [haddr]
    unfold kernelPdAddr
    omega
  exact ⟨s, _, _, hproc, hvmm, (procMapPage_alike_iff s 0xD0000000#32 0x500000#32 3#32 hpmm hdir
    hfree rfl).mpr (Or.inr (Or.inr ⟨rfl, hself⟩))⟩

end PepinOS
