import PepinOS.Lib.Mem

/-!
# Page directories and page tables

`mm/paging.c`: the kernel's directory with its identity map of the first 16 MB,
and `create_task_space`, which builds the directory of a demo task. Both write
physical memory; the kernel reaches it through its own identity map, so an
access at or past `identityTop` is a page fault, and a page fault in the kernel
ends in the `while (1)` of its handler. `none` is that end.

`translate` and `userAccess` are the processor's side: the two-level walk from
a `CR3`, and whether ring 3 may use the address (the user bit at both levels).
The lemmas after them read a walk in numbers: an entry `f * 4096 + flags`
leads to frame `f`.
-/

namespace PepinOS

def kernelPdAddr : Nat := 0x200000
def kernelPtAddr : Nat := 0x201000
def taskAPdAddr : U32 := 0x205000#32
def taskAPtAddr : U32 := 0x206000#32
def taskBPdAddr : U32 := 0x207000#32
def taskBPtAddr : U32 := 0x208000#32
def kernelVirtual : Nat := 0xC0000000

def pagePresent : U32 := 1#32
def pageWrite : U32 := 2#32
def pageUser : U32 := 4#32

/-- The end of the identity map `init_paging` builds. -/
def identityTop : Nat := 0x1000000

def memzero (m : Mem) (ptr size : Nat) : Mem :=
  forRange 0 size (fun i m => store8 m (ptr + i) 0#8) m

/-- `init_paging`. The running `addr` of the source is `i * 0x1000` at turn `i`. -/
def initPaging (m : Mem) : Mem :=
  let m := memzero m kernelPdAddr 4096
  let m := forRange 0 4096 (fun i m => setWord m kernelPtAddr i
    (BitVec.ofNat 32 (i * 0x1000) ||| pagePresent ||| pageWrite ||| pageUser)) m
  forRange 0 4 (fun i m => setWord m kernelPdAddr i
    (BitVec.ofNat 32 (kernelPtAddr + i * 4096) ||| pagePresent ||| pageWrite ||| pageUser)) m

def createTaskSpace (m : Mem) (codePhys stackPhys codeVirt stackVirt pdAddr ptAddr : U32) :
    Option Mem :=
  let pd := pdAddr.toNat
  let pt := ptAddr.toNat
  if pd + 4096 ≤ identityTop ∧ pt + 4096 ≤ identityTop then
    let m := memzero m pd 4096
    let m := memzero m pt 4096
    let codeIdx := ((codeVirt >>> 12) &&& 0x3FF#32).toNat
    let stackIdx := ((stackVirt >>> 12) &&& 0x3FF#32).toNat
    let codeDir := (codeVirt >>> 22).toNat
    let m := setWord m pt codeIdx (codePhys ||| pagePresent ||| pageWrite ||| pageUser)
    let m := setWord m pt stackIdx (stackPhys ||| pagePresent ||| pageWrite ||| pageUser)
    let m := setWord m pd codeDir (ptAddr ||| pagePresent ||| pageWrite ||| pageUser)
    -- the kernel's first 16 MB, entries copied from its own directory
    let m := forRange 0 4 (fun i m => setWord m pd i (word m kernelPdAddr i)) m
    let kvDir := kernelVirtual >>> 22
    some (forRange 0 4 (fun i m => setWord m pd (kvDir + i)
      (BitVec.ofNat 32 (kernelPtAddr + i * 4096) ||| pagePresent ||| pageWrite)) m)
  else none

/-! ## The walk -/

def present (e : U32) : Bool := e &&& pagePresent != 0#32
def userBit (e : U32) : Bool := e &&& pageUser != 0#32
def writeBit (e : U32) : Bool := e &&& pageWrite != 0#32

/-- The frame address in an entry, `e & ~0xFFF`. -/
def frameAddr (e : U32) : Nat := (e &&& ~~~0xFFF#32).toNat

def pdIndex (v : U32) : Nat := (v >>> 22).toNat
def ptIndex (v : U32) : Nat := ((v >>> 12) &&& 0x3FF#32).toNat

def pde (m : Mem) (cr3 v : U32) : U32 := word m (frameAddr cr3) (pdIndex v)
def pte (m : Mem) (cr3 v : U32) : U32 := word m (frameAddr (pde m cr3 v)) (ptIndex v)

/-- The physical address the processor reaches from `v`, if it is mapped. -/
def translate (m : Mem) (cr3 v : U32) : Option Nat :=
  if present (pde m cr3 v) && present (pte m cr3 v) then
    some (frameAddr (pte m cr3 v) + (v &&& 0xFFF#32).toNat)
  else none

/-- Ring 3 may use `v`: mapped, with the user bit in both entries. -/
def userAccess (m : Mem) (cr3 v : U32) : Bool :=
  present (pde m cr3 v) && present (pte m cr3 v) &&
    userBit (pde m cr3 v) && userBit (pte m cr3 v)

/-- The page an entry leads to, as a page number. -/
def entryFrame (e : U32) : Option Nat := if present e then some (frameAddr e / 4096) else none

/-- The page table of directory entry `e`. -/
def tableFrame (m : Mem) (cr3 : U32) (e : Nat) : Option Nat :=
  entryFrame (word m (frameAddr cr3) e)

/-- The frame virtual page `v` is mapped to. -/
def pageFrame (m : Mem) (cr3 : U32) (v : Nat) : Option Nat :=
  (tableFrame m cr3 (v / 1024)).bind fun t => entryFrame (word m (t * 4096) (v % 1024))

/-- The frames that belong to a program loaded at `cr3`: its directory, its kernel
stack, and the tables and pages behind the entries that are not the kernel's. -/
def usedFrames (m : Mem) (cr3 kstackTop : U32) : List Nat :=
  cr3.toNat / 4096 :: (kstackTop.toNat / 4096 - 1) ::
    ((List.range' 4 1020).filterMap (tableFrame m cr3) ++
      (List.range' 4096 1044480).filterMap (pageFrame m cr3))

/-! ## Entries as numbers -/

theorem present_iff (e : U32) : present e = true ↔ e.toNat % 2 = 1 := by
  have h : (e &&& 1#32).toNat = e.toNat % 2 := toNat_and_lowMask e (k := 1) (by omega)
  unfold present pagePresent
  rw [bne_iff_ne, ne_eq, ← BitVec.toNat_inj, h, BitVec.toNat_ofNat]
  omega

/-- A mask of one bit. -/
theorem and_twoPow_iff (e : U32) {k : Nat} (hk : k < 32) :
    (e &&& BitVec.twoPow 32 k != 0#32) = true ↔ e.toNat / 2 ^ k % 2 = 1 := by
  have hbit : (e &&& BitVec.twoPow 32 k) = 0#32 ↔ e.getLsbD k = false := by
    rw [BitVec.and_twoPow]
    have hne : (BitVec.twoPow 32 k : U32) ≠ 0#32 := by
      intro h
      have := BitVec.toNat_twoPow_of_lt (w := 32) hk
      rw [h, BitVec.toNat_ofNat] at this
      exact absurd this.symm (Nat.two_pow_pos k).ne'
    cases e.getLsbD k with
    | false => simp
    | true => simpa using hne
  rw [bne_iff_ne, ne_eq, hbit, Bool.not_eq_false, BitVec.getLsbD, Nat.testBit_eq_decide_div_mod_eq,
    decide_eq_true_eq]

theorem userBit_iff (e : U32) : userBit e = true ↔ e.toNat / 4 % 2 = 1 :=
  and_twoPow_iff e (k := 2) (by omega)

theorem writeBit_iff (e : U32) : writeBit e = true ↔ e.toNat / 2 % 2 = 1 :=
  and_twoPow_iff e (k := 1) (by omega)

theorem frameAddr_eq (e : U32) : frameAddr e = e.toNat / 4096 * 4096 := toNat_and_not_fff e

theorem pdIndex_eq (v : U32) : pdIndex v = v.toNat / 4194304 := toNat_ushiftRight v 22

theorem ptIndex_eq (v : U32) : ptIndex v = v.toNat / 4096 % 1024 := by
  unfold ptIndex
  rw [toNat_and_3ff, toNat_ushiftRight]
  rfl

/-- The walk goes page by page. -/
theorem translate_eq_pageFrame (m : Mem) (cr3 v : U32) :
    translate m cr3 v =
      (pageFrame m cr3 (v.toNat / 4096)).map (fun f => f * 4096 + v.toNat % 4096) := by
  have hround : ∀ e : U32, frameAddr e / 4096 * 4096 = frameAddr e := by
    intro e
    rw [frameAddr_eq]
    omega
  have hdir : pdIndex v = v.toNat / 4096 / 1024 := by rw [pdIndex_eq]; omega
  unfold translate pageFrame tableFrame entryFrame
  simp only [pte, pde, hdir, ptIndex_eq, toNat_and_fff]
  cases hp : present (word m (frameAddr cr3) (v.toNat / 4096 / 1024)) with
  | false => simp
  | true =>
    simp only [Bool.true_and, if_true, Option.bind_some, hround]
    split
    next => rw [Option.map_some, hround]
    next => rfl

theorem present_entry {e : U32} {f : Nat} (h : e.toNat = f * 4096 + 7) : present e = true := by
  rw [present_iff, h]; omega

theorem writeBit_entry {e : U32} {f : Nat} (h : e.toNat = f * 4096 + 7) : writeBit e = true := by
  rw [writeBit_iff, h]
  omega

theorem not_present_zero {e : U32} (h : e.toNat = 0) : present e = false := by
  rw [← Bool.not_eq_true, present_iff, h]; omega

theorem frameAddr_entry {e : U32} {f : Nat} (h : e.toNat = f * 4096 + 7) :
    frameAddr e = f * 4096 := by
  rw [frameAddr_eq, h]; omega

theorem entryFrame_entry {e : U32} {f : Nat} (h : e.toNat = f * 4096 + 7) :
    entryFrame e = some f := by
  unfold entryFrame
  rw [present_entry h, frameAddr_entry h, Nat.mul_div_cancel f (by omega)]
  rfl

theorem entryFrame_zero {e : U32} (h : e.toNat = 0) : entryFrame e = none := by
  unfold entryFrame
  rw [not_present_zero h]
  rfl

theorem pdIndex_lt (v : U32) : pdIndex v < 1024 := by
  rw [pdIndex_eq]; have := v.isLt; omega

theorem ptIndex_lt (v : U32) : ptIndex v < 1024 := by
  rw [ptIndex_eq]; omega

theorem tableFrame_present {m : Mem} {cr3 v : U32} (h : present (pde m cr3 v) = true) :
    tableFrame m cr3 (pdIndex v) = some (frameAddr (pde m cr3 v) / 4096) ∧
      frameAddr (pde m cr3 v) / 4096 * 4096 = frameAddr (pde m cr3 v) := by
  refine ⟨if_pos h, ?_⟩
  rw [frameAddr_eq]
  omega

theorem toNat_userEntry {p : U32} {f : Nat} (hp : p.toNat = f * 4096) :
    (p ||| pagePresent ||| pageWrite ||| pageUser).toNat = f * 4096 + 7 := by
  rw [BitVec.or_assoc, BitVec.or_assoc]
  exact toNat_or_flags hp (by decide)

/-! ## Tables that fill a page -/

theorem inRun_page {k x : Nat} : InRun (k * 4096) (4 * 1024) x ↔ x / 4096 = k := by
  unfold InRun
  omega

theorem setWord_otherPage {m : Mem} {k i x : Nat} (w : U32) (hi : i < 1024) (hx : x / 4096 ≠ k) :
    setWord m (k * 4096) i w x = m x :=
  setWord_other w hi (fun h => hx (inRun_page.mp h))

/-- Two memories that agree on page `k` hold the same table there. -/
theorem word_page_congr {m m' : Mem} {k i : Nat} (hi : i < 1024)
    (h : ∀ x, x / 4096 = k → m' x = m x) : word m' (k * 4096) i = word m (k * 4096) i :=
  word_congr hi (fun x hx => h x (inRun_page.mp hx))

theorem tableFrame_congr {m m' : Mem} {cr3 : U32} {e : Nat} (he : e < 1024)
    (h : ∀ x, x / 4096 = cr3.toNat / 4096 → m' x = m x) :
    tableFrame m' cr3 e = tableFrame m cr3 e := by
  unfold tableFrame
  rw [frameAddr_eq, word_page_congr he h]

/-! ## The kernel's directory -/

/-- Page of the kernel's table for directory entry `e`. -/
def sharedTable (e : Nat) : Nat := kernelPtAddr / 4096 + e

/-- `x` lies in one of the kernel's four page tables. -/
def InShared (x : Nat) : Prop := sharedTable 0 ≤ x / 4096 ∧ x / 4096 < sharedTable 4

/-- The kernel's directory as `init_paging` leaves it: four tables, no more. -/
def KernelDir (m : Mem) : Prop :=
  ∀ e, e < 1024 → (word m kernelPdAddr e).toNat = if e < 4 then sharedTable e * 4096 + 7 else 0

/-- The kernel's tables map the first 16 MB to themselves, for ring 3 too. -/
def KernelTables (m : Mem) : Prop :=
  ∀ i, i < 4096 → (word m kernelPtAddr i).toNat = i * 4096 + 7

theorem memzero_eq (m : Mem) (p n : Nat) : memzero m p n = patch m p n (fun _ => 0#8) :=
  forRange_store8 m (fun _ _ _ => rfl)

theorem initPaging_spec (m : Mem) : KernelDir (initPaging m) ∧ KernelTables (initPaging m) := by
  have hpd : ∀ i, i < 1024 → word (memzero m kernelPdAddr 4096) kernelPdAddr i = 0#32 := by
    intro i hi
    rw [memzero_eq]
    exact word_patch_zero (by omega)
  unfold initPaging
  simp only []
  generalize memzero m kernelPdAddr 4096 = m0 at hpd ⊢
  obtain ⟨hout1, hin1⟩ := @forRange_setWord kernelPtAddr 0 4096 4096 (fun i _ =>
    BitVec.ofNat 32 (i * 0x1000) ||| pagePresent ||| pageWrite ||| pageUser) m0 (Nat.le_refl _)
    (fun _ _ _ _ => rfl)
  generalize forRange 0 4096 (fun i m => setWord m kernelPtAddr i
    (BitVec.ofNat 32 (i * 0x1000) ||| pagePresent ||| pageWrite ||| pageUser)) m0 = m1
    at hout1 hin1 ⊢
  obtain ⟨hout2, hin2⟩ := @forRange_setWord kernelPdAddr 0 4 1024 (fun i _ =>
    BitVec.ofNat 32 (kernelPtAddr + i * 4096) ||| pagePresent ||| pageWrite ||| pageUser) m1
    (by omega) (fun _ _ _ _ => rfl)
  generalize forRange 0 4 (fun i m => setWord m kernelPdAddr i
    (BitVec.ofNat 32 (kernelPtAddr + i * 4096) ||| pagePresent ||| pageWrite ||| pageUser)) m1 = m2
    at hout2 hin2 ⊢
  refine ⟨fun e he => ?_, fun i hi => ?_⟩
  · rw [hin2 e]
    by_cases h4 : e < 4
    · rw [if_pos ⟨Nat.zero_le e, h4⟩, if_pos h4]
      refine toNat_userEntry ?_
      rw [BitVec.toNat_ofNat]
      unfold sharedTable kernelPtAddr
      omega
    · rw [if_neg (fun h => h4 h.2), if_neg h4]
      have hkeep : word m1 kernelPdAddr e = word m0 kernelPdAddr e := by
        refine word_congr he fun x hx => hout1 x ?_
        unfold InRun kernelPdAddr at hx
        unfold InRun kernelPtAddr
        omega
      rw [hkeep, hpd e he]
      rfl
  · have hkeep : word m2 kernelPtAddr i = word m1 kernelPtAddr i := by
      refine word_congr hi fun x hx => hout2 x ?_
      unfold InRun kernelPtAddr at hx
      unfold InRun kernelPdAddr
      omega
    rw [hkeep, hin1 i, if_pos ⟨Nat.zero_le i, hi⟩]
    refine toNat_userEntry ?_
    rw [BitVec.toNat_ofNat]
    omega

def kernelCr3 : U32 := 0x200000#32

/-- The kernel's walk below 16 MB. -/
theorem kernel_tableFrame {m : Mem} (hk : KernelDir m) {e : Nat} (he : e < 4) :
    tableFrame m kernelCr3 e = some (sharedTable e) := by
  have hdir : frameAddr kernelCr3 = kernelPdAddr := by
    rw [frameAddr_eq]
    rfl
  have hword := hk e (by omega)
  rw [if_pos he] at hword
  unfold tableFrame
  rw [hdir]
  exact entryFrame_entry hword

/-- The kernel's four tables lie one after another. -/
theorem word_shared (m : Mem) (e i : Nat) :
    word m (sharedTable e * 4096) i = word m kernelPtAddr (e * 1024 + i) := by
  unfold word sharedTable kernelPtAddr
  rw [show (0x201000 / 4096 + e) * 4096 + 4 * i = 0x201000 + 4 * (e * 1024 + i) by omega]

theorem kernel_pageFrame {m : Mem} (hk : KernelDir m) (ht : KernelTables m) {v : Nat}
    (hv : v < 4096) : pageFrame m kernelCr3 v = some v := by
  unfold pageFrame
  rw [kernel_tableFrame hk (by omega), Option.bind_some]
  rw [word_shared, show v / 1024 * 1024 + v % 1024 = v by omega]
  exact entryFrame_entry (ht v hv)

/-! ## Accesses of the kernel

The kernel dereferences physical addresses directly, through its identity map, so an
access at or past `identityTop` is a page fault: `none`. -/

/-- The page at a frame address is in the identity map. -/
def pageMapped (phys : U32) : Prop := phys.toNat + 4096 ≤ identityTop

instance (phys : U32) : Decidable (pageMapped phys) := inferInstanceAs (Decidable (_ ≤ _))

/-- A byte load through a kernel pointer. -/
def kload8 (m : Mem) (a : U32) : Option U8 :=
  if a.toNat + 1 ≤ identityTop then some (m a.toNat) else none

/-- A word load through a kernel pointer. -/
def kload32 (m : Mem) (a : U32) : Option U32 :=
  if a.toNat + 4 ≤ identityTop then some (load32 m a.toNat) else none

/-- A word store through a kernel pointer. -/
def kstore32 (m : Mem) (a w : U32) : Option Mem :=
  if a.toNat + 4 ≤ identityTop then some (store32 m a.toNat w) else none

/-- `&p[i]` for `u32 *p`. -/
def wordPtr (p : U32) (i : Nat) : U32 := p + BitVec.ofNat 32 (4 * i)

/-- The kernel's access to a page it owns, entry `i`. -/
theorem wordPtr_toNat {p : U32} {k i : Nat} (hp : p.toNat = k * 4096) (hk : k < 4096)
    (hi : i < 1024) : (wordPtr p i).toNat = k * 4096 + 4 * i := by
  unfold wordPtr
  rw [BitVec.toNat_add, BitVec.toNat_ofNat, hp]
  omega

theorem kload32_page {m : Mem} {p : U32} {k i : Nat} (hp : p.toNat = k * 4096) (hk : k < 4096)
    (hi : i < 1024) : kload32 m (wordPtr p i) = some (word m (k * 4096) i) := by
  have ha := wordPtr_toNat hp hk hi
  unfold kload32 identityTop
  rw [if_pos (by omega), ha]
  rfl

theorem kstore32_page {m : Mem} {p w : U32} {k i : Nat} (hp : p.toNat = k * 4096) (hk : k < 4096)
    (hi : i < 1024) : kstore32 m (wordPtr p i) w = some (setWord m (k * 4096) i w) := by
  have ha := wordPtr_toNat hp hk hi
  unfold kstore32 identityTop
  rw [if_pos (by omega), ha]
  rfl

/-- A store through a table's address that went through, read backwards. -/
theorem kstore32_some {m m' : Mem} {p w : U32} {k i : Nat} (hp : p.toNat = k * 4096)
    (hi : i < 1024) (h : kstore32 m (wordPtr p i) w = some m') : m' = setWord m (k * 4096) i w := by
  have hlt := p.isLt
  have ha : (wordPtr p i).toNat = k * 4096 + 4 * i := by
    unfold wordPtr
    rw [BitVec.toNat_add, BitVec.toNat_ofNat, hp]
    omega
  unfold kstore32 at h
  split at h
  next =>
    rw [ha] at h
    exact (Option.some.inj h).symm
  next => cases h

/-! ## The directory of a demo task -/

/-- Clearing a page entry by entry. -/
theorem clearTable_spec (m : Mem) (k : Nat) :
    (∀ x, x / 4096 ≠ k → forRange 0 1024 (fun i m => setWord m (k * 4096) i 0#32) m x = m x) ∧
    ∀ i, i < 1024 →
      word (forRange 0 1024 (fun i m => setWord m (k * 4096) i 0#32) m) (k * 4096) i = 0#32 := by
  obtain ⟨hout, hin⟩ := @forRange_setWord (k * 4096) 0 1024 1024 (fun _ _ => 0#32) m
    (Nat.le_refl _) (fun _ _ _ _ => rfl)
  exact ⟨fun x hx => hout x (by rw [inRun_page]; exact hx),
    fun i hi => (hin i).trans (if_pos ⟨Nat.zero_le i, hi⟩)⟩

/-- Copying the first entries of the kernel's directory to page `k`. -/
theorem copyDir_spec {m : Mem} {k n : Nat} (hk : k ≠ 512) (hn : n ≤ 1024) :
    (∀ x, x / 4096 ≠ k → forRange 0 n (fun i m => setWord m (k * 4096) i
      (word m kernelPdAddr i)) m x = m x) ∧
    ∀ i, word (forRange 0 n (fun i m => setWord m (k * 4096) i (word m kernelPdAddr i)) m)
      (k * 4096) i = if i < n then word m kernelPdAddr i else word m (k * 4096) i := by
  obtain ⟨hout, hin⟩ := @forRange_setWord (k * 4096) 0 n 1024
    (fun i m => word m kernelPdAddr i) m hn (by
      -- the entry read is not on the page being written
      intro j m' hj hm
      refine word_congr (n := 1024) (by omega) fun x hx => hm x ?_
      unfold InRun kernelPdAddr at hx
      rw [inRun_page]
      omega)
  refine ⟨fun x hx => hout x (by rw [inRun_page]; exact hx), fun i => ?_⟩
  rw [hin i]
  by_cases hi : i < n
  · rw [if_pos ⟨Nat.zero_le i, hi⟩, if_pos hi]
  · rw [if_neg (fun h => hi h.2), if_neg hi]

/-- The pages of a demo task, at `d` and `l`, before the kernel's entries. -/
def taskEntries (m : Mem) (codePhys stackPhys codeVirt stackVirt ptAddr : U32) (d l : Nat) : Mem :=
  setWord (setWord (setWord (memzero (memzero m (d * 4096) 4096) (l * 4096) 4096)
    (l * 4096) (ptIndex codeVirt) (codePhys ||| pagePresent ||| pageWrite ||| pageUser))
    (l * 4096) (ptIndex stackVirt) (stackPhys ||| pagePresent ||| pageWrite ||| pageUser))
    (d * 4096) (pdIndex codeVirt) (ptAddr ||| pagePresent ||| pageWrite ||| pageUser)

section

variable {m m' : Mem} {codePhys stackPhys codeVirt stackVirt pdAddr ptAddr : U32} {d l : Nat}

theorem createTaskSpace_cases (hpd : pdAddr.toNat = d * 4096) (hpt : ptAddr.toNat = l * 4096)
    (hrun : createTaskSpace m codePhys stackPhys codeVirt stackVirt pdAddr ptAddr = some m') :
    m' = forRange 0 4 (fun i q => setWord q (d * 4096) (768 + i)
      (BitVec.ofNat 32 (kernelPtAddr + i * 4096) ||| pagePresent ||| pageWrite))
      (forRange 0 4 (fun i q => setWord q (d * 4096) i (word q kernelPdAddr i))
        (taskEntries m codePhys stackPhys codeVirt stackVirt ptAddr d l)) := by
  simp only [createTaskSpace] at hrun
  split at hrun
  next =>
    rw [hpd, hpt] at hrun
    exact (Option.some.inj hrun).symm
  next => cases hrun

theorem memzero_other {k x : Nat} (hx : x / 4096 ≠ k) : memzero m (k * 4096) 4096 x = m x := by
  rw [memzero_eq]
  exact patch_out (by unfold InRun; omega)

theorem memzero_otherPage {k pa x : Nat} (hpa : pa = k * 4096) (hx : x / 4096 ≠ pa / 4096) :
    memzero m pa 4096 x = m x := by
  rw [hpa, Nat.mul_div_cancel k (by omega)] at hx
  rw [hpa]
  exact memzero_other hx

theorem taskEntries_other (x : Nat) (hd : x / 4096 ≠ d) (hl : x / 4096 ≠ l) :
    taskEntries m codePhys stackPhys codeVirt stackVirt ptAddr d l x = m x := by
  unfold taskEntries
  rw [setWord_otherPage _ (pdIndex_lt codeVirt) hd, setWord_otherPage _ (ptIndex_lt stackVirt) hl,
    setWord_otherPage _ (ptIndex_lt codeVirt) hl, memzero_other hl, memzero_other hd]

/-- In the directory stands the task's own table. -/
theorem taskEntries_dir (hne : d ≠ l) {e : Nat} (he : e < 1024) :
    word (taskEntries m codePhys stackPhys codeVirt stackVirt ptAddr d l) (d * 4096) e =
      if e = pdIndex codeVirt then ptAddr ||| pagePresent ||| pageWrite ||| pageUser
      else 0#32 := by
  unfold taskEntries
  split
  next h => rw [h, word_setWord_self]
  next h =>
    rw [word_setWord_ne _ h]
    -- the entries of the table are on the other page
    have hzero : word (memzero m (d * 4096) 4096) (d * 4096) e = 0#32 := by
      rw [memzero_eq]
      exact word_patch_zero (by omega)
    refine (word_page_congr he fun x hx => ?_).trans hzero
    rw [setWord_otherPage _ (ptIndex_lt stackVirt) (by omega),
      setWord_otherPage _ (ptIndex_lt codeVirt) (by omega), memzero_other (by omega)]

/-- In the table stand the task's two pages. -/
theorem taskEntries_table (hne : d ≠ l) {i : Nat} (hi : i < 1024) :
    word (taskEntries m codePhys stackPhys codeVirt stackVirt ptAddr d l) (l * 4096) i =
      if i = ptIndex stackVirt then stackPhys ||| pagePresent ||| pageWrite ||| pageUser
      else if i = ptIndex codeVirt then codePhys ||| pagePresent ||| pageWrite ||| pageUser
      else 0#32 := by
  unfold taskEntries
  rw [word_page_congr hi fun x hx => setWord_otherPage _ (pdIndex_lt codeVirt) (by omega)]
  by_cases hstack : i = ptIndex stackVirt
  · rw [if_pos hstack, hstack, word_setWord_self]
  · rw [if_neg hstack, word_setWord_ne _ hstack]
    by_cases hcode : i = ptIndex codeVirt
    · rw [if_pos hcode, hcode, word_setWord_self]
    · rw [if_neg hcode, word_setWord_ne _ hcode, memzero_eq]
      exact word_patch_zero (by omega)

/-- `create_task_space` writes its two pages; in the directory stand the kernel's
first four entries, the supervisor window at 3 GB and the task's own table. -/
theorem createTaskSpace_spec (hpd : pdAddr.toNat = d * 4096) (hpt : ptAddr.toNat = l * 4096)
    (hne : d ≠ l) (hkd : d ≠ 512) (hkp : l ≠ 512)
    (hrun : createTaskSpace m codePhys stackPhys codeVirt stackVirt pdAddr ptAddr = some m') :
    (∀ x, x / 4096 ≠ d → x / 4096 ≠ l → m' x = m x) ∧
    ∀ e, e < 1024 → word m' (d * 4096) e =
      if 768 ≤ e ∧ e < 772 then
        BitVec.ofNat 32 (kernelPtAddr + (e - 768) * 4096) ||| pagePresent ||| pageWrite
      else if e < 4 then word m kernelPdAddr e
      else if e = pdIndex codeVirt then ptAddr ||| pagePresent ||| pageWrite ||| pageUser
      else 0#32 := by
  have hother := @taskEntries_other m codePhys stackPhys codeVirt stackVirt ptAddr d l
  have hentries := @taskEntries_dir m codePhys stackPhys codeVirt stackVirt ptAddr d l hne
  rw [createTaskSpace_cases hpd hpt hrun]
  generalize taskEntries m codePhys stackPhys codeVirt stackVirt ptAddr d l = m1 at hother hentries ⊢
  obtain ⟨hout2, hin2⟩ := @copyDir_spec m1 d 4 hkd (by omega)
  generalize forRange 0 4 (fun i q => setWord q (d * 4096) i (word q kernelPdAddr i)) m1 = m2
    at hout2 hin2 ⊢
  obtain ⟨hout3, hin3⟩ := forRange_setWord_from (d * 4096) 768 4
    (fun i => BitVec.ofNat 32 (kernelPtAddr + i * 4096) ||| pagePresent ||| pageWrite) m2
  have hkernel : ∀ e, e < 4 → word m1 kernelPdAddr e = word m kernelPdAddr e := fun e he => by
    refine word_congr (n := 1024) (by omega) fun x hx => ?_
    unfold InRun kernelPdAddr at hx
    exact hother x (by omega) (by omega)
  refine ⟨fun x hd hl => ?_, fun e he => ?_⟩
  · rw [hout3 x (by unfold InRun; omega), hout2 x hd, hother x hd hl]
  · rw [hin3 e, hin2 e, hentries he]
    split
    next => rfl
    next =>
      split
      next h4 => exact hkernel e h4
      next => rfl

/-- After the two entries of the table all stores go to the directory. -/
theorem createTaskSpace_table (hpd : pdAddr.toNat = d * 4096) (hpt : ptAddr.toNat = l * 4096)
    (hne : d ≠ l) (hkd : d ≠ 512)
    (hrun : createTaskSpace m codePhys stackPhys codeVirt stackVirt pdAddr ptAddr = some m') :
    ∀ i, i < 1024 → word m' (l * 4096) i =
      if i = ptIndex stackVirt then stackPhys ||| pagePresent ||| pageWrite ||| pageUser
      else if i = ptIndex codeVirt then codePhys ||| pagePresent ||| pageWrite ||| pageUser
      else 0#32 := by
  intro i hi
  have htable := @taskEntries_table m codePhys stackPhys codeVirt stackVirt ptAddr d l hne i hi
  rw [createTaskSpace_cases hpd hpt hrun]
  generalize taskEntries m codePhys stackPhys codeVirt stackVirt ptAddr d l = m1 at htable ⊢
  have hout2 := (@copyDir_spec m1 d 4 hkd (by omega)).1
  generalize forRange 0 4 (fun i q => setWord q (d * 4096) i (word q kernelPdAddr i)) m1 = m2
    at hout2 ⊢
  have hout3 := (forRange_setWord_from (d * 4096) 768 4
    (fun i => BitVec.ofNat 32 (kernelPtAddr + i * 4096) ||| pagePresent ||| pageWrite) m2).1
  refine (word_page_congr hi fun x hx => ?_).trans htable
  rw [hout3 x (by unfold InRun; omega), hout2 x (by omega)]

end

end PepinOS
