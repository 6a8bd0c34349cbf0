import PepinOS.Lib.Mem

/-!
# The interrupt table

`init_idt` of `arch/idt.c`: the two interrupt controllers get their vectors and masks,
every descriptor its handler, and the table is copied to `IDTBASE`. Where the linker puts
the entry points of `arch/idt_asm.asm` is the parameter `addr`; the entry points
themselves are in `Arch.Stubs`.

`gateAt` is the processor's side, the gate it reads from memory for a vector, and `Pic`
the controller's: four command words, then the mask. `idt_gates` compares the three: for
every vector the gate found in memory is the one `vectorStub` names, open to ring 3 for the
system call alone; of the sixteen lines only the timer and the keyboard get through.
-/

namespace PepinOS

/-! ## Entry points and descriptors -/

/-- The entry points of `arch/idt_asm.asm`; `isr n` is `_idt_isr<n>`. -/
inductive Stub where
  | default
  | div0
  | isr (n : Nat)
  | gpf
  | pagefault
  | irq0
  | irq1
  | irq (n : Nat)
  | syscall
  deriving DecidableEq

/-- `struct idtdesc` -/
structure IdtDesc where
  offset0_15 : U16
  select : U16
  type : U16
  offset16_31 : U16

def initIdtDesc (select : U16) (offset : U32) (type : U16) : IdtDesc where
  offset0_15 := (offset &&& 0x0000FFFF#32).setWidth 16
  select := select
  type := type
  offset16_31 := ((offset &&& 0xFFFF0000#32) >>> 16).setWidth 16

/-- The bytes of a 16-bit field. -/
def byteOf16 (w : U16) (k : Nat) : U8 := w.extractLsb' (8 * k) 8

/-- Byte `k` of the packed structure. -/
def IdtDesc.byte (d : IdtDesc) (k : Nat) : U8 :=
  if k < 2 then byteOf16 d.offset0_15 k
  else if k < 4 then byteOf16 d.select (k - 2)
  else if k < 6 then byteOf16 d.type (k - 4)
  else byteOf16 d.offset16_31 (k - 6)

def idtSize : Nat := 256
def idtBase : Nat := 0x500

/-- The calls of `init_idt_desc` after the loop, in their order. -/
def idtEntries : List (Nat × Stub × U16) :=
  [(0, .div0, 0x8E00), (1, .isr 1, 0x8E00), (2, .isr 2, 0x8E00), (3, .isr 3, 0x8E00),
   (4, .isr 4, 0x8E00), (5, .isr 5, 0x8E00), (6, .isr 6, 0x8E00), (7, .isr 7, 0x8E00),
   (9, .isr 9, 0x8E00), (15, .isr 15, 0x8E00), (16, .isr 16, 0x8E00), (19, .isr 19, 0x8E00),
   (20, .isr 20, 0x8E00),
   (8, .isr 8, 0x8E00), (10, .isr 10, 0x8E00), (11, .isr 11, 0x8E00), (12, .isr 12, 0x8E00),
   (13, .gpf, 0x8E00), (14, .pagefault, 0x8E00), (17, .isr 17, 0x8E00),
   (32, .irq0, 0x8E00), (33, .irq1, 0x8E00), (34, .irq 2, 0x8E00), (35, .irq 3, 0x8E00),
   (36, .irq 4, 0x8E00), (37, .irq 5, 0x8E00), (38, .irq 6, 0x8E00), (39, .irq 7, 0x8E00),
   (0x30, .syscall, 0xEF00)]

/-- `kidt` when it is complete. -/
def fillKidt (addr : Stub → U32) (kidt : Nat → IdtDesc) : Nat → IdtDesc :=
  let kidt := forRange 0 idtSize
    (fun i k => Function.update k i (initIdtDesc 0x08#16 (addr .default) 0x8E00#16)) kidt
  idtEntries.foldl (fun k e => Function.update k e.1 (initIdtDesc 0x08#16 (addr e.2.1) e.2.2)) kidt

/-- `kidtr.limite`: one more than the last byte. -/
def idtLimit : Nat := idtSize * 8

/-- The copy at the end of `init_idt`. The table is built in `kidt`, and `kidtr` filled in; both
are variables of the kernel, beside memory here as everywhere (`fillKidt`, `idtLimit`). -/
def initIdt (addr : Stub → U32) (kidt : Nat → IdtDesc) (m : Mem) : Mem :=
  forRange 0 idtLimit (fun j m => store8 m (idtBase + j) ((fillKidt addr kidt (j / 8)).byte (j % 8))) m

/-! ## The processor's side -/

/-- A gate as the processor reads it. -/
structure Gate where
  select : U16
  offset : U32
  present : Bool
  dpl : Nat
  kind : Nat
  deriving DecidableEq

/-- The kinds of a 32-bit gate: an interrupt gate clears IF, a trap gate does not. -/
def interruptGate : Nat := 0xE
def trapGate : Nat := 0xF

/-- Gate `v` of the table at `base`. -/
def gateAt (m : Mem) (base v : Nat) : Gate where
  select := load16 m (base + 8 * v + 2)
  offset := load16 m (base + 8 * v + 6) ++ load16 m (base + 8 * v)
  present := (load16 m (base + 8 * v + 4)).getLsbD 15
  dpl := (load16 m (base + 8 * v + 4)).toNat / 8192 % 4
  kind := (load16 m (base + 8 * v + 4)).toNat / 256 % 32

/-- What `int v` does at privilege level `cpl`: through the gate, or a general protection
fault. -/
def softwareInt (m : Mem) (base limit cpl v : Nat) : Option Gate :=
  if 8 * v + 7 ≤ limit ∧ (gateAt m base v).present = true ∧ cpl ≤ (gateAt m base v).dpl then
    some (gateAt m base v)
  else none

/-! ## The interrupt controllers -/

/-- An 8259A: the command word it waits for (0: none), the vector of its first line and
the mask. -/
structure Pic where
  waiting : Nat
  base : U8
  mask : U8

/-- A write to the command port: bit 4 starts the initialisation; other commands end an
interrupt. -/
def Pic.command (p : Pic) (b : U8) : Pic :=
  if b.getLsbD 4 then { p with waiting := 2, mask := 0#8 } else p

/-- A write to the data port: ICW2 to ICW4, then the mask. -/
def Pic.data (p : Pic) (b : U8) : Pic :=
  match p.waiting with
  | 2 => { p with waiting := 3, base := b }
  | 3 => { p with waiting := 4 }
  | 4 => { p with waiting := 0 }
  | _ => { p with mask := b }

structure Pics where
  master : Pic
  slave : Pic

/-- `outb(port, val)` -/
def Pics.outb (p : Pics) (port : U16) (b : U8) : Pics :=
  if port = 0x20#16 then { p with master := p.master.command b }
  else if port = 0x21#16 then { p with master := p.master.data b }
  else if port = 0xA0#16 then { p with slave := p.slave.command b }
  else if port = 0xA1#16 then { p with slave := p.slave.data b }
  else p

/-- The writes of `init_idt`. -/
def picWrites : List (U16 × U8) :=
  [(0x20, 0x11), (0x21, 0x20), (0x21, 0x04), (0x21, 0x01),
   (0xA0, 0x11), (0xA1, 0x28), (0xA1, 0x02), (0xA1, 0x01),
   (0x21, 0xFC), (0xA1, 0xFF)]

def initPics (p : Pics) : Pics := picWrites.foldl (fun p w => p.outb w.1 w.2) p

/-- The vector a line raises, unless it is masked: lines 8 to 15 are the slave's, which
is on line 2 of the master. -/
def Pics.raises (p : Pics) (line : Nat) : Option Nat :=
  if line < 8 then
    if p.master.mask.getLsbD line then none else some ((p.master.base.toNat + line) % 256)
  else if p.slave.mask.getLsbD (line - 8) || p.master.mask.getLsbD 2 then none
  else some ((p.slave.base.toNat + (line - 8)) % 256)

/-! ## The table -/

/-- The entry point of a vector. -/
def vectorStub (v : Nat) : Stub :=
  if v = 0 then .div0
  else if v = 13 then .gpf
  else if v = 14 then .pagefault
  else if v ≤ 20 ∧ v ≠ 18 then .isr v
  else if v = 32 then .irq0
  else if v = 33 then .irq1
  else if 34 ≤ v ∧ v ≤ 39 then .irq (v - 32)
  else if v = 0x30 then .syscall
  else .default

/-- The gate of a vector: ring 0's code, closed to ring 3 but for the system call. -/
def vectorGate (addr : Stub → U32) (v : Nat) : Gate where
  select := 0x08#16
  offset := addr (vectorStub v)
  present := true
  dpl := if v = 0x30 then 3 else 0
  kind := if v = 0x30 then trapGate else interruptGate

/-- A run of updates: the last one at a key decides. -/
theorem foldl_update {ι α β : Type} [DecidableEq α] (key : ι → α) (val : ι → β) :
    ∀ (l : List ι) (f : α → β) (a : α),
      l.foldl (fun f e => Function.update f (key e) (val e)) f a =
        ((l.reverse.find? fun e => decide (key e = a)).map val).getD (f a) := by
  intro l
  induction l with
  | nil => intro f a; rfl
  | cons e l ih =>
    intro f a
    rw [List.foldl_cons, ih, List.reverse_cons, List.find?_append]
    cases l.reverse.find? fun e => decide (key e = a) with
    | some e' => rfl
    | none =>
      rw [Option.none_or, List.find?_singleton]
      by_cases ha : key e = a
      · simp [ha]
      · simp [ha, Function.update_of_ne (Ne.symm ha)]

/-- What the list of calls leaves for a vector. -/
theorem idtEntries_vector : ∀ v, v < idtSize →
    ((idtEntries.reverse.find? fun e => decide (e.1 = v)).map Prod.snd).getD (.default, 0x8E00#16) =
      (vectorStub v, if v = 0x30 then 0xEF00#16 else 0x8E00#16) := by
  decide +kernel

theorem fillKidt_vector (addr : Stub → U32) (kidt : Nat → IdtDesc) {v : Nat} (hv : v < idtSize) :
    fillKidt addr kidt v = initIdtDesc 0x08#16 (addr (vectorStub v))
      (if v = 0x30 then 0xEF00#16 else 0x8E00#16) := by
  have hloop : forRange 0 idtSize
      (fun i k => Function.update k i (initIdtDesc 0x08#16 (addr .default) 0x8E00#16)) kidt v =
      initIdtDesc 0x08#16 (addr .default) 0x8E00#16 := by
    refine forRange_inv (fun (n : Nat) (k : Nat → IdtDesc) => v < n →
      k v = initIdtDesc 0x08#16 (addr .default) 0x8E00#16) (Nat.zero_le _)
      (fun h => absurd h (Nat.not_lt_zero v)) (fun i k _ _ hk hvi => ?_) hv
    by_cases hvi' : v = i
    · rw [hvi', Function.update_self]
    · rw [Function.update_of_ne hvi']
      exact hk (by omega)
  have hlist := idtEntries_vector v hv
  unfold fillKidt
  rw [foldl_update Prod.fst, hloop]
  cases hfind : idtEntries.reverse.find? fun e => decide (e.1 = v) with
  | none =>
    rw [hfind] at hlist
    obtain ⟨hstub, htype⟩ := Prod.mk.inj hlist
    rw [← hstub, ← htype]
    rfl
  | some e =>
    rw [hfind] at hlist
    have he : e.2 = _ := hlist
    rw [Option.map_some, Option.getD_some, he]

/-! ## The bytes of a descriptor -/

theorem bytes_eq_word16 (w : U16) : (byteOf16 w 1 ++ byteOf16 w 0 : U16) = w := by
  apply BitVec.eq_of_getLsbD_eq
  intro i hi
  simp only [byteOf16, BitVec.getLsbD_append, BitVec.getLsbD_extractLsb']
  by_cases h8 : i < 8
  · simp [h8]
  · simp [h8, show i - 8 < 8 by omega, show 8 + (i - 8) = i by omega]

/-- The two halves of an offset. -/
theorem initIdtDesc_offset (select : U16) (offset : U32) (type : U16) :
    ((initIdtDesc select offset type).offset16_31 ++ (initIdtDesc select offset type).offset0_15 :
      U32) = offset := by
  apply BitVec.eq_of_getLsbD_eq
  intro i hi
  have hlow : ∀ k, k < 32 → (0x0000FFFF#32).getLsbD k = decide (k < 16) := by decide
  have hhigh : ∀ k, k < 32 → (0xFFFF0000#32).getLsbD k = decide (16 ≤ k) := by decide
  simp only [initIdtDesc, BitVec.getLsbD_append, BitVec.getLsbD_setWidth, BitVec.getLsbD_and,
    BitVec.getLsbD_ushiftRight]
  by_cases h16 : i < 16
  · simp [h16, hlow i hi]
  · have hback : 16 + (i - 16) = i := by omega
    simp [h16, hback, hhigh i hi, show i - 16 < 16 by omega, show 16 ≤ i by omega]

/-- A descriptor read back from memory. -/
theorem load16_desc {m : Mem} {a : Nat} {d : IdtDesc} (h : ∀ k, k < 8 → m (a + k) = d.byte k) :
    load16 m a = d.offset0_15 ∧ load16 m (a + 2) = d.select ∧ load16 m (a + 4) = d.type ∧
      load16 m (a + 6) = d.offset16_31 := by
  unfold load16
  refine ⟨?_, ?_, ?_, ?_⟩
  · rw [show m a = _ from h 0 (by omega), h 1 (by omega)]
    exact bytes_eq_word16 _
  · rw [h 2 (by omega), show m (a + 2 + 1) = _ from h 3 (by omega)]
    exact bytes_eq_word16 _
  · rw [h 4 (by omega), show m (a + 4 + 1) = _ from h 5 (by omega)]
    exact bytes_eq_word16 _
  · rw [h 6 (by omega), show m (a + 6 + 1) = _ from h 7 (by omega)]
    exact bytes_eq_word16 _

theorem initIdt_eq (addr : Stub → U32) (kidt : Nat → IdtDesc) (m : Mem) :
    initIdt addr kidt m =
      patch m idtBase idtLimit fun j => (fillKidt addr kidt (j / 8)).byte (j % 8) :=
  forRange_store8 m fun _ _ _ => rfl

/-- The gate of every vector, from memory. -/
theorem gateAt_initIdt (addr : Stub → U32) (kidt : Nat → IdtDesc) (m : Mem) {v : Nat}
    (hv : v < idtSize) : gateAt (initIdt addr kidt m) idtBase v = vectorGate addr v := by
  have hbytes : ∀ k, k < 8 → initIdt addr kidt m (idtBase + 8 * v + k) =
      (fillKidt addr kidt v).byte k := by
    intro k hk
    unfold idtSize at hv
    rw [initIdt_eq, Nat.add_assoc, patch_at (by unfold idtLimit idtSize; omega),
      show (8 * v + k) / 8 = v by omega, show (8 * v + k) % 8 = k by omega]
  obtain ⟨hlow, hsel, htype, hhigh⟩ := load16_desc hbytes
  have hoff := initIdtDesc_offset 0x08#16 (addr (vectorStub v))
    (if v = 0x30 then 0xEF00#16 else 0x8E00#16)
  unfold gateAt
  rw [hlow, hsel, htype, hhigh, fillKidt_vector addr kidt hv, hoff]
  unfold vectorGate initIdtDesc
  split
  next => simp [trapGate]
  next => simp [interruptGate]

/-! ## The controllers -/

/-- From any state of the two controllers. -/
theorem initPics_state (p : Pics) :
    initPics p = ⟨⟨0, 0x20#8, 0xFC#8⟩, ⟨0, 0x28#8, 0xFF#8⟩⟩ := rfl

theorem initPics_raises (p : Pics) : ∀ line, line < 16 →
    (initPics p).raises line = if line < 2 then some (32 + line) else none := by
  rw [initPics_state]
  decide

/-- **The interrupt table.** Wherever the entry points lie and whatever memory and the
controllers held: every vector finds the gate of its entry point, in the kernel's code
segment; ring 3 may raise 0x30 and nothing else, and only there interrupts stay on; of the
sixteen lines exactly the timer and the keyboard are heard, on the entry points of their own.
`kidt` and `kidtr` apart, nothing outside the table is written. -/
theorem idt_gates (addr : Stub → U32) (kidt : Nat → IdtDesc) (m : Mem) (p : Pics) :
    (∀ v, v < idtSize → gateAt (initIdt addr kidt m) idtBase v = vectorGate addr v) ∧
    (∀ v, v < idtSize → (softwareInt (initIdt addr kidt m) idtBase idtLimit 3 v =
      if v = 0x30 then some (vectorGate addr 0x30) else none)) ∧
    (∀ line, line < 16 →
      (initPics p).raises line = if line < 2 then some (32 + line) else none) ∧
    (gateAt (initIdt addr kidt m) idtBase 32).offset = addr .irq0 ∧
    (gateAt (initIdt addr kidt m) idtBase 33).offset = addr .irq1 ∧
    ∀ x, x < 0x500 ∨ 0xD00 ≤ x → initIdt addr kidt m x = m x := by
  have hgate : ∀ v, v < idtSize → gateAt (initIdt addr kidt m) idtBase v = vectorGate addr v :=
    fun v hv => gateAt_initIdt addr kidt m hv
  refine ⟨hgate, fun v hv => ?_, initPics_raises p, ?_, ?_, fun x hx => ?_⟩
  · unfold softwareInt
    rw [hgate v hv]
    unfold idtSize at hv
    by_cases h30 : v = 0x30
    · subst h30
      exact if_pos ⟨by decide, rfl, Nat.le_refl 3⟩
    · rw [if_neg h30]
      refine if_neg fun h => ?_
      have hdpl : 3 ≤ (vectorGate addr v).dpl := h.2.2
      unfold vectorGate at hdpl
      simp only [if_neg h30] at hdpl
      omega
  · rw [hgate 32 (by decide)]
    rfl
  · rw [hgate 33 (by decide)]
    rfl
  · rw [initIdt_eq]
    refine patch_out fun hin => ?_
    unfold InRun idtBase idtLimit idtSize at hin
    omega

end PepinOS
