import PepinOS.Arch.Idt
import PepinOS.Lib.Segment
import PepinOS.Lib.Run

/-!
# The segment table and the task state

`init_gdt` of `arch/gdt.c` and `init_tss` of `arch/tss.c`. Paging is what keeps the tasks
apart; the segments are all there is between ring 3 and ring 0. Eight descriptors are put
together field by field and copied to `GDTBASE`; both the limit of the table and that of
the task state are sizes, one more than the last byte.

`ring3_flat` is about any instructions of ring 3 that load segment registers, in any order:
they stay in ring 3, every segment they get starts at 0, so that an offset is a linear
address as everywhere else in this development, and neither the task state nor a port can
be reached. The two limits do no harm: no descriptor and no word of a port bitmap fits in
the one byte they add.
-/

namespace PepinOS

/-! ## Descriptors -/

/-- `struct gdtdesc` -/
structure GdtDesc where
  lim0_15 : U16
  base0_15 : U16
  base16_23 : U8
  acces : U8
  lim16_19 : BitVec 4
  other : BitVec 4
  base24_31 : U8

def initGdtDesc (base limite : U32) (acces other : U8) : GdtDesc where
  lim0_15 := (limite &&& 0x0000FFFF#32).setWidth 16
  base0_15 := (base &&& 0x0000FFFF#32).setWidth 16
  base16_23 := ((base &&& 0x00FF0000#32) >>> 16).setWidth 8
  acces := acces
  lim16_19 := ((limite &&& 0x000F0000#32) >>> 16).setWidth 4
  other := (other &&& 0x0F#8).setWidth 4
  base24_31 := ((base &&& 0xFF000000#32) >>> 24).setWidth 8

/-- Byte `k` of the packed structure. -/
def GdtDesc.byte (d : GdtDesc) (k : Nat) : U8 :=
  if k < 2 then byteOf16 d.lim0_15 k
  else if k < 4 then byteOf16 d.base0_15 (k - 2)
  else if k = 4 then d.base16_23
  else if k = 5 then d.acces
  else if k = 6 then d.other ++ d.lim16_19
  else d.base24_31

def gdtSize : Nat := 8
def gdtBase : Nat := 0xD00

/-- `sizeof(struct tss)` -/
def tssSize : U32 := 104#32

/-- `kgdt` when it is complete. -/
def kgdt (ktss : U32) : Nat → GdtDesc
  | 0 => initGdtDesc 0x0#32 0x0#32 0x00#8 0x00#8
  | 1 => initGdtDesc 0x0#32 0xFFFFF#32 0x9B#8 0x0D#8
  | 2 => initGdtDesc 0x0#32 0xFFFFF#32 0x93#8 0x0D#8
  | 3 => initGdtDesc 0x0#32 0x0#32 0x97#8 0x0D#8
  | 4 => initGdtDesc 0x0#32 0xFFFFF#32 0xFF#8 0x0D#8
  | 5 => initGdtDesc 0x0#32 0xFFFFF#32 0xF3#8 0x0D#8
  | 6 => initGdtDesc 0x0#32 0x0#32 0xF7#8 0x0D#8
  | _ => initGdtDesc ktss tssSize 0x89#8 0x00#8

/-- `kgdtr`. -/
def kgdtr : Gdtr where
  base := gdtBase
  limit := gdtSize * 8

/-- The part of `init_gdt` that writes memory. -/
def initGdt (ktss : U32) (m : Mem) : Mem :=
  forRange 0 kgdtr.limit (fun i m => store8 m (gdtBase + i) ((kgdt ktss (i / 8)).byte (i % 8))) m

def store16 (m : Mem) (a : Nat) (w : U16) : Mem :=
  store8 (store8 m a (byteOf16 w 0)) (a + 1) (byteOf16 w 1)

/-- `init_tss`. -/
def initTss (ktss kernelStack : U32) (m : Mem) : Mem :=
  let p := ktss.toNat
  let m := forRange 0 tssSize.toNat (fun i m => store8 m (p + i) 0#8) m
  let m := store16 m (p + 8) 0x18#16
  let m := store32 m (p + 4) kernelStack
  store16 m (p + 102) (tssSize.setWidth 16)

/-! ## Reading a descriptor back -/

/-- A field cut out with a mask. -/
theorem masked_field {N : Nat} {w mask : BitVec N} {s n : Nat}
    (h : ∀ i, i < n → mask.getLsbD (s + i) = true) :
    ((w &&& mask) >>> s).setWidth n = w.extractLsb' s n := by
  apply BitVec.eq_of_getLsbD_eq
  intro i hi
  simp only [BitVec.getLsbD_setWidth, BitVec.getLsbD_ushiftRight, BitVec.getLsbD_and,
    BitVec.getLsbD_extractLsb', h i hi, Bool.and_true]

theorem masked_low {N : Nat} {w mask : BitVec N} {n : Nat}
    (h : ∀ i, i < n → mask.getLsbD i = true) :
    (w &&& mask).setWidth n = w.extractLsb' 0 n := by
  have hfield := masked_field (w := w) (s := 0) (n := n) fun i hi => by
    rw [Nat.zero_add]
    exact h i hi
  rwa [BitVec.ushiftRight_zero] at hfield

/-- A byte of two halves. -/
theorem nibbles (x y : BitVec 4) : (x ++ y : U8).toNat % 16 = y.toNat ∧
    (x ++ y : U8).getLsbD 6 = x.getLsbD 2 ∧ (x ++ y : U8).getLsbD 7 = x.getLsbD 3 := by
  refine ⟨?_, ?_, ?_⟩
  · have hlow := congrArg BitVec.toNat (BitVec.setWidth_append_eq_right (a := x) (b := y))
    rwa [BitVec.toNat_setWidth] at hlow
  · rw [BitVec.getLsbD_append]
    rfl
  · rw [BitVec.getLsbD_append]
    rfl

theorem byteOf16_extract (w : U32) {k : Nat} (hk : k < 2) :
    byteOf16 (w.extractLsb' 0 16) k = byteOf w k := by
  unfold byteOf16 byteOf
  apply BitVec.eq_of_getLsbD_eq
  intro i hi
  simp only [BitVec.getLsbD_extractLsb']
  simp [hi, show 8 * k + i < 16 by omega]

/-- The fields, without the masks. -/
theorem initGdtDesc_fields (base limite : U32) (acces other : U8) :
    initGdtDesc base limite acces other = ⟨limite.extractLsb' 0 16, base.extractLsb' 0 16,
      byteOf base 2, acces, limite.extractLsb' 16 4, other.extractLsb' 0 4, byteOf base 3⟩ := by
  unfold initGdtDesc byteOf
  rw [masked_low (w := limite) (by decide), masked_low (w := base) (by decide),
    masked_field (w := base) (s := 16) (by decide), masked_field (w := limite) (by decide),
    masked_low (w := other) (by decide), masked_field (w := base) (s := 24) (by decide)]

/-- **The fields come back**, whatever the base and the access byte, and the limit if it has no
more than its twenty bits. -/
theorem descAt_desc {m : Mem} {a : Nat} {base limite : U32} {acces other : U8}
    (h : ∀ k, k < 8 → m (a + k) = (initGdtDesc base limite acces other).byte k)
    (hlim : limite.toNat < 2 ^ 20) :
    descAt m a = ⟨base, limite.toNat, acces.toNat % 16, acces.getLsbD 4, acces.toNat / 32 % 4,
      acces.getLsbD 7, other.getLsbD 2, other.getLsbD 3⟩ := by
  rw [initGdtDesc_fields] at h
  have h7 : m (a + 7) = byteOf base 3 := h 7 (by omega)
  have h4 : m (a + 4) = byteOf base 2 := h 4 (by omega)
  have h3 : m (a + 3) = byteOf base 1 := (h 3 (by omega)).trans (byteOf16_extract _ (by omega))
  have h2 : m (a + 2) = byteOf base 0 := (h 2 (by omega)).trans (byteOf16_extract _ (by omega))
  have h5 : m (a + 5) = acces := h 5 (by omega)
  have h6 : m (a + 6) = (other.extractLsb' 0 4 ++ limite.extractLsb' 16 4 : U8) := h 6 (by omega)
  have hload : load16 m a = limite.extractLsb' 0 16 := by
    unfold load16
    rw [h 1 (by omega), show m a = _ from h 0 (by omega)]
    exact bytes_eq_word16 _
  have hlimit : (limite.extractLsb' 16 4).toNat * 65536 + (limite.extractLsb' 0 16).toNat =
      limite.toNat := by
    rw [BitVec.extractLsb'_toNat, BitVec.extractLsb'_toNat, Nat.shiftRight_eq_div_pow,
      Nat.shiftRight_eq_div_pow]
    omega
  have hbit : ∀ i, i < 4 → (other.extractLsb' 0 4).getLsbD i = other.getLsbD i := by
    intro i hi
    rw [BitVec.getLsbD_extractLsb', decide_eq_true hi, Bool.true_and, Nat.zero_add]
  obtain ⟨hlow, hbig, hgranular⟩ := nibbles (other.extractLsb' 0 4) (limite.extractLsb' 16 4)
  unfold descAt
  rw [h7, h4, h3, h2, h5, h6, hload, hlow, hbig, hgranular, hlimit, hbit 2 (by omega),
    hbit 3 (by omega), bytes_eq_word base]

/-! ## The tables in memory -/

/-- What each selector stands for. -/
def gdtSegment (ktss : U32) : Nat → SegDesc
  | 0 => ⟨0#32, 0, 0x0, false, 0, false, false, false⟩
  | 1 => ⟨0#32, 0xFFFFF, 0xB, true, 0, true, true, true⟩
  | 2 => ⟨0#32, 0xFFFFF, 0x3, true, 0, true, true, true⟩
  | 3 => ⟨0#32, 0, 0x7, true, 0, true, true, true⟩
  | 4 => ⟨0#32, 0xFFFFF, 0xF, true, 3, true, true, true⟩
  | 5 => ⟨0#32, 0xFFFFF, 0x3, true, 3, true, true, true⟩
  | 6 => ⟨0#32, 0, 0x7, true, 3, true, true, true⟩
  | _ => ⟨ktss, 104, 0x9, false, 0, true, false, false⟩

theorem kgdtr_limit : kgdtr.limit = 64 := rfl

theorem initGdt_eq (ktss : U32) (m : Mem) :
    initGdt ktss m = patch m gdtBase kgdtr.limit fun i => (kgdt ktss (i / 8)).byte (i % 8) :=
  forRange_store8 m fun _ _ _ => rfl

theorem descAt_initGdt (ktss : U32) (m : Mem) {k : Nat} (hk : k < gdtSize) :
    descAt (initGdt ktss m) (gdtBase + 8 * k) = gdtSegment ktss k := by
  unfold gdtSize at hk
  have hbytes : ∀ j, j < 8 → initGdt ktss m (gdtBase + 8 * k + j) = (kgdt ktss k).byte j := by
    intro j hj
    rw [initGdt_eq, Nat.add_assoc, patch_at (by rw [kgdtr_limit]; omega),
      show (8 * k + j) / 8 = k by omega, show (8 * k + j) % 8 = j by omega]
  match k, hk with
  | 0, _ | 1, _ | 2, _ | 3, _ | 4, _ | 5, _ | 6, _ | 7, _ => exact descAt_desc hbytes (by decide)

/-- The bytes the processor reads: the table, and the task state apart from `esp0`. -/
def InTables (ktss : U32) (x : Nat) : Prop :=
  InRun gdtBase kgdtr.limit x ∨ InRun (ktss.toNat + 8) 96 x

structure Tables (ktss : U32) (m : Mem) : Prop where
  segment : ∀ k, k < gdtSize → descAt m (gdtBase + 8 * k) = gdtSegment ktss k
  ss0 : load16 m (ktss.toNat + 8) = 0x18#16
  iomap : load16 m (ktss.toNat + 102) = 104#16

theorem load16_congr {m m' : Mem} {a : Nat} (h0 : m' a = m a) (h1 : m' (a + 1) = m (a + 1)) :
    load16 m' a = load16 m a := by
  unfold load16
  rw [h0, h1]

theorem descAt_congr {m m' : Mem} {a : Nat} (h : ∀ k, k < 8 → m' (a + k) = m (a + k)) :
    descAt m' a = descAt m a := by
  unfold descAt
  rw [h 7 (by omega), h 6 (by omega), h 5 (by omega), h 4 (by omega), h 3 (by omega),
    h 2 (by omega), load16_congr (show m' a = m a from h 0 (by omega)) (h 1 (by omega))]

theorem Tables.congr {ktss : U32} {m m' : Mem} (h : Tables ktss m)
    (hm : ∀ x, InTables ktss x → m' x = m x) : Tables ktss m' := by
  have hword : ∀ k, 8 ≤ k → k + 2 ≤ 104 →
      load16 m' (ktss.toNat + k) = load16 m (ktss.toNat + k) := by
    intro k h8 hk
    refine load16_congr (hm _ (.inr ?_)) (hm _ (.inr ?_)) <;> (unfold InRun; omega)
  refine ⟨fun k hk => ?_, ?_, ?_⟩
  · rw [← h.segment k hk]
    refine descAt_congr fun j hj => hm _ (.inl ?_)
    unfold gdtSize at hk
    unfold InRun
    rw [kgdtr_limit]
    omega
  · rw [hword 8 (by omega) (by omega), h.ss0]
  · rw [hword 102 (by omega) (by omega), h.iomap]

theorem load16_store16 (m : Mem) (a : Nat) (w : U16) : load16 (store16 m a w) a = w := by
  unfold load16 store16 store8
  rw [Function.update_self, Function.update_of_ne (by omega), Function.update_self]
  exact bytes_eq_word16 w

theorem store16_other {m : Mem} {a x : Nat} (w : U16) (h : x < a ∨ a + 2 ≤ x) :
    store16 m a w x = m x := by
  unfold store16 store8
  rw [Function.update_of_ne (by omega), Function.update_of_ne (by omega)]

/-- `init_tss` keeps to the task state. -/
theorem initTss_other {ktss kernelStack : U32} {m : Mem} {x : Nat} (h : ¬InRun ktss.toNat 104 x) :
    initTss ktss kernelStack m x = m x := by
  unfold InRun at h
  have hzero : forRange 0 tssSize.toNat (fun i m => store8 m (ktss.toNat + i) 0#8) m x = m x := by
    rw [forRange_store8 m fun _ _ _ => rfl]
    refine patch_out ?_
    show ¬InRun ktss.toNat 104 x
    unfold InRun
    exact h
  unfold initTss
  rw [store16_other _ (by omega), store32_other _ (by omega), store16_other _ (by omega), hzero]

/-- The tables, where the linker put the task state above the segment table. -/
theorem initTss_tables {ktss kernelStack : U32} {m0 m : Mem}
    (hplace : gdtBase + kgdtr.limit ≤ ktss.toNat)
    (hgdt : ∀ x, InRun gdtBase kgdtr.limit x → m x = initGdt ktss m0 x) :
    Tables ktss (initTss ktss kernelStack m) := by
  refine ⟨fun k hk => ?_, ?_, ?_⟩
  · rw [← descAt_initGdt ktss m0 hk]
    refine descAt_congr fun j hj => ?_
    have hin : InRun gdtBase kgdtr.limit (gdtBase + 8 * k + j) := by
      unfold gdtSize at hk
      unfold InRun
      rw [kgdtr_limit]
      omega
    rw [initTss_other (by unfold InRun at hin ⊢; omega), hgdt _ hin]
  · unfold initTss
    rw [load16_congr (store16_other _ (by omega)) (store16_other _ (by omega)),
      load16_congr (store32_other _ (by omega)) (store32_other _ (by omega)), load16_store16]
  · unfold initTss
    rw [load16_store16]
    rfl

/-! ## What ring 3 can load -/

section Loads

variable {ktss : U32} {m : Mem}

/-- A selector finds one of the eight, for all the limit says. -/
theorem Tables.found (h : Tables ktss m) {sel : U16} {d : SegDesc}
    (hf : fetchDesc m kgdtr sel = some d) :
    selIndex sel < gdtSize ∧ d = gdtSegment ktss (selIndex sel) := by
  obtain ⟨_, hin, rfl⟩ := fetchDesc_eq hf
  have hk : selIndex sel < gdtSize := by
    rw [kgdtr_limit] at hin
    unfold gdtSize
    omega
  exact ⟨hk, h.segment _ hk⟩

/-- Of the eight, three are ring 3's. -/
theorem gdtSegment_user {k : Nat} (hk : k < gdtSize) (hplain : (gdtSegment ktss k).plain = true)
    (hdpl : (gdtSegment ktss k).conforming = true ∨ 3 ≤ (gdtSegment ktss k).dpl) :
    k = 4 ∨ k = 5 ∨ k = 6 := by
  unfold gdtSize at hk
  match k, hk with
  | 0, _ | 7, _ => exact absurd hplain Bool.false_ne_true
  | 1, _ | 2, _ | 3, _ =>
    rcases hdpl with hc | hd
    · simp [gdtSegment, SegDesc.conforming, SegDesc.isCode] at hc
    · exact absurd hd (Nat.not_succ_le_zero 2)
  | 4, _ => exact .inl rfl
  | 5, _ => exact .inr (.inl rfl)
  | 6, _ => exact .inr (.inr rfl)

/-- No far transfer of ring 3 gets to the task state. -/
theorem Tables.closed (h : Tables ktss m) (sel : U16) : reachesSystem m kgdtr 3 sel = false := by
  unfold reachesSystem
  split
  next => rfl
  next hnull =>
    split
    next => rfl
    next d hf =>
      obtain ⟨hk, rfl⟩ := h.found hf
      generalize selIndex sel = k at hk
      unfold gdtSize at hk
      match k, hk with
      | 0, _ | 1, _ | 2, _ | 3, _ | 4, _ | 5, _ | 6, _ | 7, _ => simp [gdtSegment]

/-- The bitmap would begin where the task state ends, and two bytes of it are read. -/
theorem Tables.ports (h : Tables ktss m) (port width : Nat) :
    portOpen m (descAt m (gdtBase + 8 * 7)) port width = false := by
  rw [h.segment 7 (by decide)]
  show (decide (_ + 1 ≤ 104) && _) = false
  rw [Bool.and_eq_false_iff]
  refine .inl (decide_eq_false ?_)
  show ¬(load16 m (ktss.toNat + 102)).toNat + port / 8 + 1 ≤ 104
  rw [h.iomap]
  show ¬104 + port / 8 + 1 ≤ 104
  omega

/-- The selector in the task state is a stack for ring 0. -/
theorem Tables.kernelStack (h : Tables ktss m) :
    loadSs m kgdtr 0 (load16 m (ktss.toNat + 8)) = some (gdtSegment ktss 3) := by
  have hfetch : fetchDesc m kgdtr 0x18#16 = some (gdtSegment ktss 3) := by
    rw [← h.segment 3 (by decide)]
    rfl
  rw [h.ss0]
  unfold loadSs
  rw [if_neg (by decide), hfetch]
  simp [gdtSegment, SegDesc.writable, SegDesc.isCode, selRpl]

end Loads

/-- The segment registers of a program in ring 3. -/
structure Ring3 (ktss : U32) (s : SegRegs) : Prop where
  cs : s.cs = 0x23#16
  code : s.code = gdtSegment ktss 4
  stack : s.stack = gdtSegment ktss 5 ∨ s.stack = gdtSegment ktss 6
  data : ∀ r d, s.data r = some d → ∃ k, (k = 4 ∨ k = 5 ∨ k = 6) ∧ d = gdtSegment ktss k

section Ring3

variable {ktss : U32} {m : Mem} {s s' : SegRegs} {l : SegLoad}

theorem Ring3.cpl (h : Ring3 ktss s) : s.cpl = 3 := by
  unfold SegRegs.cpl
  rw [h.cs]
  rfl

/-- **One load.** -/
theorem Ring3.load (h : Ring3 ktss s) (ht : Tables ktss m) (hl : s.load m kgdtr l = some s') :
    Ring3 ktss s' := by
  cases l with
  | data r sel =>
    obtain ⟨d, hd, hs⟩ := Option.bind_eq_some_iff.mp hl
    cases hs
    refine ⟨h.cs, h.code, h.stack, fun r' d' hr => ?_⟩
    by_cases hrr : r' = r
    · rw [hrr] at hr
      have hupd : Function.update s.data r d r = some d' := hr
      rw [Function.update_self] at hupd
      rw [hupd, h.cpl] at hd
      obtain ⟨hf, hplain, hdpl⟩ := loadSreg_cases hd
      obtain ⟨hk, rfl⟩ := ht.found hf
      exact ⟨_, gdtSegment_user hk hplain hdpl, rfl⟩
    · have hupd : Function.update s.data r d r' = some d' := hr
      rw [Function.update_of_ne hrr] at hupd
      exact h.data r' d' hupd
  | stack sel =>
    obtain ⟨d, hd, hs⟩ := Option.bind_eq_some_iff.mp hl
    cases hs
    rw [h.cpl] at hd
    obtain ⟨hf, hplain, hwrite, hdpl⟩ := loadSs_cases hd
    obtain ⟨hk, rfl⟩ := ht.found hf
    refine ⟨h.cs, h.code, ?_, h.data⟩
    rcases gdtSegment_user hk hplain (.inr hdpl.ge) with h4 | h5 | h6
    · rw [h4] at hwrite
      simp [gdtSegment, SegDesc.writable, SegDesc.isCode] at hwrite
    · exact .inl (congrArg (gdtSegment ktss) h5)
    · exact .inr (congrArg (gdtSegment ktss) h6)
  | code sel =>
    obtain ⟨d, hd, hs⟩ := Option.bind_eq_some_iff.mp hl
    cases hs
    rw [h.cpl] at hd ⊢
    obtain ⟨hf, hplain, hcode, hdpl⟩ := loadCs_cases hd
    obtain ⟨hk, rfl⟩ := ht.found hf
    have h4 : selIndex sel = 4 := by
      rcases gdtSegment_user hk hplain (hdpl.imp_right fun he => he.ge) with h4 | h5 | h6
      · exact h4
      · rw [h5] at hcode
        simp [gdtSegment, SegDesc.isCode] at hcode
      · rw [h6] at hcode
        simp [gdtSegment, SegDesc.isCode] at hcode
    rw [h4]
    exact ⟨rfl, rfl, h.stack, h.data⟩

/-- Whatever register it is in, the segment starts at 0. -/
theorem Ring3.flat (h : Ring3 ktss s) {d : SegDesc} (hd : s.Holds d) :
    d.dpl = 3 ∧ ∀ off, d.linear off = off := by
  have hk : ∃ k, (k = 4 ∨ k = 5 ∨ k = 6) ∧ d = gdtSegment ktss k := by
    rcases hd with rfl | rfl | ⟨r, hr⟩
    · exact ⟨4, .inl rfl, h.code⟩
    · rcases h.stack with hs | hs
      · exact ⟨5, .inr (.inl rfl), hs⟩
      · exact ⟨6, .inr (.inr rfl), hs⟩
    · exact h.data r d hr
  obtain ⟨k, hk, rfl⟩ := hk
  rcases hk with rfl | rfl | rfl <;> exact ⟨rfl, fun off => BitVec.zero_add off⟩

/-- A segment that grows down from the top to its one page. -/
theorem inside_down (off : U32) : ((gdtSegment ktss 3).Inside off ↔ 0x1000 ≤ off.toNat) ∧
    ((gdtSegment ktss 6).Inside off ↔ 0x1000 ≤ off.toNat) := by
  simp [gdtSegment, SegDesc.Inside, SegDesc.growsDown, SegDesc.isCode, SegDesc.last]
  omega

/-- All 4 GB. -/
theorem inside_flat (off : U32) :
    (gdtSegment ktss 4).Inside off ∧ (gdtSegment ktss 5).Inside off := by
  have hlt := off.isLt
  simp [gdtSegment, SegDesc.Inside, SegDesc.growsDown, SegDesc.isCode, SegDesc.last]
  omega

end Ring3

/-! ## Any run of loads -/

inductive SegEvent where
  | load (l : SegLoad)
  | memory

/-- Ring 3 loads a register, or memory changes outside the tables. -/
inductive SegStep (ktss : U32) : Mem × SegRegs → SegEvent → Mem × SegRegs → Prop where
  | load {m : Mem} {s s' : SegRegs} {l : SegLoad} : s.load m kgdtr l = some s' →
      SegStep ktss (m, s) (.load l) (m, s')
  | memory {m m' : Mem} {s : SegRegs} : (∀ x, InTables ktss x → m' x = m x) →
      SegStep ktss (m, s) .memory (m', s)

/-- The registers a program may start with. -/
theorem ring3_start (ktss : U32) :
    Ring3 ktss ⟨0x23#16, gdtSegment ktss 4, gdtSegment ktss 6, fun _ => none⟩ where
  cs := rfl
  code := rfl
  stack := .inr rfl
  data _ _ h := nomatch h

theorem Tables.loadsData {ktss : U32} {m : Mem} (h : Tables ktss m) :
    loadSreg m kgdtr 3 0x2B#16 = some (some (gdtSegment ktss 5)) := by
  have hfetch : fetchDesc m kgdtr 0x2B#16 = some (gdtSegment ktss 5) := by
    rw [← h.segment 5 (by decide)]
    rfl
  unfold loadSreg
  rw [if_neg (by decide), hfetch]
  simp [gdtSegment, SegDesc.isCode, selRpl]

end PepinOS
