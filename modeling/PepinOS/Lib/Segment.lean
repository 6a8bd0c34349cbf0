import PepinOS.Lib.Mem

/-!
# Segments

Protected mode apart from paging: the descriptor the processor finds for a selector, the
loads of segment registers it lets pass at a privilege level, and the ports the task state
opens. There is no local table. What leaves a privilege level, a gate or a return to an
outer ring, is not here; `reachesSystem` is where a far transfer would try.

Every load goes through `fetchDesc`, so what a program can have in its registers follows from
the descriptors in the table alone.
-/

namespace PepinOS

/-- A descriptor as the processor reads it. `plain` is the S bit: code or data. -/
structure SegDesc where
  base : U32
  limit : Nat
  kind : Nat
  plain : Bool
  dpl : Nat
  present : Bool
  big : Bool
  granular : Bool
  deriving DecidableEq

/-- The descriptor in the eight bytes at `a`. -/
def descAt (m : Mem) (a : Nat) : SegDesc where
  base := (m (a + 7) ++ m (a + 4)) ++ (m (a + 3) ++ m (a + 2))
  limit := (m (a + 6)).toNat % 16 * 65536 + (load16 m a).toNat
  kind := (m (a + 5)).toNat % 16
  plain := (m (a + 5)).getLsbD 4
  dpl := (m (a + 5)).toNat / 32 % 4
  present := (m (a + 5)).getLsbD 7
  big := (m (a + 6)).getLsbD 6
  granular := (m (a + 6)).getLsbD 7

namespace SegDesc

variable (d : SegDesc)

def isCode : Bool := d.kind / 8 % 2 == 1

def conforming : Bool := d.isCode && d.kind / 4 % 2 == 1

def growsDown : Bool := !d.isCode && d.kind / 4 % 2 == 1

def readable : Bool := d.isCode && d.kind / 2 % 2 == 1

def writable : Bool := !d.isCode && d.kind / 2 % 2 == 1

/-- The limit in bytes. -/
def last : Nat := if d.granular then d.limit * 4096 + 4095 else d.limit

/-- The offsets of the segment. -/
def Inside (off : U32) : Prop :=
  if d.growsDown then d.last < off.toNat ∧ (d.big = false → off.toNat < 65536)
  else off.toNat ≤ d.last

instance (off : U32) : Decidable (d.Inside off) := by
  unfold Inside
  infer_instance

def linear (off : U32) : U32 := d.base + off

end SegDesc

/-! ## Selectors -/

/-- GDTR. -/
structure Gdtr where
  base : Nat
  limit : Nat

def selIndex (sel : U16) : Nat := sel.toNat / 8
def selRpl (sel : U16) : Nat := sel.toNat % 4
def selLocal (sel : U16) : Bool := sel.getLsbD 2

/-- The null selector, with any privilege. -/
def selNull (sel : U16) : Bool := sel.toNat / 4 == 0

variable (m : Mem) (g : Gdtr)

/-- The whole descriptor must lie inside the table. -/
def fetchDesc (sel : U16) : Option SegDesc :=
  if selLocal sel = false ∧ 8 * selIndex sel + 7 ≤ g.limit then
    some (descAt m (g.base + 8 * selIndex sel))
  else none

/-- A load of DS, ES, FS or GS: `none` is a fault, `some none` the null selector. -/
def loadSreg (cpl : Nat) (sel : U16) : Option (Option SegDesc) :=
  if selNull sel then some none
  else do
    let d ← fetchDesc m g sel
    if d.plain ∧ d.present ∧ (d.isCode = false ∨ d.readable) ∧
        (d.conforming ∨ (selRpl sel ≤ d.dpl ∧ cpl ≤ d.dpl)) then some (some d)
    else none

/-- A load of SS. -/
def loadSs (cpl : Nat) (sel : U16) : Option SegDesc :=
  if selNull sel then none
  else do
    let d ← fetchDesc m g sel
    if d.plain ∧ d.present ∧ d.writable ∧ selRpl sel = cpl ∧ d.dpl = cpl then some d
    else none

/-- A far jump or call to a code segment, or a return within the ring. -/
def loadCs (cpl : Nat) (sel : U16) : Option SegDesc :=
  if selNull sel then none
  else do
    let d ← fetchDesc m g sel
    if d.plain ∧ d.present ∧ d.isCode ∧ ((d.conforming ∧ d.dpl ≤ cpl) ∨
        (d.conforming = false ∧ selRpl sel ≤ cpl ∧ d.dpl = cpl)) then some d
    else none

/-- A far transfer to a gate or a task gets past the check of its privilege. -/
def reachesSystem (cpl : Nat) (sel : U16) : Bool :=
  if selNull sel then false
  else match fetchDesc m g sel with
    | none => false
    | some d => !d.plain && decide (cpl ≤ d.dpl) && decide (selRpl sel ≤ d.dpl)

/-! ## The registers -/

/-- The segment registers with the descriptors behind them; DS, ES, FS and GS may be null. -/
structure SegRegs where
  cs : U16
  code : SegDesc
  stack : SegDesc
  data : Fin 4 → Option SegDesc

def SegRegs.cpl (s : SegRegs) : Nat := selRpl s.cs

/-- What an instruction can do to them without leaving the ring. -/
inductive SegLoad where
  | data (r : Fin 4) (sel : U16)
  | stack (sel : U16)
  | code (sel : U16)

/-- The new CS has the old privilege, whatever the selector asked for. -/
def SegRegs.load (s : SegRegs) : SegLoad → Option SegRegs
  | .data r sel => do
    let d ← loadSreg m g s.cpl sel
    some { s with data := Function.update s.data r d }
  | .stack sel => do
    let d ← loadSs m g s.cpl sel
    some { s with stack := d }
  | .code sel => do
    let d ← loadCs m g s.cpl sel
    some { s with cs := BitVec.ofNat 16 (8 * selIndex sel + s.cpl), code := d }

/-- A segment some register holds. -/
def SegRegs.Holds (s : SegRegs) (d : SegDesc) : Prop :=
  d = s.code ∨ d = s.stack ∨ ∃ r, s.data r = some d

/-! ## Ports -/

/-- Below its I/O privilege a program may use a port if the bitmap, whose offset is the last
word of the task state, has its bits clear. Two bytes of it are read. -/
def portOpen (tss : SegDesc) (port width : Nat) : Bool :=
  let at' := (load16 m (tss.base.toNat + 102)).toNat + port / 8
  decide (at' + 1 ≤ tss.last) &&
    (List.range width).all fun k =>
      !(load16 m (tss.base.toNat + at')).getLsbD (port % 8 + k)

/-! ## What a load finds -/

section

variable {m : Mem} {g : Gdtr} {cpl : Nat} {sel : U16} {d : SegDesc}

theorem fetchDesc_eq (h : fetchDesc m g sel = some d) : selLocal sel = false ∧
    8 * selIndex sel + 7 ≤ g.limit ∧ d = descAt m (g.base + 8 * selIndex sel) := by
  unfold fetchDesc at h
  split at h
  next hin => exact ⟨hin.1, hin.2, (Option.some.inj h).symm⟩
  next => cases h

/-- A data register gets a segment no more privileged than its program, unless it is
conforming code. -/
theorem loadSreg_cases (h : loadSreg m g cpl sel = some (some d)) :
    fetchDesc m g sel = some d ∧ d.plain = true ∧ (d.conforming = true ∨ cpl ≤ d.dpl) := by
  unfold loadSreg at h
  split at h
  next => cases h
  next =>
    obtain ⟨d', hf, h⟩ := Option.bind_eq_some_iff.mp h
    split at h
    next hc =>
      cases h
      exact ⟨hf, hc.1, hc.2.2.2.imp_right And.right⟩
    next => cases h

theorem loadSs_cases (h : loadSs m g cpl sel = some d) :
    fetchDesc m g sel = some d ∧ d.plain = true ∧ d.writable = true ∧ d.dpl = cpl := by
  unfold loadSs at h
  split at h
  next => cases h
  next =>
    obtain ⟨d', hf, h⟩ := Option.bind_eq_some_iff.mp h
    split at h
    next hc =>
      cases h
      exact ⟨hf, hc.1, hc.2.2.1, hc.2.2.2.2⟩
    next => cases h

theorem loadCs_cases (h : loadCs m g cpl sel = some d) :
    fetchDesc m g sel = some d ∧ d.plain = true ∧ d.isCode = true ∧
      (d.conforming = true ∨ d.dpl = cpl) := by
  unfold loadCs at h
  split at h
  next => cases h
  next =>
    obtain ⟨d', hf, h⟩ := Option.bind_eq_some_iff.mp h
    split at h
    next hc =>
      cases h
      exact ⟨hf, hc.1, hc.2.2.1, hc.2.2.2.imp And.left fun hn => hn.2.2⟩
    next => cases h

end

end PepinOS
