import Mathlib.Logic.Function.Basic
import PepinOS.Drivers.Ide
import PepinOS.Lib.Mem
import PepinOS.Lib.Run

/-!
# The driver and the drive

`drivers/ide.c` port by port, against a drive that works on its own. The drive takes
commands when it is idle, is busy for as long as it likes, and moves 256 words through its
data register; what it does when a register is written at any other time it does not say,
and `none` is that. The driver's loops over the status register are steps that leave it
where it is.

`IdeInv` says for each place in the driver what the drive can be doing. From it come the
two facts about every interleaving: what a read hands over is what the last completed write
to the sector has stored, and the one access the drive is not ready for is the flush
command of `ide_write_sector`, which is sent right behind the last word.
-/

namespace PepinOS

/-! ## The drive -/

/-- What the drive is doing. -/
inductive DriveAt where
  | idle
  /-- READ SECTORS: busy -/
  | fetching (n : Nat)
  | dataIn (words : Nat → U16) (k : Nat)
  /-- WRITE SECTORS: busy -/
  | preparing (n : Nat)
  | dataOut (n : Nat) (words : Nat → U16) (k : Nat)
  /-- all words received: busy -/
  | storing (n : Nat) (words : Nat → U16)
  /-- FLUSH CACHE: busy -/
  | flushing

/-- A sector is 256 words. -/
def sectorWords : Nat := 256

structure Drive where
  regs : IdeRegs
  doing : DriveAt
  sectors : Nat → Nat → U16

/-- BSY of the status register. -/
def DriveAt.busy : DriveAt → Bool
  | .idle | .dataIn .. | .dataOut .. => false
  | _ => true

/-- DRQ. -/
def DriveAt.drq : DriveAt → Bool
  | .dataIn .. | .dataOut .. => true
  | _ => false

/-- A register of the drive is written. -/
def Drive.setRegs (d : Drive) (f : IdeRegs → IdeRegs) : Option Drive :=
  match d.doing with
  | .idle => some { d with regs := f d.regs }
  | _ => none

def ideCmdRead : U8 := 0x20#8
def ideCmdWrite : U8 := 0x30#8
def ideCmdFlush : U8 := 0xE7#8

/-- The command register. -/
def Drive.command (d : Drive) (b : U8) : Option Drive :=
  match d.doing with
  | .idle =>
    if b = ideCmdRead then some { d with doing := .fetching d.regs.lba28 }
    else if b = ideCmdWrite then some { d with doing := .preparing d.regs.lba28 }
    else if b = ideCmdFlush then some { d with doing := .flushing }
    else none
  | _ => none

/-- `inw(IDE_DATA)` -/
def Drive.inw (d : Drive) : Option (U16 × Drive) :=
  match d.doing with
  | .dataIn words k =>
    some (words k, { d with doing := if k + 1 < sectorWords then .dataIn words (k + 1) else .idle })
  | _ => none

/-- `outw(IDE_DATA, w)` -/
def Drive.outw (d : Drive) (w : U16) : Option Drive :=
  match d.doing with
  | .dataOut n words k =>
    let words := Function.update words k w
    some { d with
      doing := if k + 1 < sectorWords then .dataOut n words (k + 1) else .storing n words }
  | _ => none

/-- What the drive does on its own. -/
def Drive.advance (d : Drive) : Option Drive :=
  match d.doing with
  | .fetching n => some { d with doing := .dataIn (d.sectors n) 0 }
  | .preparing n => some { d with doing := .dataOut n (fun _ => 0#16) 0 }
  | .storing n words => some { d with doing := .idle, sectors := Function.update d.sectors n words }
  | .flushing => some { d with doing := .idle }
  | _ => none

/-! ## The driver -/

inductive IdeCall where
  | read (lba : U32)
  | write (lba : U32) (buf : Nat → U16)

def IdeCall.lba : IdeCall → U32
  | .read lba => lba
  | .write lba _ => lba

/-- The sector the call is about. -/
def IdeCall.sector (c : IdeCall) : Nat := (ideSelectSector c.lba).lba28

def IdeCall.cmd : IdeCall → U8
  | .read _ => ideCmdRead
  | .write .. => ideCmdWrite

/-- The five `outb` of `ide_select_sector`. -/
def ideSelectWrite (lba : U32) : Nat → IdeRegs → IdeRegs
  | 0, r => { r with driveHead := (ideSelectSector lba).driveHead }
  | 1, r => { r with secCount := (ideSelectSector lba).secCount }
  | 2, r => { r with lbaLo := (ideSelectSector lba).lbaLo }
  | 3, r => { r with lbaMid := (ideSelectSector lba).lbaMid }
  | _, r => { r with lbaHi := (ideSelectSector lba).lbaHi }

/-- Where the driver is. -/
inductive IdePc where
  | idle
  /-- `ide_wait_ready` at the start of `ide_select_sector` -/
  | ready (c : IdeCall)
  | select (c : IdeCall) (j : Nat)
  | command (c : IdeCall)
  /-- `ide_wait_drq` -/
  | drq (c : IdeCall)
  | dataIn (lba : U32) (got : Nat → U16) (i : Nat)
  | dataOut (lba : U32) (buf : Nat → U16) (i : Nat)
  | flush (lba : U32) (buf : Nat → U16)
  /-- `ide_wait_ready` at the end of `ide_write_sector` -/
  | flushed (lba : U32) (buf : Nat → U16)

inductive IdeEvent where
  | call (c : IdeCall)
  | access
  | drive
  /-- `ide_read_sector` has returned, with `words` in the buffer -/
  | read (lba : U32) (words : Nat → U16)
  /-- `ide_write_sector` has returned -/
  | wrote (lba : U32) (buf : Nat → U16)

/-- The words of the call are moved when DRQ is seen. -/
def IdeCall.transfer : IdeCall → IdePc
  | .read lba => .dataIn lba (fun _ => 0#16) 0
  | .write lba buf => .dataOut lba buf 0

/-- The driver's next access to a port. -/
def IdePc.exec : IdePc → Drive → Option (IdeEvent × IdePc × Drive)
  | .idle, _ => none
  | .ready c, d => some (.access, if d.doing.busy then .ready c else .select c 0, d)
  | .select c j, d => do
    let d ← d.setRegs (ideSelectWrite c.lba j)
    some (.access, if j + 1 < 5 then .select c (j + 1) else .command c, d)
  | .command c, d => do
    let d ← d.command c.cmd
    some (.access, .drq c, d)
  | .drq c, d => some (.access, if d.doing.busy || !d.doing.drq then .drq c else c.transfer, d)
  | .dataIn lba got i, d => do
    let (w, d) ← d.inw
    let got := Function.update got i w
    if i + 1 < sectorWords then some (.access, .dataIn lba got (i + 1), d)
    else some (.read lba got, .idle, d)
  | .dataOut lba buf i, d => do
    let d ← d.outw (buf i)
    some (.access, if i + 1 < sectorWords then .dataOut lba buf (i + 1) else .flush lba buf, d)
  | .flush lba buf, d => do
    let d ← d.command ideCmdFlush
    some (.access, .flushed lba buf, d)
  | .flushed lba buf, d =>
    if d.doing.busy then some (.access, .flushed lba buf, d) else some (.wrote lba buf, .idle, d)

/-- The driver's next access, a call of it, or a move of the drive. -/
inductive IdeStep : IdePc × Drive → IdeEvent → IdePc × Drive → Prop where
  | call {d : Drive} (c : IdeCall) : IdeStep (.idle, d) (.call c) (.ready c, d)
  | access {pc pc' : IdePc} {d d' : Drive} {e : IdeEvent} : pc.exec d = some (e, pc', d') →
      IdeStep (pc, d) e (pc', d')
  | drive {pc : IdePc} {d d' : Drive} : d.advance = some d' → IdeStep (pc, d) .drive (pc, d')

/-! ## The store -/

/-- The sectors after the writes of a history, the newest first, that have returned. -/
def stored (init : Nat → Nat → U16) : List IdeEvent → Nat → Nat → U16
  | [], n => init n
  | .wrote lba buf :: h, n => if n = lba.toNat % 2 ^ 28 then buf else stored init h n
  | _ :: h, n => stored init h n

/-- Every read of the history has returned what was stored before it. -/
def ReadsBack (init : Nat → Nat → U16) : List IdeEvent → Prop
  | [] => True
  | .read lba words :: h =>
    (∀ j, j < sectorWords → words j = stored init h (lba.toNat % 2 ^ 28) j) ∧ ReadsBack init h
  | _ :: h => ReadsBack init h

/-- The calls made, the newest first. -/
def begun (h : List IdeEvent) : List IdeCall :=
  h.filterMap fun e => match e with
    | .call c => some c
    | _ => none

/-- The calls that have returned. -/
def ended (h : List IdeEvent) : List IdeCall :=
  h.filterMap fun e => match e with
    | .read lba _ => some (.read lba)
    | .wrote lba buf => some (.write lba buf)
    | _ => none

/-! ## What the drive can be doing -/

/-- The first `j` registers are those of the sector. -/
structure Selected (lba : U32) (j : Nat) (r : IdeRegs) : Prop where
  driveHead : 0 < j → r.driveHead = (ideSelectSector lba).driveHead
  secCount : 1 < j → r.secCount = (ideSelectSector lba).secCount
  lbaLo : 2 < j → r.lbaLo = (ideSelectSector lba).lbaLo
  lbaMid : 3 < j → r.lbaMid = (ideSelectSector lba).lbaMid
  lbaHi : 4 < j → r.lbaHi = (ideSelectSector lba).lbaHi

/-- The drive holds what the completed writes have stored. -/
def Stores (init : Nat → Nat → U16) (h : List IdeEvent) (d : Drive) : Prop :=
  ∀ n j, j < sectorWords → d.sectors n j = stored init h n j

/-- The transfer of call `c` has been asked for. -/
def Asked (c : IdeCall) (d : Drive) : Prop :=
  match c with
  | .read _ => d.doing = .fetching c.sector ∨ d.doing = .dataIn (d.sectors c.sector) 0
  | .write .. => d.doing = .preparing c.sector ∨ ∃ words, d.doing = .dataOut c.sector words 0

/-- What holds where the driver is. -/
def IdeAt (init : Nat → Nat → U16) (h : List IdeEvent) (d : Drive) : IdePc → Prop
  | .idle => d.doing = .idle ∧ Stores init h d ∧ begun h = ended h
  | .ready c => d.doing = .idle ∧ Stores init h d ∧ begun h = c :: ended h
  | .select c j => (d.doing = .idle ∧ Stores init h d ∧ begun h = c :: ended h) ∧ j < 5 ∧
      Selected c.lba j d.regs
  | .command c => (d.doing = .idle ∧ Stores init h d ∧ begun h = c :: ended h) ∧
      d.regs = ideSelectSector c.lba
  | .drq c => Asked c d ∧ Stores init h d ∧ begun h = c :: ended h
  | .dataIn lba got i => (Stores init h d ∧ begun h = .read lba :: ended h) ∧ i < sectorWords ∧
      d.doing = .dataIn (d.sectors (IdeCall.read lba).sector) i ∧
      ∀ j, j < i → got j = d.sectors (IdeCall.read lba).sector j
  | .dataOut lba buf i => (Stores init h d ∧ begun h = .write lba buf :: ended h) ∧ i < sectorWords ∧
      ∃ words, d.doing = .dataOut (IdeCall.write lba buf).sector words i ∧
        ∀ j, j < i → words j = buf j
  | .flush lba buf => begun h = .write lba buf :: ended h ∧
      ((Stores init h d ∧ ∃ words, d.doing = .storing (IdeCall.write lba buf).sector words ∧
        ∀ j, j < sectorWords → words j = buf j) ∨
      (d.doing = .idle ∧ Stores init (.wrote lba buf :: h) d))
  | .flushed lba buf => begun h = .write lba buf :: ended h ∧
      (d.doing = .flushing ∨ d.doing = .idle) ∧ Stores init (.wrote lba buf :: h) d

/-- The invariant of driver and drive. -/
structure IdeInv (init : Nat → Nat → U16) (h : List IdeEvent) (s : IdePc × Drive) : Prop where
  reads : ReadsBack init h
  place : IdeAt init h s.2 s.1

/-- How far the driver is from returning. -/
def IdePc.rank : IdePc → Nat
  | .idle => 0
  | .flushed .. => 1
  | .flush .. => 2
  | .dataIn _ _ i | .dataOut _ _ i => 2 + (sectorWords - i)
  | .drq _ => 3 + sectorWords
  | .command _ => 4 + sectorWords
  | .select _ j => 4 + sectorWords + (5 - j)
  | .ready _ => 10 + sectorWords

/-- A busy drive is one move further. -/
def ideRank (s : IdePc × Drive) : Nat := 2 * s.1.rank + s.2.doing.busy.toNat

theorem ideRank_lt {pc pc' : IdePc} (d d' : Drive) (h : pc'.rank < pc.rank) :
    ideRank (pc', d') < ideRank (pc, d) := by
  have := Bool.toNat_le d'.doing.busy
  show 2 * pc'.rank + d'.doing.busy.toNat < 2 * pc.rank + d.doing.busy.toNat
  omega

theorem transfer_rank (c : IdeCall) : c.transfer.rank < (IdePc.drq c).rank := by
  cases c <;> simp only [IdeCall.transfer, IdePc.rank] <;> omega

theorem sector_eq (c : IdeCall) : c.sector = c.lba.toNat % 2 ^ 28 := ideSelectSector_lba28 c.lba

section

variable {init : Nat → Nat → U16} {h : List IdeEvent} {d d' : Drive}

theorem Selected.write {lba : U32} {j : Nat} {r : IdeRegs} (hs : Selected lba j r) (hj : j < 5) :
    Selected lba (j + 1) (ideSelectWrite lba j r) := by
  rcases (show j = 0 ∨ j = 1 ∨ j = 2 ∨ j = 3 ∨ j = 4 by omega) with rfl | rfl | rfl | rfl | rfl
  · exact ⟨fun _ => rfl, nofun, nofun, nofun, nofun⟩
  · exact ⟨fun _ => hs.driveHead (by omega), fun _ => rfl, nofun, nofun, nofun⟩
  · exact ⟨fun _ => hs.driveHead (by omega), fun _ => hs.secCount (by omega), fun _ => rfl, nofun,
      nofun⟩
  · exact ⟨fun _ => hs.driveHead (by omega), fun _ => hs.secCount (by omega),
      fun _ => hs.lbaLo (by omega), fun _ => rfl, nofun⟩
  · exact ⟨fun _ => hs.driveHead (by omega), fun _ => hs.secCount (by omega),
      fun _ => hs.lbaLo (by omega), fun _ => hs.lbaMid (by omega), fun _ => rfl⟩

theorem Selected.all {lba : U32} {r : IdeRegs} (hs : Selected lba 5 r) :
    r = ideSelectSector lba := by
  obtain ⟨a, b, c, e, f⟩ := r
  rw [show a = _ from hs.driveHead (by omega), show b = _ from hs.secCount (by omega),
    show c = _ from hs.lbaLo (by omega), show e = _ from hs.lbaMid (by omega),
    show f = _ from hs.lbaHi (by omega)]

/-- A drive that waits for the driver does nothing on its own. -/
theorem advance_waits (hb : d.doing.busy = false) : d.advance = none := by
  unfold Drive.advance
  cases hd : d.doing with
  | idle => rfl
  | dataIn => rfl
  | dataOut => rfl
  | _ =>
    rw [hd] at hb
    cases hb

theorem idle_waits (hd : d.doing = .idle) : d.advance = none := advance_waits (by rw [hd]; rfl)

/-- A write is stored. -/
theorem Stores.wrote (hh : Stores init h d) {lba : U32} {buf words : Nat → U16}
    (hw : ∀ j, j < sectorWords → words j = buf j) (a : DriveAt) :
    Stores init (.wrote lba buf :: h) { d with
      doing := a
      sectors := Function.update d.sectors (IdeCall.write lba buf).sector words } := by
  intro n j hj
  have hn : (IdeCall.write lba buf).sector = lba.toNat % 2 ^ 28 := sector_eq _
  show Function.update d.sectors _ words n j =
    (if n = lba.toNat % 2 ^ 28 then buf else stored init h n) j
  rw [hn]
  by_cases h' : n = lba.toNat % 2 ^ 28
  · rw [if_pos h', h', Function.update_self]
    exact hw j hj
  · rw [if_neg h', Function.update_of_ne h']
    exact hh n j hj

theorem Asked.advance {c : IdeCall} (ha : Asked c d) (hd : d.advance = some d') :
    Asked c d' ∧ d'.sectors = d.sectors := by
  cases c with
  | read lba =>
    rcases ha with ha | ha
    · unfold Drive.advance at hd
      rw [ha] at hd
      cases hd
      exact ⟨.inr rfl, rfl⟩
    · rw [advance_waits (by rw [ha]; rfl)] at hd
      cases hd
  | write lba buf =>
    rcases ha with ha | ⟨words, ha⟩
    · unfold Drive.advance at hd
      rw [ha] at hd
      cases hd
      exact ⟨.inr ⟨_, rfl⟩, rfl⟩
    · rw [advance_waits (by rw [ha]; rfl)] at hd
      cases hd

/-- The drive's own moves. -/
theorem IdeAt.advance {pc : IdePc} (hat : IdeAt init h d pc) (hd : d.advance = some d') :
    IdeAt init (.drive :: h) d' pc := by
  cases pc with
  | idle =>
    rw [idle_waits hat.1] at hd
    cases hd
  | ready c =>
    rw [idle_waits hat.1] at hd
    cases hd
  | select c j =>
    rw [idle_waits hat.1.1] at hd
    cases hd
  | command c =>
    rw [idle_waits hat.1.1] at hd
    cases hd
  | drq c =>
    obtain ⟨ha, hh, hcalls⟩ := hat
    obtain ⟨ha', hs⟩ := ha.advance hd
    refine ⟨ha', fun n j hj => ?_, hcalls⟩
    rw [hs]
    exact hh n j hj
  | dataIn lba got i =>
    rw [advance_waits (by rw [hat.2.2.1]; rfl)] at hd
    cases hd
  | dataOut lba buf i =>
    obtain ⟨_, _, words, hdoing, _⟩ := hat
    rw [advance_waits (by rw [hdoing]; rfl)] at hd
    cases hd
  | flush lba buf =>
    obtain ⟨hcalls, ⟨hh, words, hdoing, hw⟩ | ⟨hdoing, _⟩⟩ := hat
    · unfold Drive.advance at hd
      rw [hdoing] at hd
      cases hd
      exact ⟨hcalls, .inr ⟨rfl, hh.wrote hw _⟩⟩
    · rw [idle_waits hdoing] at hd
      cases hd
  | flushed lba buf =>
    obtain ⟨hcalls, hdoing | hdoing, hh⟩ := hat
    · unfold Drive.advance at hd
      rw [hdoing] at hd
      cases hd
      exact ⟨hcalls, .inr rfl, hh⟩
    · rw [idle_waits hdoing] at hd
      cases hd

/-- A poll leaves the driver where it is or takes it on. -/
theorem exec_ready {c : IdeCall} (hat : IdeAt init h d (.ready c)) :
    (IdePc.ready c).exec d = some (.access, .select c 0, d) := by
  show some (_, if d.doing.busy then _ else _, d) = _
  rw [hat.1]
  rfl

theorem IdeAt.ready {c : IdeCall} (hat : IdeAt init h d (.ready c)) :
    IdeAt init (.access :: h) d (.select c 0) :=
  ⟨hat, by omega, nofun, nofun, nofun, nofun, nofun⟩

theorem exec_select {c : IdeCall} {j : Nat} (hat : IdeAt init h d (.select c j)) :
    (IdePc.select c j).exec d = some (.access, if j + 1 < 5 then .select c (j + 1) else .command c,
      { d with regs := ideSelectWrite c.lba j d.regs }) := by
  show ((d.setRegs _) >>= _) = _
  unfold Drive.setRegs
  rw [hat.1.1]
  rfl

theorem IdeAt.select {c : IdeCall} {j : Nat} (hat : IdeAt init h d (.select c j)) :
    IdeAt init (.access :: h) { d with regs := ideSelectWrite c.lba j d.regs }
      (if j + 1 < 5 then .select c (j + 1) else .command c) := by
  obtain ⟨hrest, hj, hsel⟩ := hat
  split
  next h5 => exact ⟨hrest, h5, hsel.write hj⟩
  next h5 =>
    have hwrite := hsel.write hj
    rw [show j + 1 = 5 by omega] at hwrite
    exact ⟨hrest, hwrite.all⟩

theorem exec_command {c : IdeCall} (hat : IdeAt init h d (.command c)) :
    ∃ d', (IdePc.command c).exec d = some (.access, .drq c, d') ∧
      IdeAt init (.access :: h) d' (.drq c) := by
  obtain ⟨⟨hdoing, hrest⟩, hregs⟩ := hat
  have hsector : d.regs.lba28 = c.sector := congrArg IdeRegs.lba28 hregs
  cases c with
  | read lba =>
    refine ⟨{ d with doing := .fetching d.regs.lba28 }, ?_, .inl ?_, hrest⟩
    · show ((d.command ideCmdRead) >>= _) = _
      unfold Drive.command
      rw [hdoing]
      rfl
    · rw [hsector]
  | write lba buf =>
    refine ⟨{ d with doing := .preparing d.regs.lba28 }, ?_, .inl ?_, hrest⟩
    · show ((d.command ideCmdWrite) >>= _) = _
      unfold Drive.command
      rw [hdoing]
      rfl
    · rw [hsector]

theorem exec_drq {c : IdeCall} (hat : IdeAt init h d (.drq c)) :
    ∃ pc', (IdePc.drq c).exec d = some (.access, pc', d) ∧ IdeAt init (.access :: h) d pc' ∧
      (pc'.rank < (IdePc.drq c).rank ∨ d.doing.busy = true) := by
  obtain ⟨ha, hh, hcalls⟩ := hat
  refine ⟨if d.doing.busy || !d.doing.drq then .drq c else c.transfer, rfl, ?_⟩
  cases c with
  | read lba =>
    rcases ha with ha | ha
    · rw [show (d.doing.busy || !d.doing.drq) = true by rw [ha]; rfl]
      exact ⟨⟨.inl ha, hh, hcalls⟩, .inr (by rw [ha]; rfl)⟩
    · rw [show (d.doing.busy || !d.doing.drq) = false by rw [ha]; rfl, if_neg Bool.false_ne_true]
      exact ⟨⟨⟨hh, hcalls⟩, by decide, ha, fun j hj => absurd hj (Nat.not_lt_zero j)⟩,
        .inl (transfer_rank (.read lba))⟩
  | write lba buf =>
    rcases ha with ha | ⟨words, ha⟩
    · rw [show (d.doing.busy || !d.doing.drq) = true by rw [ha]; rfl]
      exact ⟨⟨.inl ha, hh, hcalls⟩, .inr (by rw [ha]; rfl)⟩
    · rw [show (d.doing.busy || !d.doing.drq) = false by rw [ha]; rfl, if_neg Bool.false_ne_true]
      exact ⟨⟨⟨hh, hcalls⟩, by decide, words, ha, fun j hj => absurd hj (Nat.not_lt_zero j)⟩,
        .inl (transfer_rank (.write lba buf))⟩

/-- The words so far, and one more. -/
theorem update_agrees {f g : Nat → U16} {i : Nat} (hf : ∀ j, j < i → f j = g j) :
    ∀ j, j < i + 1 → Function.update f i (g i) j = g j := by
  intro j hj
  by_cases hji : j = i
  · rw [hji, Function.update_self]
  · rw [Function.update_of_ne hji]
    exact hf j (by omega)

/-- A word in: the next one, or the read is over. -/
theorem exec_dataIn {lba : U32} {got : Nat → U16} {i : Nat} (hread : ReadsBack init h)
    (hat : IdeAt init h d (.dataIn lba got i)) :
    ∃ e pc' d', (IdePc.dataIn lba got i).exec d = some (e, pc', d') ∧
      IdeInv init (e :: h) (pc', d') ∧ pc'.rank < (IdePc.dataIn lba got i).rank := by
  obtain ⟨⟨hh, hcalls⟩, hi, hdoing, hgot⟩ := hat
  have hinw : d.inw = some (d.sectors (IdeCall.read lba).sector i, { d with
      doing := if i + 1 < sectorWords then .dataIn (d.sectors (IdeCall.read lba).sector) (i + 1)
        else .idle }) := by
    unfold Drive.inw
    rw [hdoing]
  have hnext := update_agrees hgot
  by_cases hlast : i + 1 < sectorWords
  · rw [if_pos hlast] at hinw
    refine ⟨.access, .dataIn lba (Function.update got i (d.sectors (IdeCall.read lba).sector i))
      (i + 1), { d with doing := .dataIn (d.sectors (IdeCall.read lba).sector) (i + 1) }, ?_,
      ⟨hread, ⟨hh, hcalls⟩, hlast, rfl, hnext⟩, ?_⟩
    · simp only [IdePc.exec, hinw, Option.bind_eq_bind, Option.bind_some, if_pos hlast]
    · simp only [IdePc.rank]
      omega
  · rw [if_neg hlast] at hinw
    have hsize : i + 1 = sectorWords := by omega
    rw [hsize] at hnext
    refine ⟨.read lba (Function.update got i (d.sectors (IdeCall.read lba).sector i)), .idle,
      { d with doing := .idle }, ?_, ⟨⟨fun j hj => ?_, hread⟩, rfl, hh, hcalls⟩, ?_⟩
    · simp only [IdePc.exec, hinw, Option.bind_eq_bind, Option.bind_some, if_neg hlast]
    · rw [hnext j hj, hh _ j hj, sector_eq]
      rfl
    · simp only [IdePc.rank]
      omega

/-- A word out. -/
theorem exec_dataOut {lba : U32} {buf : Nat → U16} {i : Nat}
    (hat : IdeAt init h d (.dataOut lba buf i)) :
    ∃ pc' d', (IdePc.dataOut lba buf i).exec d = some (.access, pc', d') ∧
      IdeAt init (.access :: h) d' pc' ∧ pc'.rank < (IdePc.dataOut lba buf i).rank := by
  obtain ⟨⟨hh, hcalls⟩, hi, words, hdoing, hw⟩ := hat
  have houtw : d.outw (buf i) = some { d with
      doing := if i + 1 < sectorWords then
          .dataOut (IdeCall.write lba buf).sector (Function.update words i (buf i)) (i + 1)
        else .storing (IdeCall.write lba buf).sector (Function.update words i (buf i)) } := by
    unfold Drive.outw
    rw [hdoing]
  have hnext := update_agrees hw
  by_cases hlast : i + 1 < sectorWords
  · rw [if_pos hlast] at houtw
    refine ⟨.dataOut lba buf (i + 1), { d with
      doing := .dataOut (IdeCall.write lba buf).sector (Function.update words i (buf i)) (i + 1) },
      ?_, ⟨⟨hh, hcalls⟩, hlast, _, rfl, hnext⟩, ?_⟩
    · simp only [IdePc.exec, houtw, Option.bind_eq_bind, Option.bind_some, if_pos hlast]
    · simp only [IdePc.rank]
      omega
  · rw [if_neg hlast] at houtw
    have hsize : i + 1 = sectorWords := by omega
    rw [hsize] at hnext
    refine ⟨.flush lba buf, { d with
      doing := .storing (IdeCall.write lba buf).sector (Function.update words i (buf i)) }, ?_,
      ⟨hcalls, .inl ⟨hh, _, rfl, hnext⟩⟩, ?_⟩
    · simp only [IdePc.exec, houtw, Option.bind_eq_bind, Option.bind_some, if_neg hlast]
    · simp only [IdePc.rank]
      omega

/-- The flush command goes through only if the sector is stored by then. -/
theorem exec_flush {lba : U32} {buf : Nat → U16} (hat : IdeAt init h d (.flush lba buf)) :
    (d.doing.busy = true ∧ (IdePc.flush lba buf).exec d = none) ∨
    ∃ d', d.doing.busy = false ∧ (IdePc.flush lba buf).exec d = some (.access, .flushed lba buf, d') ∧
      IdeAt init (.access :: h) d' (.flushed lba buf) := by
  obtain ⟨hcalls, ⟨_, words, hdoing, _⟩ | ⟨hdoing, hh⟩⟩ := hat
  · refine .inl ⟨by rw [hdoing]; rfl, ?_⟩
    show ((d.command ideCmdFlush) >>= _) = _
    unfold Drive.command
    rw [hdoing]
    rfl
  · refine .inr ⟨{ d with doing := .flushing }, by rw [hdoing]; rfl, ?_, hcalls, .inl rfl, hh⟩
    show ((d.command ideCmdFlush) >>= _) = _
    unfold Drive.command
    rw [hdoing]
    rfl

theorem exec_flushed {lba : U32} {buf : Nat → U16} (hread : ReadsBack init h)
    (hat : IdeAt init h d (.flushed lba buf)) :
    ∃ e pc', (IdePc.flushed lba buf).exec d = some (e, pc', d) ∧ IdeInv init (e :: h) (pc', d) ∧
      (pc'.rank < (IdePc.flushed lba buf).rank ∨ d.doing.busy = true) := by
  obtain ⟨hcalls, hdoing | hdoing, hh⟩ := hat
  · exact ⟨.access, .flushed lba buf, if_pos (by rw [hdoing]; rfl), ⟨hread, hcalls, .inl hdoing, hh⟩,
      .inr (by rw [hdoing]; rfl)⟩
  · exact ⟨.wrote lba buf, .idle, if_neg (by rw [hdoing]; exact Bool.false_ne_true),
      ⟨hread, hdoing, hh, hcalls⟩, .inl Nat.one_pos⟩

/-- A busy drive gets on. -/
theorem busy_advances (hb : d.doing.busy = true) :
    ∃ d', d.advance = some d' ∧ d'.doing.busy = false := by
  unfold Drive.advance
  cases hd : d.doing with
  | fetching n => exact ⟨_, rfl, rfl⟩
  | preparing n => exact ⟨_, rfl, rfl⟩
  | storing n words => exact ⟨_, rfl, rfl⟩
  | flushing => exact ⟨_, rfl, rfl⟩
  | _ =>
    rw [hd] at hb
    cases hb

/-- What the next access of the driver comes to: it is made and keeps the invariant, or it is the
flush command and the drive is busy. -/
theorem exec_cases {pc : IdePc} (hinv : IdeInv init h (pc, d)) (hpc : pc ≠ .idle) :
    (∃ lba buf, pc = .flush lba buf ∧ d.doing.busy = true ∧ pc.exec d = none) ∨
    ∃ e pc' d', pc.exec d = some (e, pc', d') ∧ IdeInv init (e :: h) (pc', d') ∧
      (pc'.rank < pc.rank ∨ d.doing.busy = true) := by
  obtain ⟨hread, hat⟩ := hinv
  cases pc with
  | idle => exact absurd rfl hpc
  | ready c =>
    exact .inr ⟨_, _, _, exec_ready hat, ⟨hread, hat.ready⟩, .inl (by simp only [IdePc.rank]; omega)⟩
  | select c j =>
    refine .inr ⟨_, _, _, exec_select hat, ⟨hread, hat.select⟩, .inl ?_⟩
    have hj : j < 5 := hat.2.1
    split <;> simp only [IdePc.rank] <;> omega
  | command c =>
    obtain ⟨d', hexec, hat'⟩ := exec_command hat
    exact .inr ⟨_, _, _, hexec, ⟨hread, hat'⟩, .inl (by simp only [IdePc.rank]; omega)⟩
  | drq c =>
    obtain ⟨pc', hexec, hat', hrank⟩ := exec_drq hat
    exact .inr ⟨_, _, _, hexec, ⟨hread, hat'⟩, hrank⟩
  | dataIn lba got i =>
    obtain ⟨e, pc', d', hexec, hinv', hrank⟩ := exec_dataIn hread hat
    exact .inr ⟨e, pc', d', hexec, hinv', .inl hrank⟩
  | dataOut lba buf i =>
    obtain ⟨pc', d', hexec, hat', hrank⟩ := exec_dataOut hat
    exact .inr ⟨_, pc', d', hexec, ⟨hread, hat'⟩, .inl hrank⟩
  | flush lba buf =>
    rcases exec_flush hat with ⟨hbusy, hexec⟩ | ⟨d', _, hexec, hat'⟩
    · exact .inl ⟨lba, buf, rfl, hbusy, hexec⟩
    · exact .inr ⟨_, _, d', hexec, ⟨hread, hat'⟩, .inl (Nat.lt_succ_self 1)⟩
  | flushed lba buf =>
    obtain ⟨e, pc', hexec, hinv', hrank⟩ := exec_flushed hread hat
    exact .inr ⟨e, pc', d, hexec, hinv', hrank⟩

/-- One step of the driver or the drive. -/
theorem IdeInv.step {s s' : IdePc × Drive} {e : IdeEvent} (hinv : IdeInv init h s)
    (hs : IdeStep s e s') : IdeInv init (e :: h) s' := by
  cases hs with
  | call c =>
    obtain ⟨hread, hdoing, hh, hcalls⟩ := hinv
    exact ⟨hread, hdoing, hh, congrArg (c :: ·) hcalls⟩
  | @access pc pc' d d' e hexec =>
    have hpc : pc ≠ .idle := by
      rintro rfl
      cases hexec
    rcases exec_cases hinv hpc with ⟨_, _, _, _, hnone⟩ | ⟨e', pc'', d'', hexec', hinv', _⟩
    · rw [hnone] at hexec
      cases hexec
    · rw [hexec'] at hexec
      cases hexec
      exact hinv'
  | drive hd => exact ⟨hinv.reads, hinv.place.advance hd⟩

/-- An access of the driver begins no call. -/
theorem exec_event {pc pc' : IdePc} {e : IdeEvent} (hexec : pc.exec d = some (e, pc', d'))
    (c : IdeCall) : e ≠ .call c := by
  rintro rfl
  cases pc with
  | idle => cases hexec
  | ready c' => cases hexec
  | drq c' => cases hexec
  | dataIn lba got i =>
    obtain ⟨⟨w, d''⟩, _, hd⟩ := Option.bind_eq_some_iff.mp hexec
    dsimp only at hd
    split at hd <;> cases hd
  | flushed lba buf =>
    have hd : (if d.doing.busy then some (.access, .flushed lba buf, d)
        else some (.wrote lba buf, .idle, d)) = some (IdeEvent.call c, pc', d') := hexec
    split at hd <;> cases hd
  | _ =>
    -- a register is written, and that is all
    obtain ⟨d'', _, hd⟩ := Option.bind_eq_some_iff.mp hexec
    cases hd

/-- A step with no call made in it. -/
def IdeInside (s : IdePc × Drive) (e : IdeEvent) (s' : IdePc × Drive) : Prop :=
  IdeStep s e s' ∧ ∀ c, e ≠ .call c

theorem begun_inside {s s' : IdePc × Drive} (hrun : Run IdeInside s h s') : begun h = [] :=
  hrun.inv (fun h _ => begun h = []) rfl fun h _ e _ hnone hs => by
    cases e with
    | call c => exact absurd rfl (hs.2 c)
    | _ => exact hnone

/-- A call that is under way gets nearer its return. -/
theorem IdeInv.down {s : IdePc × Drive} (hinv : IdeInv init h s) :
    s.1 = .idle ∨ ∃ e s', IdeInside s e s' ∧ ideRank s' < ideRank s := by
  obtain ⟨pc, d⟩ := s
  by_cases hpc : pc = .idle
  · exact .inl hpc
  · refine .inr ?_
    by_cases hb : d.doing.busy = true
    · obtain ⟨d', hd, hb'⟩ := busy_advances hb
      refine ⟨.drive, (pc, d'), ⟨.drive hd, nofun⟩, ?_⟩
      show 2 * pc.rank + d'.doing.busy.toNat < 2 * pc.rank + d.doing.busy.toNat
      rw [hb, hb']
      exact Nat.lt_succ_self _
    · rcases exec_cases hinv hpc with ⟨_, _, _, hb', _⟩ | ⟨e, pc', d', hexec, _, hrank | hb'⟩
      · exact absurd hb' hb
      · exact ⟨e, (pc', d'), ⟨.access hexec, exec_event hexec⟩, ideRank_lt d d' hrank⟩
      · exact absurd hb' hb

/-- It returns, and no other call is made before that. -/
theorem IdeInv.returns {s : IdePc × Drive} (hinv : IdeInv init h s) :
    ∃ h' d', Run IdeStep s h' (.idle, d') ∧ begun h' = [] := by
  obtain ⟨h', ⟨pc', d'⟩, hrun, hidle⟩ := Run.leads (IdeInv init) (fun s => s.1 = .idle) ideRank
    (fun _ _ _ _ hinv hs => hinv.step hs.1) (fun _ _ hinv => hinv.down) hinv
  cases hidle
  exact ⟨h', d', hrun.mono fun _ _ _ hs => hs.1, begun_inside hrun⟩

/-! ### What a call finds of the ones before it -/

/-- The sector of the last write. -/
theorem stored_last {lba : U32} {buf : Nat → U16} {calls : List IdeCall}
    (hend : ended h = .write lba buf :: calls) : stored init h (lba.toNat % 2 ^ 28) = buf := by
  induction h with
  | nil => cases hend
  | cons e h ih =>
    cases e with
    | read => cases hend
    | wrote =>
      cases hend
      exact if_pos rfl
    | _ => exact ih hend

/-- The last read hands over what was stored before it, and leaves that. -/
theorem ReadsBack.last {lba : U32} {calls : List IdeCall} (hread : ReadsBack init h)
    (hend : ended h = .read lba :: calls) :
    ∃ words h', .read lba words ∈ h ∧ ended h' = calls ∧ stored init h = stored init h' ∧
      ∀ j, j < sectorWords → words j = stored init h' (lba.toNat % 2 ^ 28) j := by
  induction h with
  | nil => cases hend
  | cons e h ih =>
    cases e with
    | read lba' words =>
      obtain ⟨hlba, hrest⟩ := List.cons.inj hend
      cases hlba
      exact ⟨words, h, List.mem_cons_self, hrest, rfl, hread.1⟩
    | wrote => cases hend
    | _ =>
      obtain ⟨words, h', hmem, hcalls, hsame, hw⟩ := ih hread hend
      exact ⟨words, h', List.mem_cons_of_mem _ hmem, hcalls, hsame, hw⟩

end

/-- Between calls, with a drive that waits. -/
theorem IdeInv.start {d0 : Drive} (hd0 : d0.doing = .idle) : IdeInv d0.sectors [] (.idle, d0) where
  reads := trivial
  place := ⟨hd0, fun _ _ _ => rfl, rfl⟩

theorem ide_run {d0 d : Drive} {pc : IdePc} {h : List IdeEvent} (hd0 : d0.doing = .idle)
    (hrun : Run IdeStep (.idle, d0) h (pc, d)) : IdeInv d0.sectors h (pc, d) :=
  hrun.inv (IdeInv d0.sectors) (.start hd0) fun _ _ _ _ hinv hs => hinv.step hs

/-- The driver over every interleaving with the drive. Each `ide_read_sector` has returned what the
last `ide_write_sector` to the sector stored. The one access the drive is not ready for is the
flush command while it still stores the sector: that is no step then, so what a drive makes of a
command it gets while busy is left out, and so are errors, of which this one reports none. Between
calls, every call has returned and the drive holds what was written. From every state a run leads
back there, with no other call made. -/
theorem ide_store {d0 d : Drive} {pc : IdePc} {h : List IdeEvent} (hd0 : d0.doing = .idle)
    (hrun : Run IdeStep (.idle, d0) h (pc, d)) :
    ReadsBack d0.sectors h ∧
    (pc.exec d = none ↔ pc = .idle ∨ (d.doing.busy = true ∧ ∃ lba buf, pc = .flush lba buf)) ∧
    (pc = .idle → begun h = ended h ∧ Stores d0.sectors h d) ∧
    ∃ h' d', Run IdeStep (pc, d) h' (.idle, d') ∧ begun h' = [] := by
  have hinv := ide_run hd0 hrun
  refine ⟨hinv.reads, ?_, ?_, hinv.returns⟩
  · constructor
    · intro hnone
      by_cases hpc : pc = .idle
      · exact .inl hpc
      · rcases exec_cases hinv hpc with ⟨lba, buf, hflush, hb, _⟩ | ⟨_, _, _, hexec, _⟩
        · exact .inr ⟨hb, lba, buf, hflush⟩
        · rw [hexec] at hnone
          cases hnone
    · rintro (rfl | ⟨hb, lba, buf, rfl⟩)
      · rfl
      · rcases exec_flush hinv.place with ⟨_, hnone⟩ | ⟨_, hb', _⟩
        · exact hnone
        · rw [hb] at hb'
          cases hb'
  · rintro rfl
    exact ⟨hinv.place.2.2, hinv.place.2.1⟩

/-- Sector 7 written and flushed, and read after that: the read hands the new words over. -/
theorem ide_store_read : ∃ (d0 d : Drive) (buf : Nat → U16) (h : List IdeEvent),
    Run IdeStep (.idle, d0) h (.idle, d) ∧ ended h = [.read 7#32, .write 7#32 buf] ∧
    (∃ words, .read 7#32 words ∈ h ∧ ∀ j, j < sectorWords → words j = buf j) ∧
    (∀ j, j < sectorWords → d.sectors 7 j = buf j) ∧ d0.sectors 7 3 = 0#16 ∧ buf 3 = 3#16 := by
  let d0 : Drive := ⟨ideSelectSector 0#32, .idle, fun _ _ => 0#16⟩
  let buf : Nat → U16 := BitVec.ofNat 16
  have hwrite : Run IdeStep (.idle, d0) [.call (.write 7#32 buf)] (.ready (.write 7#32 buf), d0) :=
    Run.start.step (.call _)
  obtain ⟨_, _, _, h1, d1, hrun1, hbegun1⟩ := ide_store rfl hwrite
  have hread := (hwrite.append hrun1).step (.call (.read 7#32))
  obtain ⟨_, _, _, h2, d2, hrun2, hbegun2⟩ := ide_store rfl hread
  have hrun := hread.append hrun2
  obtain ⟨hback, _, hidle, _⟩ := ide_store rfl hrun
  obtain ⟨hcalls, hstores⟩ := hidle rfl
  have hbegun : begun (h2 ++ .call (.read 7#32) :: (h1 ++ [.call (.write 7#32 buf)])) =
      [.read 7#32, .write 7#32 buf] := by
    unfold begun at hbegun1 hbegun2 ⊢
    simp only [List.filterMap_append, List.filterMap_cons, List.filterMap_nil, hbegun1, hbegun2,
      List.nil_append]
  have hended := hcalls.symm.trans hbegun
  obtain ⟨words, h', hmem, hwrote, hsame, hw⟩ := hback.last hended
  have hbuf : stored d0.sectors h' 7 = buf := stored_last hwrote
  refine ⟨d0, d2, buf, _, hrun, hended, ⟨words, hmem, fun j hj => ?_⟩, fun j hj => ?_, rfl, rfl⟩
  · exact (hw j hj).trans (congrFun hbuf j)
  · rw [hstores 7 j hj, hsame, hbuf]

/-- With nothing written, what was stored at the start is still there. -/
theorem stored_unwritten (init : Nat → Nat → U16) (h : List IdeEvent)
    (hw : ∀ lba buf, .wrote lba buf ∉ h) (n : Nat) : stored init h n = init n := by
  induction h with
  | nil => rfl
  | cons e h ih =>
    have hrest := ih fun lba buf hmem => hw lba buf (List.mem_cons_of_mem e hmem)
    cases e with
    | wrote lba buf => exact absurd List.mem_cons_self (hw lba buf)
    | _ => exact hrest

theorem ReadsBack.mem {init : Nat → Nat → U16} {h : List IdeEvent} (hread : ReadsBack init h)
    (hw : ∀ lba buf, .wrote lba buf ∉ h) {lba : U32} {words : Nat → U16}
    (hmem : .read lba words ∈ h) : ∀ j, j < sectorWords → words j = init (lba.toNat % 2 ^ 28) j := by
  induction h with
  | nil => cases hmem
  | cons e h ih =>
    have hw' : ∀ lba buf, .wrote lba buf ∉ h :=
      fun lba buf hmem => hw lba buf (List.mem_cons_of_mem e hmem)
    rcases List.mem_cons.mp hmem with rfl | hlater
    · intro j hj
      rw [hread.1 j hj, stored_unwritten init h hw']
    · cases e with
      | read lba' words' => exact ih hread.2 hw' hlater
      | _ => exact ih hread hw' hlater

/-- What the file system's reads take: in a kernel that never writes a sector, every
`ide_read_sector` returns the bytes of `ideReadSector`, two to a word. -/
theorem read_eq_ideReadSector {disk : Disk} {d0 d : Drive} {pc : IdePc} {h : List IdeEvent}
    (hd0 : d0.doing = .idle) (hdisk : ∀ n j, d0.sectors n j = disk n (2 * j + 1) ++ disk n (2 * j))
    (hrun : Run IdeStep (.idle, d0) h (pc, d)) (hw : ∀ lba buf, .wrote lba buf ∉ h) {lba : U32}
    {words : Nat → U16} (hmem : .read lba words ∈ h) {j : Nat} (hj : j < sectorWords) :
    words j = ideReadSector disk lba (2 * j + 1) ++ ideReadSector disk lba (2 * j) := by
  rw [(ide_run hd0 hrun).reads.mem hw hmem j hj, hdisk]
  unfold ideReadSector
  rw [ideSelectSector_lba28]

end PepinOS
