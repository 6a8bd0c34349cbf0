import PepinOS.Drivers.Screen
import PepinOS.Process.Scheduler

/-!
# The keyboard

`drivers/keyboard.c`: the ring buffer `SYS_GETCHAR` reads, the scancode map and
the interrupt handler, which echoes the character, or for Ctrl+C raises
`SIGINT` on the running task.
-/

namespace PepinOS

def kbBufSize : Nat := 64

/-- The static variables of `keyboard.c`. -/
structure Keyboard where
  kbBuf : Nat → U8
  kbHead : Nat
  kbTail : Nat
  ctrlHeld : Bool

/-- `kb_getchar`: the character, 0 when the buffer is empty. -/
def kbGetchar (kb : Keyboard) : Keyboard × U8 :=
  if kb.kbHead = kb.kbTail then (kb, 0#8)
  else ({ kb with kbTail := (kb.kbTail + 1) % kbBufSize }, kb.kbBuf kb.kbTail)

/-- The test of `kb_getchar`, for the value of `kb_head` it has read, and the character
it takes. -/
def kbPeek (kb : Keyboard) (head : Nat) : Option U8 :=
  if head = kb.kbTail then none else some (kb.kbBuf kb.kbTail)

/-- Its last store. -/
def kbAdvance (kb : Keyboard) : Keyboard := { kb with kbTail := (kb.kbTail + 1) % kbBufSize }

/-- `kb_getchar` is its three parts, when nothing comes between them. -/
theorem kbGetchar_parts (kb : Keyboard) :
    kbGetchar kb = match kbPeek kb kb.kbHead with
      | none => (kb, 0#8)
      | some c => (kbAdvance kb, c) := by
  unfold kbGetchar kbPeek
  split
  next => rfl
  next => rfl

/-- `kbmap`, by scancode, eight to a row. -/
def kbmap : List Nat := [
  0, 0, 49, 50, 51, 52, 53, 54,
  55, 56, 57, 48, 45, 61, 0, 0,
  113, 119, 101, 114, 116, 121, 117, 105,
  111, 112, 91, 93, 10, 0, 97, 115,
  100, 102, 103, 104, 106, 107, 108, 59,
  39, 96, 0, 92, 122, 120, 99, 118,
  98, 110, 109, 44, 46, 47, 0, 42,
  0, 32, 0, 0, 0, 0, 0, 0,
  0, 0, 0, 0, 0, 0, 0, 55,
  56, 57, 45, 52, 53, 54, 43, 49,
  50, 51, 48, 46, 0, 0, 0, 0]

def scCtrlPress : U8 := 0x1D#8
def scCtrlRelease : U8 := 0x9D#8

/-- The character of a key press; `none` for a release, a key outside the map
and a key without a character. -/
def keyChar (scancode : U8) : Option U8 :=
  if scancode &&& 0x80#8 ≠ 0#8 then none
  else
    match kbmap[scancode.toNat]? with
    | none => none
    | some c => if c = 0 then none else some (BitVec.ofNat 8 c)

/-- The key press is Ctrl+C, the one that raises `SIGINT`. -/
def keyInterrupts (kb : Keyboard) (scancode : U8) : Bool :=
  kb.ctrlHeld && keyChar scancode == some 99#8

def kbPut (kb : Keyboard) (c : U8) : Keyboard :=
  let next := (kb.kbHead + 1) % kbBufSize
  if next ≠ kb.kbTail then
    { kb with kbBuf := Function.update kb.kbBuf kb.kbHead c, kbHead := next }
  else kb

/-- `keyboard_handler`, for the scancode the port gives. -/
def keyboardHandler (scancode : U8) (kb : Keyboard) (scr : Screen) (sched : Sched) :
    Keyboard × Screen × Sched :=
  if scancode = scCtrlPress then ({ kb with ctrlHeld := true }, scr, sched)
  else if scancode = scCtrlRelease then ({ kb with ctrlHeld := false }, scr, sched)
  else
    match keyChar scancode with
    | none => (kb, scr, sched)
    | some c =>
      if kb.ctrlHeld && c == 99#8 then
        -- the echo is "^C", and the signal goes to whichever task runs
        (kb, print [94#8, 67#8, 10#8] (setAttr 0x0C#8 scr), schedSignal sched sigint)
      else (kbPut kb c, putcar (setAttr 0x0F#8 scr) c, sched)

/-- What `keyboard_handler` puts on the screen. -/
def keyEcho (kb : Keyboard) (scancode : U8) : List U8 :=
  match keyChar scancode with
  | none => []
  | some c => if kb.ctrlHeld && c == 99#8 then [94#8, 67#8, 10#8] else [c]

theorem keyChar_ctrl {scancode : U8} (h : scancode = scCtrlPress ∨ scancode = scCtrlRelease) :
    keyChar scancode = none := by
  rcases h with h | h <;> rw [h] <;> rfl

theorem keyboardHandler_screen (scancode : U8) (kb : Keyboard) (scr : Screen) (sched : Sched) :
    (keyboardHandler scancode kb scr sched).2.1 =
      if keyEcho kb scancode = [] then scr
      else print (keyEcho kb scancode)
        (setAttr (if keyInterrupts kb scancode then 0x0C#8 else 0x0F#8) scr) := by
  unfold keyboardHandler keyEcho keyInterrupts
  split
  next h => rw [keyChar_ctrl (.inl h)]; rfl
  next =>
    split
    next h => rw [keyChar_ctrl (.inr h)]; rfl
    next =>
      split
      next => simp
      next c h =>
        have hsome : (some c == some 99#8) = (c == 99#8) := rfl
        rw [h, hsome]
        cases kb.ctrlHeld && c == 99#8 with
        | true => simp
        | false => simp [print]

/-- With Ctrl up, a key press that is not Ctrl queues its character, if it has one. -/
theorem keyboardHandler_plain {scancode : U8} {kb : Keyboard} (hkey : scancode ≠ scCtrlPress)
    (hctrl : kb.ctrlHeld = false) (scr : Screen) (sched : Sched) :
    (keyboardHandler scancode kb scr sched).1 =
      match keyChar scancode with
      | none => kb
      | some c => kbPut kb c := by
  unfold keyboardHandler
  rw [if_neg hkey]
  split
  next h =>
    rw [keyChar_ctrl (.inr h), ← hctrl]
  next =>
    cases keyChar scancode with
    | none => rfl
    | some c => simp [hctrl]

/-- The characters of the map are none the shell treats apart, but the newline. -/
theorem keyChar_typed {scancode c : U8} (h : keyChar scancode = some c) :
    c ≠ 0#8 ∧ c ≠ 13#8 ∧ c ≠ 8#8 ∧ c ≠ 127#8 := by
  have hmap : ∀ k ∈ kbmap, k ≠ 0 → BitVec.ofNat 8 k ≠ 0#8 ∧ BitVec.ofNat 8 k ≠ 13#8 ∧
      BitVec.ofNat 8 k ≠ 8#8 ∧ BitVec.ofNat 8 k ≠ 127#8 := by decide
  unfold keyChar at h
  split at h
  next => cases h
  next =>
    split at h
    next => cases h
    next k hk =>
      split at h
      next => cases h
      next h0 =>
        cases h
        exact hmap k (List.mem_of_getElem? hk) h0

/-- The scheduler sees the keyboard only through Ctrl+C. -/
theorem keyboardHandler_sched (scancode : U8) (kb : Keyboard) (scr : Screen) (sched : Sched) :
    (keyboardHandler scancode kb scr sched).2.2 =
      if keyInterrupts kb scancode then schedSignal sched sigint else sched := by
  unfold keyboardHandler keyInterrupts
  split
  next h => rw [keyChar_ctrl (.inl h)]; simp
  next =>
    split
    next h => rw [keyChar_ctrl (.inr h)]; simp
    next =>
      split
      next h => rw [h]; simp
      next c h =>
        rw [h]
        simp only [beq_iff_eq, Option.some.injEq, Bool.and_eq_true]
        split <;> rfl

end PepinOS
