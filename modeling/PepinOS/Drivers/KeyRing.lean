import PepinOS.Drivers.Keyboard
import PepinOS.Lib.Queue
import PepinOS.Lib.Run

/-!
# The keyboard's ring as a queue

`kb_getchar` runs with interrupts on: `keyboard_handler` may come after its test,
after its read of `kb_buf` and before its store to `kb_tail`, and run there from
start to end. The handler moves `kb_head` only and `kb_getchar` `kb_tail` only.

A history of scancodes and of what `kb_getchar` did says by itself which
characters went into the ring (`accepted`) and which came out (`returned`), without
a look at the two indices. `keyring_fifo`: in every run the accepted characters are
those returned and then those between the indices.
-/

namespace PepinOS

/-- The characters in the ring, the oldest first. -/
def Keyboard.queue (kb : Keyboard) : List U8 := queued kbBufSize kb.kbBuf kb.kbHead kb.kbTail

/-- Where a call of `kb_getchar` is. -/
inductive Getchar where
  | outside
  /-- its test has found the ring empty -/
  | empty
  /-- its test has found a character -/
  | passed
  /-- it has read this character, and not moved `kb_tail` yet -/
  | char (c : U8)

/-- What the handler works on, and a caller of `kb_getchar`. -/
structure KeyRing where
  keyboard : Keyboard
  screen : Screen
  sched : Sched
  getchar : Getchar

inductive RingEvent where
  | key (scancode : U8)
  | test
  | read
  | ret (c : U8)

/-- The interrupt, wherever `kb_getchar` is. -/
def KeyRing.keyed (s : KeyRing) (scancode : U8) : KeyRing :=
  let r := keyboardHandler scancode s.keyboard s.screen s.sched
  { s with keyboard := r.1, screen := r.2.1, sched := r.2.2 }

/-- One statement of `kb_getchar`, or one interrupt. -/
inductive RingStep : KeyRing → RingEvent → KeyRing → Prop where
  | key {s : KeyRing} (scancode : U8) : RingStep s (.key scancode) (s.keyed scancode)
  | test {s : KeyRing} : s.getchar = .outside →
      RingStep s .test { s with
        getchar := if s.keyboard.kbHead = s.keyboard.kbTail then .empty else .passed }
  | retZero {s : KeyRing} : s.getchar = .empty →
      RingStep s (.ret 0#8) { s with getchar := .outside }
  | read {s : KeyRing} : s.getchar = .passed →
      RingStep s .read { s with getchar := .char (s.keyboard.kbBuf s.keyboard.kbTail) }
  | retChar {s : KeyRing} {c : U8} : s.getchar = .char c →
      RingStep s (.ret c) { s with keyboard := kbAdvance s.keyboard, getchar := .outside }

/-- Both indices at the start of the array, Ctrl up, and nobody in `kb_getchar`. -/
structure KeyRing.Fresh (s : KeyRing) : Prop where
  head : s.keyboard.kbHead = 0
  tail : s.keyboard.kbTail = 0
  ctrl : s.keyboard.ctrlHeld = false
  getchar : s.getchar = .outside

/-- Without an interrupt, the statements are `kb_getchar`. -/
theorem RingStep.kbGetchar {s : KeyRing} (h : s.getchar = .outside) :
    ∃ hist, Run RingStep s (.ret (kbGetchar s.keyboard).2 :: hist)
      { s with keyboard := (PepinOS.kbGetchar s.keyboard).1 } ∧
      ∀ e ∈ hist, e = .test ∨ e = .read := by
  have htest := Run.step Run.start (RingStep.test h)
  unfold PepinOS.kbGetchar
  by_cases hempty : s.keyboard.kbHead = s.keyboard.kbTail
  · rw [if_pos hempty] at htest ⊢
    refine ⟨[.test], ?_, by simp⟩
    have hrun := Run.step htest (RingStep.retZero rfl)
    rw [← h] at hrun
    exact hrun
  · rw [if_neg hempty] at htest ⊢
    refine ⟨[.read, .test], ?_, by simp⟩
    have hrun := Run.step (Run.step htest (RingStep.read rfl)) (RingStep.retChar rfl)
    rw [← h] at hrun
    exact hrun

/-! ## The queue, from the history alone -/

/-- Ctrl is down: it was pressed after it was last released. -/
def ctrlDown : List RingEvent → Bool
  | [] => false
  | .key scancode :: h =>
    if scancode = scCtrlPress then true
    else if scancode = scCtrlRelease then false
    else ctrlDown h
  | _ :: h => ctrlDown h

/-- The characters `kb_getchar` has returned; 0 is none. -/
def returned : List RingEvent → List U8
  | [] => []
  | .ret c :: h => if c = 0#8 then returned h else returned h ++ [c]
  | _ :: h => returned h

/-- The key presses that have a character, less Ctrl+C, and less those that came while 63
were waiting. -/
def accepted : List RingEvent → List U8
  | [] => []
  | .key scancode :: h =>
    match keyChar scancode with
    | none => accepted h
    | some c =>
      if ctrlDown h && c == 99#8 then accepted h
      else if (accepted h).length - (returned h).length < 63 then accepted h ++ [c]
      else accepted h
  | _ :: h => accepted h

/-- The scheduler after the `SIGINT`s of the history: one for each Ctrl+C. -/
def interrupted (sched : Sched) : List RingEvent → Sched
  | [] => sched
  | .key scancode :: h =>
    if ctrlDown h && keyChar scancode == some 99#8 then schedSignal (interrupted sched h) sigint
    else interrupted sched h
  | _ :: h => interrupted sched h

/-- At the last test, all that had been accepted had been returned. -/
def emptyAtTest : List RingEvent → Bool
  | [] => false
  | .test :: h => accepted h == returned h
  | _ :: h => emptyAtTest h

/-- Each call has returned 0 exactly if there was nothing waiting at its test. -/
def Answered : List RingEvent → Prop
  | [] => True
  | .ret c :: h => (c = 0#8 ↔ emptyAtTest h = true) ∧ Answered h
  | _ :: h => Answered h

/-! ## The invariant -/

/-- What a call under way knows: the handler takes nothing out, and writes another place
than the one to be read. -/
def Getchar.Knows (kb : Keyboard) (h : List RingEvent) : Getchar → Prop
  | .outside => True
  | .empty => emptyAtTest h = true
  | .passed => emptyAtTest h = false ∧ kb.kbHead ≠ kb.kbTail
  | .char c => emptyAtTest h = false ∧ kb.kbHead ≠ kb.kbTail ∧ c = kb.kbBuf kb.kbTail

/-- The ring is the queue of the history. -/
structure RingInv (sched : Sched) (h : List RingEvent) (s : KeyRing) : Prop where
  head : s.keyboard.kbHead < kbBufSize
  tail : s.keyboard.kbTail < kbBufSize
  ctrl : s.keyboard.ctrlHeld = ctrlDown h
  order : accepted h = returned h ++ s.keyboard.queue
  chars : ∀ c ∈ s.keyboard.queue, c ≠ 0#8
  knows : s.getchar.Knows s.keyboard h
  answered : Answered h
  sched : s.sched = interrupted sched h

theorem KeyRing.Fresh.inv {s : KeyRing} (h : s.Fresh) : RingInv s.sched [] s := by
  have hzero : 0 < kbBufSize := Nat.zero_lt_succ 63
  have hqueue : s.keyboard.queue = [] := by
    unfold Keyboard.queue
    rw [h.head, h.tail, queued_empty]
  constructor
  · rw [h.head]; exact hzero
  · rw [h.tail]; exact hzero
  · exact h.ctrl
  · rw [hqueue]; rfl
  · rw [hqueue]; simp
  · rw [h.getchar]; trivial
  · trivial
  · rfl

section

variable {sched : Sched} {h : List RingEvent} {s : KeyRing} (hinv : RingInv sched h s)

include hinv

theorem RingInv.keyed_sched (scancode : U8) :
    (s.keyed scancode).sched = interrupted sched (.key scancode :: h) := by
  show (keyboardHandler scancode s.keyboard s.screen s.sched).2.2 = _
  rw [keyboardHandler_sched, hinv.sched, keyInterrupts, hinv.ctrl]
  rfl

/-- A key that queues nothing. -/
theorem RingInv.unqueued {scancode : U8} (ctrl : Bool)
    (hkb : (s.keyed scancode).keyboard = { s.keyboard with ctrlHeld := ctrl })
    (hctrl : ctrl = ctrlDown (.key scancode :: h))
    (hacc : accepted (.key scancode :: h) = accepted h) :
    RingInv sched (.key scancode :: h) (s.keyed scancode) := by
  have hsched := hinv.keyed_sched scancode
  have hknows : s.getchar.Knows { s.keyboard with ctrlHeld := ctrl } (.key scancode :: h) := by
    have hk := hinv.knows
    cases hg : s.getchar <;> rw [hg] at hk <;> exact hk
  refine ⟨?_, ?_, ?_, ?_, ?_, ?_, hinv.answered, hsched⟩
  · rw [hkb]; exact hinv.head
  · rw [hkb]; exact hinv.tail
  · rw [hkb]; exact hctrl
  · rw [hkb, hacc]; exact hinv.order
  · rw [hkb]; exact hinv.chars
  · rw [hkb]; exact hknows

/-- What waits, by the history, is what lies between the indices. -/
theorem RingInv.waiting : (accepted h).length - (returned h).length = s.keyboard.queue.length := by
  rw [hinv.order, List.length_append, Nat.add_sub_cancel_left]

/-- A key with a character that is not Ctrl+C: queued if there is room. -/
theorem RingInv.put {scancode c : U8} (hchar : keyChar scancode = some c)
    (hkb : (s.keyed scancode).keyboard = kbPut s.keyboard c)
    (hplain : (ctrlDown h && c == 99#8) = false)
    (hctrl : ctrlDown (.key scancode :: h) = ctrlDown h) :
    RingInv sched (.key scancode :: h) (s.keyed scancode) := by
  have hroom : (s.keyboard.kbHead + 1) % kbBufSize ≠ s.keyboard.kbTail ↔
      (accepted h).length - (returned h).length < 63 := by
    rw [hinv.waiting]
    exact queued_room_iff _ hinv.head hinv.tail
  by_cases hfree : (s.keyboard.kbHead + 1) % kbBufSize ≠ s.keyboard.kbTail
  · have hacc : accepted (.key scancode :: h) = accepted h ++ [c] := by
      simp only [accepted, hchar, hplain, Bool.false_eq_true, if_false, if_pos (hroom.mp hfree)]
    have hpush := queued_push s.keyboard.kbBuf hinv.head hinv.tail hfree c
    have hsched := hinv.keyed_sched scancode
    simp only [kbPut, if_pos hfree] at hkb
    refine ⟨?_, ?_, ?_, ?_, ?_, ?_, hinv.answered, hsched⟩
    · rw [hkb]
      exact Nat.mod_lt _ (Nat.zero_lt_succ 63)
    · rw [hkb]
      exact hinv.tail
    · rw [hkb, hctrl]
      exact hinv.ctrl
    · rw [hkb, hacc, hinv.order]
      unfold Keyboard.queue
      rw [hpush, List.append_assoc]
      rfl
    · rw [hkb]
      unfold Keyboard.queue
      rw [hpush]
      intro d hd
      rcases List.mem_append.mp hd with hd | hd
      · exact hinv.chars d hd
      · rw [List.mem_singleton.mp hd]
        exact (keyChar_typed hchar).1
    · -- the place written is not the one a call is about to read
      rw [hkb]
      have hk := hinv.knows
      show s.getchar.Knows _ _
      cases hg : s.getchar with
      | outside => trivial
      | empty =>
        rw [hg] at hk
        exact hk
      | passed =>
        rw [hg] at hk
        exact ⟨hk.1, hfree⟩
      | char d =>
        rw [hg] at hk
        refine ⟨hk.1, hfree, ?_⟩
        rw [hk.2.2]
        exact (Function.update_of_ne hk.2.1.symm _ _).symm
  · have hacc : accepted (.key scancode :: h) = accepted h := by
      simp only [accepted, hchar, hplain, Bool.false_eq_true, if_false,
        if_neg (mt hroom.mpr hfree)]
    have hfull : kbPut s.keyboard c = s.keyboard := by
      simp only [kbPut, if_neg hfree]
    exact hinv.unqueued _ (hkb.trans hfull) (hinv.ctrl.trans hctrl.symm) hacc

/-- The interrupt keeps the invariant, wherever it comes. -/
theorem RingInv.key (scancode : U8) : RingInv sched (.key scancode :: h) (s.keyed scancode) := by
  by_cases hpress : scancode = scCtrlPress
  · apply hinv.unqueued true
    · simp only [KeyRing.keyed, keyboardHandler, if_pos hpress]
    · simp only [ctrlDown, if_pos hpress]
    · simp only [accepted, keyChar_ctrl (.inl hpress)]
  by_cases hrelease : scancode = scCtrlRelease
  · apply hinv.unqueued false
    · simp only [KeyRing.keyed, keyboardHandler, if_neg hpress, if_pos hrelease]
    · simp only [ctrlDown, if_neg hpress, if_pos hrelease]
    · simp only [accepted, keyChar_ctrl (.inr hrelease)]
  have hctrl : ctrlDown (.key scancode :: h) = ctrlDown h := by
    simp only [ctrlDown, if_neg hpress, if_neg hrelease]
  cases hchar : keyChar scancode with
  | none =>
    apply hinv.unqueued _ _ (hinv.ctrl.trans hctrl.symm)
    · simp only [accepted, hchar]
    · simp only [KeyRing.keyed, keyboardHandler, if_neg hpress, if_neg hrelease, hchar]
  | some c =>
    have hsame : (s.keyboard.ctrlHeld && c == 99#8) = (ctrlDown h && c == 99#8) := by
      rw [hinv.ctrl]
    cases hint : ctrlDown h && c == 99#8 with
    | true =>
      rw [hint] at hsame
      apply hinv.unqueued _ _ (hinv.ctrl.trans hctrl.symm)
      · simp only [accepted, hchar, hint, if_true]
      · simp only [KeyRing.keyed, keyboardHandler, if_neg hpress, if_neg hrelease, hchar, hsame,
          if_true]
    | false =>
      rw [hint] at hsame
      apply hinv.put hchar _ hint hctrl
      simp only [KeyRing.keyed, keyboardHandler, if_neg hpress, if_neg hrelease, hchar, hsame,
        Bool.false_eq_true, if_false]

theorem RingInv.test :
    RingInv sched (.test :: h) { s with
      getchar := if s.keyboard.kbHead = s.keyboard.kbTail then .empty else .passed } := by
  have hempty : s.keyboard.queue = [] ↔ s.keyboard.kbHead = s.keyboard.kbTail :=
    queued_nil_iff _ hinv.head hinv.tail
  have hall : emptyAtTest (.test :: h) = true ↔ s.keyboard.kbHead = s.keyboard.kbTail := by
    rw [← hempty]
    simp only [emptyAtTest, beq_iff_eq, hinv.order, List.append_right_eq_self]
  refine ⟨hinv.head, hinv.tail, hinv.ctrl, hinv.order, hinv.chars, ?_, hinv.answered, hinv.sched⟩
  by_cases heq : s.keyboard.kbHead = s.keyboard.kbTail
  · simp only [if_pos heq]
    exact hall.mpr heq
  · simp only [if_neg heq]
    exact ⟨Bool.eq_false_iff.mpr (mt hall.mp heq), heq⟩

theorem RingInv.read (hget : s.getchar = .passed) :
    RingInv sched (.read :: h)
      { s with getchar := .char (s.keyboard.kbBuf s.keyboard.kbTail) } := by
  have hk := hinv.knows
  rw [hget] at hk
  exact ⟨hinv.head, hinv.tail, hinv.ctrl, hinv.order, hinv.chars, ⟨hk.1, hk.2, rfl⟩,
    hinv.answered, hinv.sched⟩

theorem RingInv.retZero (hget : s.getchar = .empty) :
    RingInv sched (.ret 0#8 :: h) { s with getchar := .outside } := by
  have hk := hinv.knows
  rw [hget] at hk
  have hret : returned (.ret 0#8 :: h) = returned h := if_pos rfl
  refine ⟨hinv.head, hinv.tail, hinv.ctrl, ?_, hinv.chars, trivial,
    ⟨iff_of_true rfl hk, hinv.answered⟩, hinv.sched⟩
  rw [hret]
  exact hinv.order

/-- The store to `kb_tail` takes out the character that was read: the oldest. -/
theorem RingInv.retChar {c : U8} (hget : s.getchar = .char c) :
    RingInv sched (.ret c :: h)
      { s with keyboard := kbAdvance s.keyboard, getchar := .outside } := by
  have hk := hinv.knows
  rw [hget] at hk
  obtain ⟨hat, hne, hc⟩ := hk
  have hqueue : s.keyboard.queue = c :: (kbAdvance s.keyboard).queue := by
    rw [hc]
    exact queued_pop s.keyboard.kbBuf hinv.head hinv.tail hne
  have hc0 : c ≠ 0#8 := by
    apply hinv.chars
    rw [hqueue]
    exact List.mem_cons_self ..
  have hret : returned (.ret c :: h) = returned h ++ [c] := if_neg hc0
  have hnot : c = 0#8 ↔ emptyAtTest h = true := by
    rw [hat]
    exact iff_of_false hc0 Bool.false_ne_true
  refine ⟨hinv.head, Nat.mod_lt _ (Nat.zero_lt_succ 63), hinv.ctrl, ?_, ?_, trivial,
    ⟨hnot, hinv.answered⟩, hinv.sched⟩
  · rw [hret, List.append_assoc]
    show accepted h = returned h ++ (c :: (kbAdvance s.keyboard).queue)
    rw [hinv.order, hqueue]
  · intro d hd
    apply hinv.chars
    rw [hqueue]
    exact List.mem_cons_of_mem _ hd

end

theorem RingInv.step {sched : Sched} {h : List RingEvent} {s s' : KeyRing} {e : RingEvent}
    (hinv : RingInv sched h s) (hstep : RingStep s e s') : RingInv sched (e :: h) s' := by
  cases hstep with
  | key scancode => exact hinv.key scancode
  | test => exact hinv.test
  | read hget => exact hinv.read hget
  | retZero hget => exact hinv.retZero hget
  | retChar hget => exact hinv.retChar hget

/-- **The ring is a bounded queue under interrupts**: what is accepted is what has been
returned and then what is in the ring, each call answers 0 exactly if nothing waited at
its test, the indices stay in the array, and Ctrl+C raises its signal and does no more. -/
theorem keyring_fifo {s₀ s : KeyRing} {h : List RingEvent} (hfresh : s₀.Fresh)
    (hrun : Run RingStep s₀ h s) :
    accepted h = returned h ++ s.keyboard.queue ∧ Answered h ∧
      s.keyboard.kbHead < 64 ∧ s.keyboard.kbTail < 64 ∧
      s.sched = interrupted s₀.sched h := by
  have hinv : RingInv s₀.sched h s := by
    apply hrun.inv (RingInv s₀.sched) hfresh.inv
    intro h s e s' hs hstep
    exact hs.step hstep
  exact ⟨hinv.order, hinv.answered, hinv.head, hinv.tail, hinv.sched⟩

def blankRing : KeyRing where
  keyboard := { kbBuf := fun _ => 0#8, kbHead := 0, kbTail := 0, ctrlHeld := false }
  screen := { kX := 0#8, kY := 0#8, kattr := 0x0E#8, video := fun _ => 0#8 }
  sched := emptySched fun _ => newTask 0 0 0 0 0 0 0
  getchar := .outside

/-- Ctrl+C between the test of a call and its read: `q` comes out. -/
theorem keyring_fifo_interrupted : ∃ h s, Run RingStep blankRing h s ∧
    returned h = [113#8] ∧ accepted h = returned h ++ s.keyboard.queue ∧ Answered h ∧
      s.sched = interrupted blankRing.sched h := by
  have hstart : Run RingStep blankRing [] blankRing := .start
  have htested := (hstart.step (.key 0x10#8)).step (.test rfl)
  have hctrlC := (htested.step (.key 0x1D#8)).step (.key 0x2E#8)
  have hend := (hctrlC.step (.read rfl)).step (.retChar rfl)
  obtain ⟨horder, hanswered, _, _, hsched⟩ := keyring_fifo ⟨rfl, rfl, rfl, rfl⟩ hend
  exact ⟨_, _, hend, rfl, horder, hanswered, hsched⟩

end PepinOS
