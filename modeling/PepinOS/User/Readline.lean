import PepinOS.Drivers.KeyRing
import PepinOS.Process.Machine

/-!
# Typing at the shell

Three places hold what the user types. `keyboard_handler` echoes a character and
queues it in the ring of `keyboard.c`; `SYS_GETCHAR` takes it out; the loop in
`_start` of `user/shell.c` puts it in `line` and, at a newline, passes the line to
`execute`. The echo comes first and asks nobody: it is made also of a character
that finds the ring full, and of one that will find the line full.

`SYS_GETCHAR` runs with interrupts on, so a key may come between any two of its
accesses to the ring: `kb_head` is read, then compared with `kb_tail` and the
character read, then `kb_tail` moved on. Everything else the machine does (the
shell's printing, the other tasks, the timer) is one step that leaves the keyboard
alone. Signals to the shell are left out; without Ctrl only a line `raise N` sends one.

`readline_faithful`: while no key comes to a full ring and no line grows longer
than 127 characters, the lines executed are the lines echoed, in order.
-/

namespace PepinOS

def newline : U8 := 10#8

/-- Where the shell is in `SYS_GETCHAR`. -/
inductive Reading where
  /-- not in it -/
  | outside
  /-- it has read this `kb_head` -/
  | head (h : Nat)
  /-- it has read this character, and not moved `kb_tail` yet -/
  | char (c : U8)

/-- The shell: `line[0..pos)`, and the lines it has passed to `execute`. -/
structure Shell where
  line : List U8
  reading : Reading
  executed : List (List U8)

/-- `sizeof(line) - 1`. -/
def lineRoom : Nat := 127

/-- The body of the loop that reads a line, for the character `sys_getchar` returned. -/
def Shell.typed (sh : Shell) (c : U8) : Shell :=
  if c = 0#8 then sh
  else if c = newline ∨ c = 13#8 then
    { sh with line := [], executed := sh.executed ++ [sh.line] }
  else if c = 8#8 ∨ c = 127#8 then { sh with line := sh.line.dropLast }
  else if sh.line.length < lineRoom then { sh with line := sh.line ++ [c] }
  else sh

/-- The kernel, the shell, and all the keyboard handler has echoed so far. -/
structure Typing where
  kern : Kernel
  shell : Shell
  echoed : List U8

/-- One step; the label is the scancode, when it is a key. -/
inductive TypeStep : Typing → Option U8 → Typing → Prop where
  | key {s : Typing} {scancode : U8} : scancode ≠ scCtrlPress →
      TypeStep s (some scancode) { s with
        kern := s.kern.keyed scancode
        echoed := s.echoed ++ keyEcho s.kern.keyboard scancode }
  | other {s : Typing} {k : Kernel} : k.keyboard = s.kern.keyboard →
      TypeStep s none { s with kern := k }
  | getHead {s : Typing} : s.shell.reading = .outside →
      TypeStep s none { s with
        shell := { s.shell with reading := .head s.kern.keyboard.kbHead } }
  | getEmpty {s : Typing} {h : Nat} : s.shell.reading = .head h →
      kbPeek s.kern.keyboard h = none →
      TypeStep s none { s with shell := { s.shell with reading := .outside }.typed 0#8 }
  | getChar {s : Typing} {h : Nat} {c : U8} : s.shell.reading = .head h →
      kbPeek s.kern.keyboard h = some c →
      TypeStep s none { s with shell := { s.shell with reading := .char c } }
  | getDone {s : Typing} {c : U8} : s.shell.reading = .char c →
      TypeStep s none { s with
        kern := { s.kern with keyboard := kbAdvance s.kern.keyboard }
        shell := { s.shell with reading := .outside }.typed c }

/-- At the start nothing is queued, echoed or read, and Ctrl is up. -/
structure Typing.Fresh (s : Typing) : Prop where
  head : s.kern.keyboard.kbHead = 0
  tail : s.kern.keyboard.kbTail = 0
  ctrl : s.kern.keyboard.ctrlHeld = false
  shell : s.shell = ⟨[], .outside, []⟩
  echoed : s.echoed = []

/-- `line` is the text between two newlines next to each other, or from the start to
the first one. -/
def EchoedLine (text line : List U8) : Prop :=
  ∃ before after, text = before ++ line ++ newline :: after ∧ newline ∉ line ∧
    (before = [] ∨ ∃ b, before = b ++ [newline])

/-- The lines executed are the lines echoed, the first the first and so on. -/
def InEchoOrder (s : Typing) : Prop :=
  ∃ rest, s.echoed = (s.shell.executed.map (· ++ [newline])).flatten ++ rest

/-- No line of the text is longer than the shell's buffer. -/
def ShortLines (text : List U8) : Prop :=
  ∀ line, line <:+: text → newline ∉ line → line.length ≤ lineRoom

/-- There is room for the key: in the ring, and in the line it is echoed in. -/
def Roomy (s : Typing) : Option U8 → Prop
  | none => True
  | some scancode => ∀ c, keyChar scancode = some c →
      (s.kern.keyboard.kbHead + 1) % kbBufSize ≠ s.kern.keyboard.kbTail ∧
        ShortLines (s.echoed ++ [c])

/-! ## The invariant -/

/-- A step of `kb_getchar` under way has seen what the ring still holds. -/
def Reading.Sees (kb : Keyboard) : Reading → Prop
  | .outside => True
  | .head h => h ≠ kb.kbTail → kb.kbHead ≠ kb.kbTail
  | .char c => kb.kbHead ≠ kb.kbTail ∧ c = kb.kbBuf kb.kbTail

/-- What is echoed is executed, or in the line, or in the ring. -/
structure TypingInv (s : Typing) : Prop where
  head : s.kern.keyboard.kbHead < kbBufSize
  tail : s.kern.keyboard.kbTail < kbBufSize
  ctrl : s.kern.keyboard.ctrlHeld = false
  text : s.echoed = (s.shell.executed.map (· ++ [newline])).flatten ++
    (s.shell.line ++ s.kern.keyboard.queue)
  executed : ∀ line ∈ s.shell.executed, newline ∉ line
  line : newline ∉ s.shell.line
  chars : ∀ c ∈ s.kern.keyboard.queue, c ≠ 0#8 ∧ c ≠ 13#8 ∧ c ≠ 8#8 ∧ c ≠ 127#8
  sees : s.shell.reading.Sees s.kern.keyboard
  short : ShortLines s.echoed

theorem Typing.Fresh.inv {s : Typing} (h : s.Fresh) : TypingInv s := by
  have hqueue : s.kern.keyboard.queue = [] := by
    unfold Keyboard.queue
    rw [h.head, h.tail, queued_empty]
  have hzero : 0 < kbBufSize := Nat.zero_lt_succ 63
  constructor
  · rw [h.head]; exact hzero
  · rw [h.tail]; exact hzero
  · exact h.ctrl
  · rw [h.echoed, h.shell, hqueue]; rfl
  · rw [h.shell]; simp
  · rw [h.shell]; simp
  · rw [hqueue]; simp
  · rw [h.shell]; trivial
  · rw [h.echoed]
    intro line hline _
    rw [List.infix_nil.mp hline]
    exact Nat.zero_le _

/-- A key with room: its character is echoed and queued. -/
theorem TypingInv.key {s : Typing} (h : TypingInv s) {scancode : U8}
    (hkey : scancode ≠ scCtrlPress) (hroom : Roomy s (some scancode)) :
    TypingInv { s with
      kern := s.kern.keyed scancode
      echoed := s.echoed ++ keyEcho s.kern.keyboard scancode } := by
  have hkb : (s.kern.keyed scancode).keyboard = match keyChar scancode with
      | none => s.kern.keyboard
      | some c => kbPut s.kern.keyboard c :=
    keyboardHandler_plain hkey h.ctrl s.kern.screen s.kern.sched
  cases hchar : keyChar scancode with
  | none =>
    -- a release, or a key without a character
    have hecho : keyEcho s.kern.keyboard scancode = [] := by
      unfold keyEcho
      rw [hchar]
    simp only [hchar] at hkb
    constructor <;> simp only [hkb, hecho, List.append_nil]
    exacts [h.head, h.tail, h.ctrl, h.text, h.executed, h.line, h.chars, h.sees, h.short]
  | some c =>
    obtain ⟨hfree, hshort⟩ := hroom c hchar
    have hecho : keyEcho s.kern.keyboard scancode = [c] := by
      unfold keyEcho
      simp [hchar, h.ctrl]
    simp only [hchar, kbPut, if_pos hfree] at hkb
    have hnext : (s.kern.keyboard.kbHead + 1) % kbBufSize < kbBufSize :=
      Nat.mod_lt _ (Nat.zero_lt_succ 63)
    have hpush := queued_push s.kern.keyboard.kbBuf h.head h.tail hfree c
    constructor <;> simp only [hkb, hecho, Keyboard.queue, hpush]
    · exact hnext
    · exact h.tail
    · exact h.ctrl
    · rw [h.text]
      simp only [Keyboard.queue, List.append_assoc]
    · exact h.executed
    · exact h.line
    · intro d hd
      rcases List.mem_append.mp hd with hd | hd
      · exact h.chars d hd
      · rw [List.mem_singleton.mp hd]
        exact keyChar_typed hchar
    · -- the head never catches up with the tail
      have hsees := h.sees
      cases hr : s.shell.reading with
      | outside => trivial
      | head hd => exact fun _ => hfree
      | char d =>
        rw [hr] at hsees
        refine ⟨hfree, ?_⟩
        rw [hsees.2]
        exact (Function.update_of_ne hsees.1.symm _ _).symm
    · exact hshort

/-- The character taken out of the ring goes into the line, or ends it. -/
theorem TypingInv.getDone {s : Typing} (h : TypingInv s) {c : U8}
    (hread : s.shell.reading = .char c) :
    TypingInv { s with
      kern := { s.kern with keyboard := kbAdvance s.kern.keyboard }
      shell := { s.shell with reading := .outside }.typed c } := by
  have hsees := h.sees
  rw [hread] at hsees
  obtain ⟨hne, hc⟩ := hsees
  have hnext : (s.kern.keyboard.kbTail + 1) % kbBufSize < kbBufSize :=
    Nat.mod_lt _ (Nat.zero_lt_succ 63)
  have hqueue : s.kern.keyboard.queue = c :: (kbAdvance s.kern.keyboard).queue := by
    rw [hc]
    exact queued_pop s.kern.keyboard.kbBuf h.head h.tail hne
  obtain ⟨h0, h13, h8, h127⟩ := h.chars c (hqueue ▸ List.mem_cons_self ..)
  have hchars : ∀ d ∈ (kbAdvance s.kern.keyboard).queue,
      d ≠ 0#8 ∧ d ≠ 13#8 ∧ d ≠ 8#8 ∧ d ≠ 127#8 :=
    fun d hd => h.chars d (hqueue ▸ List.mem_cons_of_mem _ hd)
  have htext := h.text
  rw [hqueue] at htext
  by_cases hnl : c = newline
  · have hsh : { s.shell with reading := .outside }.typed c =
        ⟨[], .outside, s.shell.executed ++ [s.shell.line]⟩ := by
      unfold Shell.typed
      rw [if_neg h0, if_pos (.inl hnl)]
    constructor <;> simp only [hsh]
    · exact h.head
    · exact hnext
    · exact h.ctrl
    · rw [htext, hnl]
      simp only [List.map_append, List.flatten_append, List.map_singleton, List.flatten_singleton,
        List.append_assoc, List.nil_append, List.singleton_append]
    · intro line hline
      rcases List.mem_append.mp hline with hline | hline
      · exact h.executed line hline
      · rw [List.mem_singleton.mp hline]
        exact h.line
    · exact List.not_mem_nil
    · exact hchars
    · trivial
    · exact h.short
  · -- an ordinary character: the echoed line it belongs to is short, so there is room
    have hlong : newline ∉ s.shell.line ++ [c] := by
      intro hm
      rcases List.mem_append.mp hm with hm | hm
      · exact h.line hm
      · exact hnl (List.mem_singleton.mp hm).symm
    have hroom : s.shell.line.length < lineRoom := by
      have hinfix : s.shell.line ++ [c] <:+: s.echoed :=
        ⟨(s.shell.executed.map (· ++ [newline])).flatten, (kbAdvance s.kern.keyboard).queue, by
          rw [htext]; simp only [List.append_assoc, List.singleton_append]⟩
      have hle := h.short _ hinfix hlong
      rw [List.length_append, List.length_singleton] at hle
      exact hle
    have hsh : { s.shell with reading := .outside }.typed c =
        ⟨s.shell.line ++ [c], .outside, s.shell.executed⟩ := by
      unfold Shell.typed
      rw [if_neg h0, if_neg (not_or.mpr ⟨hnl, h13⟩), if_neg (not_or.mpr ⟨h8, h127⟩), if_pos hroom]
    constructor <;> simp only [hsh]
    · exact h.head
    · exact hnext
    · exact h.ctrl
    · rw [htext]
      simp only [List.append_assoc, List.singleton_append]
    · exact h.executed
    · exact hlong
    · exact hchars
    · trivial
    · exact h.short

/-- Every step with room keeps the invariant. -/
theorem TypingInv.step {s s' : Typing} {e : Option U8} (h : TypingInv s) (hroom : Roomy s e)
    (hstep : TypeStep s e s') : TypingInv s' := by
  cases hstep with
  | key hkey => exact h.key hkey hroom
  | other hk =>
    constructor <;> simp only [hk]
    exacts [h.head, h.tail, h.ctrl, h.text, h.executed, h.line, h.chars, h.sees, h.short]
  | getHead hread =>
    exact ⟨h.head, h.tail, h.ctrl, h.text, h.executed, h.line, h.chars, id, h.short⟩
  | getEmpty hread hpeek =>
    exact ⟨h.head, h.tail, h.ctrl, h.text, h.executed, h.line, h.chars, trivial, h.short⟩
  | @getChar hd c hread hpeek =>
    have hsees := h.sees
    rw [hread] at hsees
    have hnew : s.kern.keyboard.kbHead ≠ s.kern.keyboard.kbTail ∧
        c = s.kern.keyboard.kbBuf s.kern.keyboard.kbTail := by
      unfold kbPeek at hpeek
      split at hpeek
      next => cases hpeek
      next hne =>
        cases hpeek
        exact ⟨hsees hne, rfl⟩
    exact ⟨h.head, h.tail, h.ctrl, h.text, h.executed, h.line, h.chars, hnew, h.short⟩
  | getDone hread => exact h.getDone hread

/-! ## Lines in the order they were echoed -/

/-- Lines in echo order are each what was echoed between two newlines. -/
theorem echoedLine_of_order {executed : List (List U8)} {rest : List U8}
    (hplain : ∀ line ∈ executed, newline ∉ line) {line : List U8} (hmem : line ∈ executed) :
    EchoedLine ((executed.map (· ++ [newline])).flatten ++ rest) line := by
  obtain ⟨xs, ys, rfl⟩ := List.append_of_mem hmem
  refine ⟨(xs.map (· ++ [newline])).flatten, (ys.map (· ++ [newline])).flatten ++ rest, ?_,
    hplain line hmem, ?_⟩
  · simp only [List.map_append, List.map_cons, List.flatten_append, List.flatten_cons,
      List.append_assoc, List.cons_append, List.nil_append]
  · rcases List.eq_nil_or_concat xs with hnil | ⟨ys, y, hlast⟩
    · exact .inl (by rw [hnil]; rfl)
    · refine .inr ⟨(ys.map (· ++ [newline])).flatten ++ y, ?_⟩
      rw [hlast]
      simp only [List.concat_eq_append, List.map_append, List.map_singleton, List.flatten_append,
        List.flatten_singleton, List.append_assoc]

/-- **What the user sees is what is executed, while there is room**: if every key finds
room in the ring and in its line, each line passed to `execute` is what was echoed
between two newlines, and the lines come in the order of the echo. -/
theorem readline_faithful {s₀ s : Typing} {h : List (Option U8)} (hfresh : s₀.Fresh)
    (hrun : Run (fun s e s' => Roomy s e ∧ TypeStep s e s') s₀ h s) :
    InEchoOrder s ∧ ∀ line ∈ s.shell.executed, EchoedLine s.echoed line := by
  have hinv : TypingInv s := by
    apply hrun.ind TypingInv hfresh.inv
    intro s e s' hs hstep
    exact hs.step hstep.1 hstep.2
  refine ⟨⟨_, hinv.text⟩, fun line hline => ?_⟩
  rw [hinv.text]
  exact echoedLine_of_order hinv.executed hline

/-- A kernel with an empty keyboard, and a shell that has read nothing. -/
def blankTyping : Typing where
  kern :=
    { sched := emptySched fun _ => newTask 0 0 0 0 0 0 0
      esp0 := 0#32
      nodePool := fun _ => ⟨fun _ => 0#8, 0#32, 0#32, 0#32, none, false⟩
      keyboard := ⟨fun _ => 0#8, 0, 0, false⟩
      screen := ⟨0#8, 0#8, 0x07#8, fun _ => 0#8⟩ }
  shell := ⟨[], .outside, []⟩
  echoed := []

theorem blankTyping_fresh : blankTyping.Fresh := ⟨rfl, rfl, rfl, rfl, rfl⟩

def keyA : U8 := 0x1E#8
def keyEnter : U8 := 0x1C#8

/-- The handler and the echo of a key with a character, Ctrl being up. -/
theorem keyed_char {k : Kernel} (hctrl : k.keyboard.ctrlHeld = false) {scancode c : U8}
    (hkey : scancode ≠ scCtrlPress) (hchar : keyChar scancode = some c) :
    (k.keyed scancode).keyboard = kbPut k.keyboard c ∧ keyEcho k.keyboard scancode = [c] := by
  constructor
  · have hkb := keyboardHandler_plain hkey hctrl k.screen k.sched
    rw [hchar] at hkb
    exact hkb
  · unfold keyEcho
    simp [hchar, hctrl]

/-- `n` keys queued, `t` of them read, `e` echoed, all of them `a`. -/
structure TypedAs (n t e : Nat) (s : Typing) : Prop where
  head : s.kern.keyboard.kbHead = n
  tail : s.kern.keyboard.kbTail = t
  ctrl : s.kern.keyboard.ctrlHeld = false
  buf : ∀ i < n, s.kern.keyboard.kbBuf i = 97#8
  shell : s.shell = ⟨List.replicate t 97#8, .outside, []⟩
  echoed : s.echoed = List.replicate e 97#8

/-- One more `a`, echoed; it is queued unless the ring is full. -/
theorem TypedAs.press {n e : Nat} {s : Typing} (h : TypedAs n 0 e s) (hn : n ≤ 63) :
    ∃ s', TypeStep s (some keyA) s' ∧ TypedAs (min (n + 1) 63) 0 (e + 1) s' := by
  obtain ⟨hkb, hecho⟩ := keyed_char h.ctrl (show keyA ≠ scCtrlPress by decide)
    (show keyChar keyA = some 97#8 from rfl)
  refine ⟨_, .key (by decide), ?_⟩
  unfold kbPut at hkb
  rw [h.head, h.tail] at hkb
  have hechoed : s.echoed ++ [97#8] = List.replicate (e + 1) 97#8 := by
    rw [h.echoed, List.replicate_succ']
  rcases Nat.lt_or_ge n 63 with hlt | hge
  · have hnext : (n + 1) % kbBufSize = n + 1 := Nat.mod_eq_of_lt (by unfold kbBufSize; omega)
    rw [hnext, if_pos (by omega)] at hkb
    rw [show min (n + 1) 63 = n + 1 by omega]
    constructor <;> simp only [hkb, hecho]
    · exact h.ctrl
    · intro i hi
      by_cases hin : i = n
      · rw [hin, Function.update_self]
      · rw [Function.update_of_ne hin]
        exact h.buf i (by omega)
    · exact h.shell
    · exact hechoed
  · have hfull : (n + 1) % kbBufSize = 0 := by unfold kbBufSize; omega
    rw [hfull, if_neg (not_not.mpr rfl)] at hkb
    rw [show min (n + 1) 63 = n by omega]
    constructor <;> simp only [hkb, hecho]
    exacts [h.head, h.tail, h.ctrl, h.buf, h.shell, hechoed]

/-- The shell reads the next one. -/
theorem TypedAs.read {R : Typing → Option U8 → Typing → Prop}
    (hquiet : ∀ s s', TypeStep s none s' → R s none s') {n t e : Nat} {s : Typing}
    (h : TypedAs n t e s) (ht : t < n) (hn : n ≤ 63) :
    ∃ h' s', Run R s h' s' ∧ TypedAs n (t + 1) e s' := by
  have hpeek : kbPeek s.kern.keyboard s.kern.keyboard.kbHead = some 97#8 := by
    unfold kbPeek
    rw [h.head, h.tail, if_neg (by omega), h.buf t ht]
  have hout : s.shell.reading = .outside := by rw [h.shell]
  refine ⟨_, _, ((Run.start.step (hquiet _ _ (.getHead hout))).step
    (hquiet _ _ (.getChar rfl hpeek))).step (hquiet _ _ (.getDone rfl)), ?_⟩
  have hnext : (t + 1) % kbBufSize = t + 1 := Nat.mod_eq_of_lt (by unfold kbBufSize; omega)
  constructor
  · exact h.head
  · show (s.kern.keyboard.kbTail + 1) % kbBufSize = t + 1
    rw [h.tail, hnext]
  · exact h.ctrl
  · exact h.buf
  · unfold Shell.typed
    simp only [h.shell]
    rw [if_neg (by decide), if_neg (by decide), if_neg (by decide), if_pos]
    · rw [List.replicate_succ']
    · rw [List.length_replicate]
      exact Nat.lt_of_lt_of_le (Nat.lt_of_lt_of_le ht hn) (by decide)
  · exact h.echoed

/-- The newline, queued behind what is read, and read. -/
theorem TypedAs.enter {R : Typing → Option U8 → Typing → Prop}
    (hquiet : ∀ s s', TypeStep s none s' → R s none s') {n e : Nat} {s : Typing}
    (h : TypedAs n n e s)
    (hkey : ∀ s', TypeStep s (some keyEnter) s' → R s (some keyEnter) s') :
    ∃ h' s', Run R s h' s' ∧ s'.shell.executed = [List.replicate n 97#8] ∧
      s'.echoed = List.replicate e 97#8 ++ [newline] := by
  obtain ⟨hkb, hecho⟩ := keyed_char h.ctrl (show keyEnter ≠ scCtrlPress by decide)
    (show keyChar keyEnter = some newline from rfl)
  have hnext : (n + 1) % kbBufSize ≠ n := by unfold kbBufSize; omega
  unfold kbPut at hkb
  rw [h.head, h.tail, if_pos hnext] at hkb
  have hpeek : kbPeek (s.kern.keyed keyEnter).keyboard (s.kern.keyed keyEnter).keyboard.kbHead =
      some newline := by
    rw [hkb]
    unfold kbPeek
    simp only
    rw [if_neg hnext, Function.update_self]
  have hout : s.shell.reading = .outside := by rw [h.shell]
  refine ⟨_, _, (((Run.start.step (hkey _ (.key (by decide)))).step
    (hquiet _ _ (.getHead hout))).step (hquiet _ _ (.getChar rfl hpeek))).step
    (hquiet _ _ (.getDone rfl)), ?_, ?_⟩
  · unfold Shell.typed
    simp only [h.shell]
    rw [if_neg (by decide), if_pos (.inl trivial)]
    rfl
  · show s.echoed ++ keyEcho s.kern.keyboard keyEnter = _
    rw [hecho, h.echoed]

/-- Another key finds room while the ring is read up. -/
theorem TypedAs.roomy {n e : Nat} {s : Typing} (h : TypedAs n n e s) (he : e < lineRoom)
    (scancode : U8) : Roomy s (some scancode) := by
  intro c _
  refine ⟨?_, fun line hline _ => ?_⟩
  · rw [h.head, h.tail]
    unfold kbBufSize
    omega
  · have hlen := hline.length_le
    rw [h.echoed, List.length_append, List.length_replicate, List.length_singleton] at hlen
    omega

theorem blankTyping_typed : TypedAs 0 0 0 blankTyping :=
  ⟨rfl, rfl, rfl, fun i hi => absurd hi (by omega), rfl, rfl⟩

/-- The user types an `a` and, when the shell has read it, Enter; the shell executes the line. -/
theorem readline_faithful_letter : ∃ h s,
    Run (fun s e s' => Roomy s e ∧ TypeStep s e s') blankTyping h s ∧
      s.echoed = [97#8, newline] ∧ s.shell.executed = [[97#8]] ∧
      InEchoOrder s ∧ ∀ line ∈ s.shell.executed, EchoedLine s.echoed line := by
  let R : Typing → Option U8 → Typing → Prop := fun s e s' => Roomy s e ∧ TypeStep s e s'
  have hquiet : ∀ s s', TypeStep s none s' → R s none s' := fun _ _ hs => ⟨trivial, hs⟩
  have hroom := blankTyping_typed.roomy (by decide) keyA
  obtain ⟨s1, hpress, h1⟩ := blankTyping_typed.press (by omega)
  obtain ⟨_, s2, hrun2, h2⟩ := h1.read (R := R) hquiet (by omega) (by omega)
  obtain ⟨_, s3, hrun3, hexec, hecho⟩ := h2.enter (R := R) hquiet fun _ hs =>
    ⟨h2.roomy (by decide) _, hs⟩
  have hrun := ((Run.start.step ⟨hroom, hpress⟩).append hrun2).append hrun3
  exact ⟨_, s3, hrun, hecho, hexec, readline_faithful blankTyping_fresh hrun⟩

/-! ## Sixty-four keys at once

The user types sixty-four times an `a` before the shell reads any: the ring takes
sixty-three. -/

theorem TypedAs.pressAll {s₀ : Typing} (h : TypedAs 0 0 0 s₀) :
    ∀ e, ∃ h s, Run TypeStep s₀ h s ∧ TypedAs (min e 63) 0 e s := by
  intro e
  induction e with
  | zero => exact ⟨[], s₀, .start, h⟩
  | succ e ih =>
    obtain ⟨hs, s, hrun, hs1⟩ := ih
    obtain ⟨s', hstep, hs2⟩ := hs1.press (Nat.min_le_right e 63)
    refine ⟨_, s', hrun.step hstep, ?_⟩
    rw [show min (e + 1) 63 = min (min e 63 + 1) 63 by omega]
    exact hs2

theorem TypedAs.readAll {n e : Nat} {s₀ : Typing} (h : TypedAs n 0 e s₀) (hn : n ≤ 63) :
    ∀ t ≤ n, ∃ h s, Run TypeStep s₀ h s ∧ TypedAs n t e s := by
  intro t
  induction t with
  | zero => exact fun _ => ⟨[], s₀, .start, h⟩
  | succ t ih =>
    intro ht
    obtain ⟨hs, s, hrun, hs1⟩ := ih (by omega)
    obtain ⟨hs', s', hrun', hs2⟩ := hs1.read (fun _ _ hs => hs) (by omega) hn
    exact ⟨_, s', hrun.append hrun', hs2⟩

theorem not_echoedLine_short {n : Nat} :
    ¬EchoedLine (List.replicate (n + 1) 97#8 ++ [newline]) (List.replicate n 97#8) := by
  rintro ⟨before, after, htext, hplain, hnil | ⟨b, hb⟩⟩
  · -- the line would end where the last `a` stands
    rw [hnil, List.nil_append, List.replicate_succ', List.append_assoc] at htext
    have htail := List.append_cancel_left htext
    have hfirst : (97#8 : U8) = newline := (List.cons.inj htail).1
    exact absurd hfirst (by decide)
  · -- a newline before the line leaves no place for it
    have hlen := congrArg List.length htext
    rw [hb] at hlen
    simp only [List.length_append, List.length_replicate, List.length_cons, List.length_nil] at hlen
    have hb0 : b = [] := List.length_eq_zero_iff.mp (by omega)
    rw [hb, hb0, List.replicate_succ] at htext
    have hfirst : (97#8 : U8) = newline := (List.cons.inj htext).1
    exact absurd hfirst (by decide)

theorem readline_drops :
    ¬∀ (s₀ s : Typing) (h : List (Option U8)), s₀.Fresh → Run TypeStep s₀ h s →
      ∀ line ∈ s.shell.executed, EchoedLine s.echoed line := by
  intro hall
  obtain ⟨_, s1, hrun1, h1⟩ := blankTyping_typed.pressAll 64
  obtain ⟨_, s2, hrun2, h2⟩ := h1.readAll (Nat.le_refl 63) 63 (Nat.le_refl 63)
  obtain ⟨_, s3, hrun3, hexec, hecho⟩ := h2.enter (fun _ _ hs => hs) fun _ hs => hs
  have hline := hall blankTyping s3 _ blankTyping_fresh ((hrun1.append hrun2).append hrun3)
    (List.replicate 63 97#8) (by rw [hexec]; exact List.mem_singleton_self _)
  rw [hecho] at hline
  exact not_echoedLine_short hline

end PepinOS
