import PepinOS.User.Execute

/-!
# The language of the shell

`execute` tests the line against one literal after another, some with `str_eq` and some
with `str_starts`, and finds the argument by skipping a word. Read as a language it is
smaller than that: a line is a word, or a word, a space and an argument, and three words take
one (`Command.parse`). `Command.Runs` is what a command means: the text it shows, in white
whatever colours it asks for, and the call it ends in. `execute_parse`: `execute` does to every
line what the command it parses to means.
-/

namespace PepinOS

def space : U8 := 32#8

/-! ## Lines -/

def firstWord (line : List U8) : List U8 := line.takeWhile (· != space)

/-- From the first space on. -/
def afterWord (line : List U8) : List U8 := line.dropWhile (· != space)

def argument (line : List U8) : List U8 := (afterWord line).dropWhile (· == space)

inductive Command where
  | help
  | ls
  | cat (arg : List U8)
  | echo (arg : List U8)
  /-- `echo` by itself -/
  | newline
  | clear
  | raise (arg : List U8)
  | nothing
  | unknown (line : List U8)

def Command.parse (line : List U8) : Command :=
  if afterWord line = [] then
    if line = textBytes "help" then .help
    else if line = textBytes "ls" then .ls
    else if line = textBytes "cat" then .cat []
    else if line = textBytes "echo" then .newline
    else if line = textBytes "clear" then .clear
    else if line = textBytes "raise" then .raise []
    else if line = [] then .nothing
    else .unknown line
  else if firstWord line = textBytes "cat" then .cat (argument line)
  else if firstWord line = textBytes "echo" then .echo (argument line)
  else if firstWord line = textBytes "raise" then .raise (argument line)
  else .unknown line

/-- Trailing spaces count: `help ` is no command. -/
example : Command.parse (textBytes "help ") = .unknown (textBytes "help ") := rfl

theorem afterWord_head {line : List U8} (h : afterWord line ≠ []) :
    ∃ rest, afterWord line = space :: rest := by
  obtain ⟨c, rest, hcons⟩ := List.exists_cons_of_ne_nil h
  have hc := List.head?_dropWhile_not (· != space) line
  unfold afterWord at hcons ⊢
  rw [hcons] at hc ⊢
  have hspace : c = space := by simpa using hc
  exact ⟨rest, by rw [hspace]⟩

theorem firstWord_append {w : List U8} (hw : space ∉ w) (rest : List U8) :
    firstWord (w ++ space :: rest) = w ∧ afterWord (w ++ space :: rest) = space :: rest := by
  have hall : ∀ c ∈ w, (c != space) = true := fun c hc => by
    refine bne_iff_ne.mpr ?_
    rintro rfl
    exact hw hc
  unfold firstWord afterWord
  rw [List.takeWhile_append_of_pos hall, List.dropWhile_append_of_pos hall]
  exact ⟨List.append_nil w, rfl⟩

/-- The prefix tests look for a first word that something follows. -/
theorem isPrefixOf_word {w line : List U8} (hw : space ∉ w) :
    (w ++ [space]).isPrefixOf line = true ↔ firstWord line = w ∧ afterWord line ≠ [] := by
  rw [List.isPrefixOf_iff_prefix]
  constructor
  · rintro ⟨rest, rfl⟩
    rw [List.append_assoc, List.singleton_append]
    obtain ⟨hfirst, hafter⟩ := firstWord_append hw rest
    rw [hfirst, hafter]
    exact ⟨rfl, List.cons_ne_nil _ _⟩
  · rintro ⟨rfl, hafter⟩
    obtain ⟨rest, hrest⟩ := afterWord_head hafter
    refine ⟨rest, ?_⟩
    rw [List.append_assoc, List.singleton_append, ← hrest]
    exact List.takeWhile_append_dropWhile

/-- A word is no line with a space in it. -/
theorem afterWord_word {w : List U8} (hw : space ∉ w) : afterWord w = [] := by
  refine List.dropWhile_eq_nil_iff.mpr fun c hc => bne_iff_ne.mpr ?_
  rintro rfl
  exact hw hc

/-! ## What a command means -/

/-- The calls so far have shown `text`, in white, and done nothing else. -/
structure Said (s : Calling) (text : List U8) (u : Session) : Prop where
  calling : ∃ scr, u.calling = { s with kern := { s.kern with screen := scr } } ∧
    setAttr 0x0F#8 scr = print text (setAttr 0x0F#8 s.kern.screen)
  shown : u.shown = text
  quiet : ∀ ev ∈ u.events, ev = .quiet

def Answers (p : Program) (d : ShellData) (s : Calling) (text : List U8) : Prop :=
  ∃ u, execute p d ⟨s, [], []⟩ = .ok u ∧ Said s text u

def helpLines : List String :=
  ["  help          - muestra esta ayuda\n",
    "  ls            - lista el directorio raiz\n",
    "  cat <archivo> - muestra el contenido de un archivo\n",
    "  echo <texto>  - imprime texto\n",
    "  clear         - limpia la pantalla\n",
    "  raise <N>     - envia la senal N al proceso actual\n",
    "\nSenales instaladas:\n",
    "  SIGINT  (2)   - Ctrl+C\n",
    "  SIGUSR1 (10)  - raise 10\n",
    "  SIGTERM (15)  - raise 15\n"]

def helpText : List U8 := textBytes "Comandos disponibles:\n" ++ helpLines.flatMap textBytes

/-- The `int` that `str_atoi` makes of a text: its leading digits, modulo `2^32`. -/
def atoi (text : List U8) : U32 := BitVec.ofNat 32 (decimal (text.takeWhile fun c => IsDigit c))

/-- `execute`, on a line with this command, from the state `s`. -/
def Command.Runs (p : Program) (d : ShellData) (s : Calling) : Command → Prop
  | .help => Answers p d s helpText
  | .ls => execute p d ⟨s, [], []⟩ = (⟨s, [], []⟩ : Session).sysLs p
  | .cat arg =>
    if arg = [] then Answers p d s (textBytes "uso: cat <archivo>\n")
    else ∃ path, execute p d ⟨s, [], []⟩ = cmdCat p d.buf path ⟨s, [], []⟩ ∧
      ∀ u : Session, u.calling.mem = s.mem → StringAt (u.fetch p) arg path
  | .echo arg => Answers p d s (arg ++ [PepinOS.newline])
  | .newline => Answers p d s [PepinOS.newline]
  | .clear => Answers p d s (List.replicate 25 PepinOS.newline)
  | .raise arg =>
    if arg = [] then Answers p d s (textBytes "uso: raise <numero_senal>\n")
    else if (atoi arg).toInt ≤ 0 then Answers p d s (textBytes "raise: numero de senal invalido\n")
    else ∃ u, execute p d ⟨s, [], []⟩ = u.sysKill p (atoi arg) ∧
      Said s (textBytes "Enviando senal " ++ arg ++ textBytes "...\n") u
  | .nothing => execute p d ⟨s, [], []⟩ = .ok ⟨s, [], []⟩
  | .unknown line => Answers p d s (textBytes "desconocido: " ++ line ++ [PepinOS.newline])

/-- The shell has read `line` into its array. -/
structure TypedLine (p : Program) (d : ShellData) (s : Calling) (line : List U8) : Prop where
  buffer : UserBuffer p.env.link s.mem p.cr3 d.line 128
  bytes : ∀ j b, (line)[j]? = some b →
    userByte s.mem p.cr3 (d.line + BitVec.ofNat 32 j) = some b
  nul : userByte s.mem p.cr3 (d.line + BitVec.ofNat 32 line.length) = some 0#8
  nonzero : 0#8 ∉ line
  short : line.length ≤ 127
  empty : (⟨s, [], []⟩ : Session).load p d.empty = .ok 0#8

/-! ## Showing text -/

section Said

variable {p : Program} {s : Calling} {text : List U8} {u : Session}

theorem setAttr_print : ∀ (text : List U8) (scr : Screen),
    setAttr scr.kattr (print text scr) = print text scr
  | [], _ => rfl
  | c :: text, scr => by
    have ih := setAttr_print text (putcar scr c)
    rw [putcar_kattr] at ih
    exact ih

theorem Said.start (s : Calling) : Said s [] ⟨s, [], []⟩ :=
  ⟨⟨s.kern.screen, rfl, rfl⟩, rfl, fun _ hev => absurd hev List.not_mem_nil⟩

theorem Said.mem (h : Said s text u) : u.calling.mem = s.mem := by
  obtain ⟨⟨_, hcalling, _⟩, _, _⟩ := h
  rw [hcalling]

theorem quiet_concat {evs : List Event} (h : ∀ ev ∈ evs, ev = .quiet) :
    ∀ ev ∈ evs ++ [.quiet], ev = .quiet := by
  intro ev hev
  rcases List.mem_append.mp hev with hev | hev
  · exact h ev hev
  · exact List.mem_singleton.mp hev

/-- A colour changes nothing that white will show. -/
theorem Said.color (h : Said s text u) (attr : U8) :
    ∃ u', u.sysSetcolor p attr = .ok u' ∧ Said s text u' := by
  obtain ⟨⟨scr, hcalling, hscr⟩, hshown, hquiet⟩ := h
  have hcall := Session.int30_returns (p := p) (u := u)
    (syscallHandler_setcolor (f := { p.frame with eax := sysSetcolor, ebx := attr.setWidth 32 }) rfl)
  have hcolor : u.sysSetcolor p attr = .ok ⟨{ u.calling with
      kern := { u.calling.kern with
        screen := setAttr ((attr.setWidth 32).setWidth 8) u.calling.kern.screen } },
      u.events ++ [.quiet], u.shown⟩ := by
    unfold Session.sysSetcolor
    rw [hcall]
    rfl
  refine ⟨_, hcolor, ⟨setAttr ((attr.setWidth 32).setWidth 8) scr, ?_, hscr⟩, hshown,
    quiet_concat hquiet⟩
  rw [hcalling]

/-- What `SYS_PRINT` does with a text, wherever it comes from. -/
theorem Said.printed (h : Said s text u) (more : List U8) :
    Said s (text ++ more) ⟨{ u.calling with kern := u.calling.kern.printed 0x0F#8 more },
      u.events ++ [.quiet], u.shown ++ more⟩ := by
  obtain ⟨⟨scr, hcalling, hscr⟩, hshown, hquiet⟩ := h
  refine ⟨⟨print more (setAttr 0x0F#8 scr), ?_, ?_⟩, ?_, quiet_concat hquiet⟩
  · rw [hcalling]
    rfl
  · rw [print_append, ← hscr]
    exact setAttr_print more (setAttr 0x0F#8 scr)
  · rw [hshown]

theorem Said.literal (h : Said s text u) (lit : String) :
    Said s (text ++ textBytes lit) (u.printLiteral lit) := h.printed (textBytes lit)

/-- The first text. -/
theorem Said.only (h : Said s [] u) (lit : String) : Said s (textBytes lit) (u.printLiteral lit) := by
  have hlit := h.literal lit
  rwa [List.nil_append] at hlit

theorem Said.literals : ∀ (lits : List String) {text : List U8} {u : Session}, Said s text u →
    Said s (text ++ lits.flatMap textBytes) (lits.foldl Session.printLiteral u)
  | [], _, _, h => by
    rw [List.flatMap_nil, List.append_nil]
    exact h
  | lit :: lits, _, _, h => by
    rw [List.flatMap_cons, ← List.append_assoc]
    exact Said.literals lits (h.literal lit)

theorem Said.print (h : Said s text u) {more : List U8} {a : U32}
    (hs : StringAt (u.fetch p) more a) (hlen : more.length < 2 ^ 32) :
    ∃ u', u.sysPrint p a = .ok u' ∧ Said s (text ++ more) u' := by
  have hstr : cString (u.fetch p) (2 ^ 32) a = .ok (some more) := hs.cString hlen
  have hcall := callPrint_string (f := { p.frame with eax := sysPrint, ebx := a }) hstr
  refine ⟨_, ?_, h.printed more⟩
  unfold Session.sysPrint
  rw [hstr, show u.int30 p { p.frame with eax := PepinOS.sysPrint, ebx := a } = _ from
    Session.int30_returns (syscallHandler_print rfl hcall)]
  rfl

end Said

/-! ## Finding the argument -/

section Line

variable {p : Program} {d : ShellData} {s : Calling} {line : List U8} {u : Session}

theorem Reads.head {ε : Type} {load : U32 → Except ε U8} {text : List U8} {a : U32}
    (h : Reads load text a) : load a = .ok (text.headD 0#8) := by
  cases text with
  | nil => exact h
  | cons => exact h.2.1

/-- Where the argument is. -/
def argAddr (d : ShellData) (line : List U8) : U32 :=
  d.line + BitVec.ofNat 32 (firstWord line).length +
    BitVec.ofNat 32 ((afterWord line).takeWhile (· == space)).length

theorem line_parts (line : List U8) :
    line = firstWord line ++ ((afterWord line).takeWhile (· == space) ++ argument line) := by
  unfold argument
  rw [List.takeWhile_append_dropWhile]
  exact List.takeWhile_append_dropWhile.symm

theorem argument_length (line : List U8) : (argument line).length ≤ line.length :=
  ((List.dropWhile_sublist _).trans (List.dropWhile_sublist _)).length_le

namespace TypedLine

variable (h : TypedLine p d s line)

include h

/-- The shell's own loads and the kernel's find the line, in any state with this memory. -/
theorem reads (hmem : u.calling.mem = s.mem) :
    Reads (u.load p) line d.line ∧ Reads (u.fetch p) line d.line := by
  have hshort := h.short
  have hbuf : UserBuffer p.env.link u.calling.mem p.cr3 d.line 128 := hmem ▸ h.buffer
  have hbytes : ∀ j b, (line)[j]? = some b → b ≠ 0#8 ∧ j < 128 ∧
      userByte u.calling.mem p.cr3 (d.line + BitVec.ofNat 32 j) = some b := by
    intro j b hj
    have hlt := (List.getElem?_eq_some_iff.mp hj).1
    refine ⟨?_, by omega, hmem ▸ h.bytes j b hj⟩
    rintro rfl
    exact h.nonzero (List.mem_of_getElem? hj)
  have hnul : userByte u.calling.mem p.cr3 (d.line + BitVec.ofNat 32 line.length) = some 0#8 :=
    hmem ▸ h.nul
  constructor
  · refine Reads.of_bytes (fun j b hj => ?_) (hbuf.userLoad (by omega) hnul)
    obtain ⟨h0, hlt, hb⟩ := hbytes j b hj
    exact ⟨h0, hbuf.userLoad hlt hb⟩
  · refine Reads.of_bytes (fun j b hj => ?_) (hbuf.load _ _ (by omega) hnul)
    obtain ⟨h0, hlt, hb⟩ := hbytes j b hj
    exact ⟨h0, hbuf.load _ _ hlt hb⟩

theorem readsArg (hmem : u.calling.mem = s.mem) :
    Reads (u.load p) (argument line) (argAddr d line) ∧
      Reads (u.fetch p) (argument line) (argAddr d line) := by
  obtain ⟨hload, hfetch⟩ := h.reads hmem
  rw [line_parts line] at hload hfetch
  exact ⟨hload.drop.drop, hfetch.drop.drop⟩

/-- `str_skip_word` gets to the argument. -/
theorem skipWord (hmem : u.calling.mem = s.mem) :
    strSkipWord (u.load p) d.line = .ok (argAddr d line) := by
  have hshort := h.short
  have hload := (h.reads hmem).1
  rw [line_parts line] at hload
  have hlen := congrArg List.length (line_parts line)
  rw [List.length_append, List.length_append] at hlen
  have hword : ∀ c ∈ firstWord line, (c != 0#8 && c != 32#8) = true := by
    intro c hc
    have hne : (c != space) = true := List.mem_takeWhile_imp (p := (· != space)) hc
    have h0 : c ≠ 0#8 := by
      rintro rfl
      exact h.nonzero (List.takeWhile_subset _ hc)
    rw [Bool.and_eq_true]
    exact ⟨bne_iff_ne.mpr h0, hne⟩
  have hfirst : skipWhile (u.load p) (fun c => c != 0#8 && c != 32#8) (2 ^ 32) d.line =
      .ok (d.line + BitVec.ofNat 32 (firstWord line).length) := by
    refine skipWhile_run hload hword hload.drop.head ?_ (by omega)
    unfold argument
    rw [List.takeWhile_append_dropWhile]
    by_cases hafter : afterWord line = []
    · rw [hafter]
      rfl
    · obtain ⟨rest, hrest⟩ := afterWord_head hafter
      rw [hrest]
      rfl
  have hsecond : skipWhile (u.load p) (fun c => c == 32#8) (2 ^ 32)
      (d.line + BitVec.ofNat 32 (firstWord line).length) = .ok (argAddr d line) := by
    refine skipWhile_run hload.drop
      (fun c hc => List.mem_takeWhile_imp (p := (· == space)) hc) hload.drop.drop.head ?_ (by omega)
    have hnot := List.head?_dropWhile_not (· == space) (afterWord line)
    cases harg : argument line with
    | nil => rfl
    | cons c rest =>
      unfold argument at harg
      rw [harg] at hnot
      exact hnot
  unfold strSkipWord
  rw [hfirst, ok_bind]
  exact hsecond

end TypedLine

end Line

/-! ## Numbers -/

/-- The test of `str_atoi`, on signed characters. -/
theorem isDigit_iff (c : U8) : 48 ≤ c.toInt ∧ c.toInt ≤ 57 ↔ IsDigit c := by
  have hlt := c.isLt
  unfold IsDigit
  rw [BitVec.toInt_eq_toNat_cond]
  split <;> omega

/-- **`str_atoi`** of any text. -/
theorem strAtoi_text {load : U32 → Except Stop U8} {text : List U8} {a : U32}
    (h : Reads load text a) (hlen : text.length < 2 ^ 32) : strAtoi load a = .ok (atoi text) := by
  have key : ∀ {text : List U8} {a : U32} {k : Nat} (n : Nat), Reads load text a →
      text.length < k → atoiLoop load k (BitVec.ofNat 32 n) a =
        .ok (BitVec.ofNat 32 ((text.takeWhile fun c => IsDigit c).foldl
          (fun n c => n * 10 + (c.toNat - 48)) n)) := by
    intro text
    induction text with
    | nil =>
      intro a k n h hk
      obtain ⟨k, rfl⟩ := Nat.exists_eq_succ_of_ne_zero (Nat.ne_of_gt hk)
      rw [atoiLoop, show load a = .ok 0#8 from h]
      rfl
    | cons c text ih =>
      intro a k n h hk
      obtain ⟨k, rfl⟩ := Nat.exists_eq_succ_of_ne_zero (Nat.ne_of_gt (Nat.zero_lt_of_lt hk))
      rw [atoiLoop, h.2.1, ok_bind]
      by_cases hc : IsDigit c
      · rw [if_pos ((isDigit_iff c).mpr hc), hc.next, List.takeWhile_cons, if_pos (decide_eq_true hc)]
        exact ih _ h.2.2 (Nat.lt_of_succ_lt_succ hk)
      · rw [if_neg fun hd => hc ((isDigit_iff c).mp hd),
          List.takeWhile_cons, if_neg fun hd => hc (of_decide_eq_true hd)]
        rfl
  exact key 0 h hlen

/-! ## The dispatch -/

/-- Where `execute` has the argument of `cat` and `raise`: the empty literal, without one. -/
def argPlace (d : ShellData) (line : List U8) : U32 :=
  if afterWord line = [] then d.empty else argAddr d line

/-- The branch of `execute` for a command. -/
def Command.branch (p : Program) (d : ShellData) (line : List U8) (u : Session) :
    Command → Except Stop Session
  | .help => cmdHelp p u
  | .ls => u.sysLs p
  | .cat _ => cmdCat p d.buf (argPlace d line) u
  | .echo _ => cmdEcho p (argAddr d line) u
  | .newline => return u.printLiteral "\n"
  | .clear => cmdClear p u
  | .raise _ => cmdRaise p (argPlace d line) u
  | .nothing => return u
  | .unknown _ => do
    let u ← u.sysSetcolor p 0x0C#8
    let u ← (u.printLiteral "desconocido: ").sysPrint p d.line
    return u.printLiteral "\n"

section Line

variable {p : Program} {d : ShellData} {s : Calling} {line : List U8}

namespace TypedLine

variable (h : TypedLine p d s line)

include h

/-- The tests of `execute` find the command. -/
theorem dispatch : execute p d ⟨s, [], []⟩ =
    (Command.parse line).branch p d line ⟨s, [], []⟩ := by
  have hload := (h.reads (u := ⟨s, [], []⟩) rfl).1
  have heq : ∀ lit, 0#8 ∉ lit →
      strEq ((⟨s, [], []⟩ : Session).load p) lit d.line = .ok (lit == line) :=
    fun lit hlit => strEq_eq hload hlit
  have hstarts : ∀ lit, 0#8 ∉ lit →
      strStarts ((⟨s, [], []⟩ : Session).load p) lit d.line = .ok (lit.isPrefixOf line) :=
    fun lit hlit => strStarts_eq hload hlit
  have hskip := h.skipWord (u := ⟨s, [], []⟩) rfl
  unfold execute
  rw [heq _ (by decide), ok_bind, heq _ (by decide), ok_bind, hstarts _ (by decide), ok_bind,
    heq _ (by decide), ok_bind, hstarts _ (by decide), ok_bind, heq _ (by decide), ok_bind,
    heq _ (by decide), ok_bind, hstarts _ (by decide), ok_bind, heq _ (by decide), ok_bind,
    hload.head, ok_bind, hskip, ok_bind, ok_bind, ok_bind]
  have hcat : (textBytes "cat ").isPrefixOf line = true ↔
      firstWord line = textBytes "cat" ∧ afterWord line ≠ [] :=
    isPrefixOf_word (w := textBytes "cat") (by decide)
  have hecho : (textBytes "echo ").isPrefixOf line = true ↔
      firstWord line = textBytes "echo" ∧ afterWord line ≠ [] :=
    isPrefixOf_word (w := textBytes "echo") (by decide)
  have hraise : (textBytes "raise ").isPrefixOf line = true ↔
      firstWord line = textBytes "raise" ∧ afterWord line ≠ [] :=
    isPrefixOf_word (w := textBytes "raise") (by decide)
  have hnil : line.headD 0#8 = 0#8 ↔ line = [] := by
    cases line with
    | nil => simp
    | cons c rest =>
      refine iff_of_false (fun h0 => h.nonzero ?_) (List.cons_ne_nil _ _)
      exact List.mem_cons.mpr (.inl (show c = 0#8 from h0).symm)
  simp only [beq_iff_eq, hcat, hecho, hraise, hnil]
  unfold Command.parse
  by_cases hafter : afterWord line = []
  · -- one word, and none of the prefix tests succeeds
    have hplace : argPlace d line = d.empty := if_pos hafter
    simp only [hafter, ne_eq, not_true, and_false, if_false, if_true, @eq_comm _ _ line,
      apply_ite (Command.branch p d line ⟨s, [], []⟩)]
    simp only [Command.branch, hplace]
  · -- a space, and the line is none of the words
    have hplace : argPlace d line = argAddr d line := if_neg hafter
    have hword : ∀ w, space ∉ w → (w = line) = False := by
      intro w hw
      refine eq_false fun heq => hafter ?_
      rw [← heq]
      exact afterWord_word hw
    have hnonempty : (line = []) = False := by
      refine eq_false fun hnil => hafter ?_
      rw [hnil]
      rfl
    simp only [hafter, ne_eq, not_false_eq_true, and_true, if_false, hnonempty,
      hword (textBytes "help") (by decide), hword (textBytes "ls") (by decide),
      hword (textBytes "cat") (by decide), hword (textBytes "echo") (by decide),
      hword (textBytes "clear") (by decide), hword (textBytes "raise") (by decide),
      apply_ite (Command.branch p d line ⟨s, [], []⟩)]
    simp only [Command.branch, hplace]

/-- What `cmd_cat` and `cmd_raise` find first. -/
theorem argHead : (⟨s, [], []⟩ : Session).load p (argPlace d line) =
    .ok ((argument line).headD 0#8) := by
  unfold argPlace
  by_cases hafter : afterWord line = []
  · rw [if_pos hafter]
    unfold argument
    rw [hafter]
    exact h.empty
  · rw [if_neg hafter]
    exact (h.readsArg rfl).1.head

theorem shows_unknown : ∃ u, Command.branch p d line ⟨s, [], []⟩ (.unknown line) = .ok u ∧
    Said s (textBytes "desconocido: " ++ line ++ [newline]) u := by
  have hshort := h.short
  obtain ⟨u1, h1, hsaid1⟩ := (Said.start s).color (p := p) 0x0C#8
  have hsaid2 := hsaid1.only "desconocido: "
  obtain ⟨u3, h3, hsaid3⟩ := hsaid2.print ((h.reads hsaid2.mem).2.stringAt) (by omega)
  have hsaid4 := hsaid3.literal "\n"
  refine ⟨_, ?_, hsaid4⟩
  simp only [Command.branch, h1, ok_bind, h3]
  rfl

theorem shows_echo : ∃ u, cmdEcho p (argAddr d line) ⟨s, [], []⟩ = .ok u ∧
    Said s (argument line ++ [newline]) u := by
  have hshort := h.short
  have hlen := argument_length line
  obtain ⟨u1, h1, hsaid1⟩ := (Said.start s).color (p := p) 0x0F#8
  obtain ⟨u2, h2, hsaid2⟩ := hsaid1.print ((h.readsArg hsaid1.mem).2.stringAt) (by omega)
  have hsaid3 := hsaid2.literal "\n"
  refine ⟨_, ?_, hsaid3⟩
  unfold cmdEcho
  simp only [h1, ok_bind, h2]
  rfl

end TypedLine

theorem shows_help : ∃ u, cmdHelp p ⟨s, [], []⟩ = .ok u ∧ Said s helpText u := by
  obtain ⟨u1, h1, hsaid1⟩ := (Said.start s).color (p := p) 0x0B#8
  obtain ⟨u2, h2, hsaid2⟩ := (hsaid1.only "Comandos disponibles:\n").color (p := p) 0x07#8
  have hsaid3 : Said s helpText (helpLines.foldl Session.printLiteral u2) := by
    unfold helpText
    exact hsaid2.literals helpLines
  refine ⟨_, ?_, hsaid3⟩
  unfold cmdHelp
  rw [h1, ok_bind]
  show (Session.sysSetcolor p (u1.printLiteral "Comandos disponibles:\n") 0x07#8 >>= _) = _
  rw [h2]
  unfold helpLines
  rfl

theorem shows_clear : ∃ u, cmdClear p ⟨s, [], []⟩ = .ok u ∧ Said s (List.replicate 25 newline) u := by
  obtain ⟨u1, h1, hsaid1⟩ := (Said.start s).color (p := p) 0x00#8
  have hloop := forRange_inv (f := fun _ u => u.printLiteral "\n")
    (fun n u => Said s (List.replicate n newline) u) (Nat.zero_le 25) hsaid1 (fun n u _ _ hn => by
      rw [List.replicate_succ']
      exact hn.literal "\n")
  obtain ⟨u2, h2, hsaid2⟩ := hloop.color (p := p) 0x0F#8
  refine ⟨u2, ?_, hsaid2⟩
  unfold cmdClear
  simp only [h1, ok_bind]
  exact h2

/-- The text of a command is that of the line. -/
theorem parse_text (line : List U8) : match Command.parse line with
    | .cat arg | .echo arg | .raise arg => arg = argument line
    | .unknown rest => rest = line
    | _ => True := by
  unfold Command.parse
  by_cases hafter : afterWord line = []
  · have harg : argument line = [] := by
      unfold argument
      rw [hafter]
      rfl
    rw [if_pos hafter]
    split_ifs
    exacts [trivial, trivial, harg.symm, trivial, trivial, harg.symm, trivial, rfl]
  · rw [if_neg hafter]
    split_ifs <;> rfl

/-- A text for `SYS_PRINT` in red, and nothing else. -/
theorem shows_refusal (lit : String) : ∃ u,
    (do let u ← (⟨s, [], []⟩ : Session).sysSetcolor p 0x0C#8; return u.printLiteral lit) = .ok u ∧
      Said s (textBytes lit) u := by
  obtain ⟨u, hcolor, hsaid⟩ := (Said.start s).color (p := p) 0x0C#8
  refine ⟨_, ?_, hsaid.only lit⟩
  rw [hcolor]
  rfl

/-- `cmd_raise` with an argument. -/
theorem raise_runs (h : TypedLine p d s line) (harg : argument line ≠ []) :
    if (atoi (argument line)).toInt ≤ 0 then
      ∃ u, cmdRaise p (argAddr d line) ⟨s, [], []⟩ = .ok u ∧
        Said s (textBytes "raise: numero de senal invalido\n") u
    else ∃ u, cmdRaise p (argAddr d line) ⟨s, [], []⟩ = u.sysKill p (atoi (argument line)) ∧
      Said s (textBytes "Enviando senal " ++ argument line ++ textBytes "...\n") u := by
  have hshort := h.short
  have hlen := argument_length line
  have hload := (h.readsArg (u := ⟨s, [], []⟩) rfl).1
  have hnum := strAtoi_text hload (by omega)
  have hfirst : (argument line).headD 0#8 ≠ 0#8 := by
    obtain ⟨c, rest, hcons⟩ := List.exists_cons_of_ne_nil harg
    rw [hcons] at hload ⊢
    exact hload.1
  unfold cmdRaise
  rw [hload.head, ok_bind, if_neg hfirst, hnum, ok_bind]
  split
  next => exact shows_refusal "raise: numero de senal invalido\n"
  next =>
    obtain ⟨u1, h1, hsaid1⟩ := (Said.start s).color (p := p) 0x07#8
    have hsaid2 := hsaid1.only "Enviando senal "
    obtain ⟨u3, h3, hsaid3⟩ := hsaid2.print ((h.readsArg hsaid2.mem).2.stringAt) (by omega)
    refine ⟨_, ?_, hsaid3.literal "...\n"⟩
    rw [h1, ok_bind, h3, ok_bind]

/-- **The shell speaks its language**: to every line of at most 127 characters `execute` does what
the command it parses to means. -/
theorem execute_parse (h : TypedLine p d s line) : (Command.parse line).Runs p d s := by
  have hdispatch := h.dispatch
  have hhead := h.argHead
  have htext := parse_text line
  -- an argument is where `str_skip_word` has got to
  have hplace : argument line ≠ [] → argPlace d line = argAddr d line := by
    intro harg
    refine if_neg fun hafter => harg ?_
    unfold argument
    rw [hafter]
    rfl
  cases hcmd : Command.parse line with
  | help =>
    rw [hcmd] at hdispatch
    obtain ⟨u, hrun, hsaid⟩ := shows_help (p := p) (s := s)
    exact ⟨u, hdispatch.trans hrun, hsaid⟩
  | ls =>
    rw [hcmd] at hdispatch
    exact hdispatch
  | cat arg =>
    rw [hcmd] at hdispatch htext
    cases htext
    replace hdispatch : _ = cmdCat p d.buf (argPlace d line) ⟨s, [], []⟩ := hdispatch
    show if argument line = [] then _ else _
    split
    next harg =>
      rw [harg] at hhead
      obtain ⟨u, hrun, hsaid⟩ := shows_refusal (p := p) (s := s) "uso: cat <archivo>\n"
      refine ⟨u, ?_, hsaid⟩
      rw [hdispatch]
      unfold cmdCat
      rw [hhead, ok_bind]
      exact hrun
    next harg =>
      rw [hplace harg] at hdispatch
      exact ⟨_, hdispatch, fun u hmem => (h.readsArg hmem).2.stringAt⟩
  | echo arg =>
    rw [hcmd] at hdispatch htext
    cases htext
    obtain ⟨u, hrun, hsaid⟩ := h.shows_echo
    exact ⟨u, hdispatch.trans hrun, hsaid⟩
  | newline =>
    rw [hcmd] at hdispatch
    exact ⟨_, hdispatch, (Said.start s).only "\n"⟩
  | clear =>
    rw [hcmd] at hdispatch
    obtain ⟨u, hrun, hsaid⟩ := shows_clear (p := p) (s := s)
    exact ⟨u, hdispatch.trans hrun, hsaid⟩
  | raise arg =>
    rw [hcmd] at hdispatch htext
    cases htext
    replace hdispatch : _ = cmdRaise p (argPlace d line) ⟨s, [], []⟩ := hdispatch
    show if argument line = [] then _ else _
    split
    next harg =>
      rw [harg] at hhead
      obtain ⟨u, hrun, hsaid⟩ := shows_refusal (p := p) (s := s) "uso: raise <numero_senal>\n"
      refine ⟨u, ?_, hsaid⟩
      rw [hdispatch]
      unfold cmdRaise
      rw [hhead, ok_bind]
      exact hrun
    next harg =>
      rw [hplace harg] at hdispatch
      have hruns := raise_runs h harg
      rw [← hdispatch] at hruns
      exact hruns
  | nothing =>
    rw [hcmd] at hdispatch
    exact hdispatch
  | unknown rest =>
    rw [hcmd] at hdispatch htext
    cases htext
    obtain ⟨u, hrun, hsaid⟩ := h.shows_unknown
    exact ⟨u, hdispatch.trans hrun, hsaid⟩

end Line

/-- Every line of at most 127 characters can be in the array of a running task. -/
theorem typedLine_exists {line : List U8} (hnul : 0#8 ∉ line) (hshort : line.length ≤ 127) :
    ∃ p d s, TypedLine p d s line := by
  obtain ⟨e, _, _, _⟩ := rootImage_mounted catBlocks
  obtain ⟨m, hd⟩ := demo_exists e
  have hbuf : UserBuffer wildLink m.mem taskAPdAddr 0x30F000#32 128 :=
    (hd.userBuffer imageOwns_stack).mono (by omega)
  have hlen : (line ++ [0#8]).length ≤ 128 := by
    rw [List.length_append, List.length_singleton]
    omega
  obtain ⟨mem, hf⟩ := hbuf.filled m.kern hlen
  have hend : userByte mem taskAPdAddr (0x30F000#32 + BitVec.ofNat 32 line.length) = some 0#8 :=
    hf.bytes _ _ (List.getElem?_concat_length ..)
  refine ⟨⟨wildEnv (rootImage catBlocks).disk, taskAPdAddr, zeroRegs.frame⟩,
    ⟨0x30F000#32, 0x30F080#32, 0x30F000#32 + BitVec.ofNat 32 line.length⟩, ⟨m.kern, e, mem⟩,
    hf.buffer, fun j b hj => ?_, hend, hnul, hshort, ?_⟩
  · have hlt := (List.getElem?_eq_some_iff.mp hj).1
    exact hf.bytes j b ((List.getElem?_append_left hlt).trans hj)
  · exact UserBuffer.userLoad (u := ⟨⟨m.kern, e, mem⟩, [], []⟩) hf.buffer (by omega) hend

/-- `echo  hola` shows `hola`. -/
theorem execute_parse_echo : ∃ p d s, TypedLine p d s (textBytes "echo  hola") ∧
    Answers p d s (textBytes "hola" ++ [newline]) := by
  obtain ⟨p, d, s, h⟩ : ∃ p d s, TypedLine p d s (textBytes "echo  hola") :=
    typedLine_exists (by decide) (by decide)
  have hparse : Command.parse (textBytes "echo  hola") = .echo (textBytes "hola") := rfl
  have hruns := execute_parse h
  rw [hparse] at hruns
  exact ⟨p, d, s, h, hruns⟩

end PepinOS
