import PepinOS.User.Cat

/-!
# The commands of the shell

`user/shell.c` from its string functions to `execute`. The line, the buffer of `cmd_cat`
and the literals lie in the program's own memory, and every character is a load of its
own; a loop over a string that meets no end in the whole address space goes round for
ever.

The string functions are specified by the text they find (`Reads`): `str_eq` is equality,
`str_starts` is the prefix test, `str_skip_word` is two runs of characters, and `str_atoi`
is the decimal value, as far as 32 bits hold it.
-/

namespace PepinOS

/-! ## Strings -/

section Strings

variable (load : U32 → Except Stop U8)

/-- `str_eq`, with a literal. -/
def strEq : List U8 → U32 → Except Stop Bool
  | [], a => return (← load a) == 0#8
  | b :: lit, a => do
    let c ← load a
    if c ≠ 0#8 ∧ b ≠ 0#8 ∧ c = b then strEq lit (a + 1#32) else return c == b

/-- `str_starts`, with a literal. -/
def strStarts : List U8 → U32 → Except Stop Bool
  | [], _ => return true
  | b :: lit, s => do
    let c ← load s
    if c ≠ b then return false else strStarts lit (s + 1#32)

/-- `while (q(*s)) s++`, for so many turns. -/
def skipWhile (q : U8 → Bool) : Nat → U32 → Except Stop U32
  | 0, _ => throw .spins
  | n + 1, s => do
    let c ← load s
    if q c then skipWhile q n (s + 1#32) else return s

/-- `str_skip_word`. -/
def strSkipWord (s : U32) : Except Stop U32 := do
  let s ← skipWhile load (fun c => c != 0#8 && c != 32#8) (2 ^ 32) s
  skipWhile load (fun c => c == 32#8) (2 ^ 32) s

/-- The loop of `str_atoi`. -/
def atoiLoop : Nat → U32 → U32 → Except Stop U32
  | 0, _, _ => throw .spins
  | k + 1, n, s => do
    let c ← load s
    if 48 ≤ c.toInt ∧ c.toInt ≤ 57 then
      atoiLoop k (n * 10#32 + (c.signExtend 32 - 48#32)) (s + 1#32)
    else return n

def strAtoi (s : U32) : Except Stop U32 := atoiLoop load (2 ^ 32) 0#32 s

end Strings

/-! ## Commands -/

/-- Where the linker puts the static arrays and the empty literal. -/
structure ShellData where
  line : U32
  buf : U32
  empty : U32

def cmdHelp (p : Program) (u : Session) : Except Stop Session := do
  let u ← u.sysSetcolor p 0x0B#8
  let u := u.printLiteral "Comandos disponibles:\n"
  let u ← u.sysSetcolor p 0x07#8
  let u := u.printLiteral "  help          - muestra esta ayuda\n"
  let u := u.printLiteral "  ls            - lista el directorio raiz\n"
  let u := u.printLiteral "  cat <archivo> - muestra el contenido de un archivo\n"
  let u := u.printLiteral "  echo <texto>  - imprime texto\n"
  let u := u.printLiteral "  clear         - limpia la pantalla\n"
  let u := u.printLiteral "  raise <N>     - envia la senal N al proceso actual\n"
  let u := u.printLiteral "\nSenales instaladas:\n"
  let u := u.printLiteral "  SIGINT  (2)   - Ctrl+C\n"
  let u := u.printLiteral "  SIGUSR1 (10)  - raise 10\n"
  return u.printLiteral "  SIGTERM (15)  - raise 15\n"

def cmdEcho (p : Program) (text : U32) (u : Session) : Except Stop Session := do
  let u ← u.sysSetcolor p 0x0F#8
  let u ← u.sysPrint p text
  return u.printLiteral "\n"

def cmdClear (p : Program) (u : Session) : Except Stop Session := do
  let u ← u.sysSetcolor p 0x00#8
  let u := forRange 0 25 (fun _ u => u.printLiteral "\n") u
  u.sysSetcolor p 0x0F#8

def cmdRaise (p : Program) (arg : U32) (u : Session) : Except Stop Session := do
  let c ← u.load p arg
  if c = 0#8 then
    let u ← u.sysSetcolor p 0x0C#8
    return u.printLiteral "uso: raise <numero_senal>\n"
  let sig ← strAtoi (u.load p) arg
  if sig.toInt ≤ 0 then
    let u ← u.sysSetcolor p 0x0C#8
    return u.printLiteral "raise: numero de senal invalido\n"
  let u ← u.sysSetcolor p 0x07#8
  let u ← (u.printLiteral "Enviando senal ").sysPrint p arg
  (u.printLiteral "...\n").sysKill p sig

/-- `execute`, on the line in the shell's array. -/
def execute (p : Program) (d : ShellData) (u : Session) : Except Stop Session := do
  if ← strEq (u.load p) (textBytes "help") d.line then cmdHelp p u
  else if ← strEq (u.load p) (textBytes "ls") d.line then u.sysLs p
  else if ← strStarts (u.load p) (textBytes "cat ") d.line then
    cmdCat p d.buf (← strSkipWord (u.load p) d.line) u
  else if ← strEq (u.load p) (textBytes "cat") d.line then cmdCat p d.buf d.empty u
  else if ← strStarts (u.load p) (textBytes "echo ") d.line then
    cmdEcho p (← strSkipWord (u.load p) d.line) u
  else if ← strEq (u.load p) (textBytes "echo") d.line then return u.printLiteral "\n"
  else if ← strEq (u.load p) (textBytes "clear") d.line then cmdClear p u
  else if ← strStarts (u.load p) (textBytes "raise ") d.line then
    cmdRaise p (← strSkipWord (u.load p) d.line) u
  else if ← strEq (u.load p) (textBytes "raise") d.line then cmdRaise p d.empty u
  else if (← u.load p d.line) = 0#8 then return u
  else
    let u ← u.sysSetcolor p 0x0C#8
    let u ← (u.printLiteral "desconocido: ").sysPrint p d.line
    return u.printLiteral "\n"

/-! ## What the string functions find -/

section Strings

variable {load : U32 → Except Stop U8}

/-- `str_eq` decides equality. -/
theorem strEq_eq : ∀ {lit s : List U8} {p : U32}, Reads load s p → 0#8 ∉ lit →
    strEq load lit p = .ok (lit == s) := by
  intro lit
  induction lit with
  | nil =>
    intro s p h _
    cases s with
    | nil =>
      rw [strEq, show load p = .ok 0#8 from h]
      rfl
    | cons c s =>
      rw [strEq, h.2.1, ok_bind, beq_eq_false_iff_ne.mpr h.1]
      rfl
  | cons b lit ih =>
    intro s p h hlit
    have hb : b ≠ 0#8 := fun hb => hlit (hb ▸ List.mem_cons_self ..)
    cases s with
    | nil =>
      rw [strEq, show load p = .ok 0#8 from h, ok_bind, if_neg (fun hc => hc.1 rfl),
        beq_eq_false_iff_ne.mpr hb.symm]
      rfl
    | cons c s =>
      obtain ⟨hc, hload, hs⟩ := h
      rw [strEq, hload, ok_bind, List.cons_beq_cons]
      by_cases hcb : c = b
      · rw [if_pos ⟨hc, hb, hcb⟩, ih hs (fun hm => hlit (List.mem_cons_of_mem _ hm)), hcb,
          beq_self_eq_true, Bool.true_and]
      · rw [if_neg (fun hall => hcb hall.2.2), beq_eq_false_iff_ne.mpr hcb,
          beq_eq_false_iff_ne.mpr (Ne.symm hcb), Bool.false_and]
        rfl

/-- `str_starts` decides whether the literal comes first. -/
theorem strStarts_eq : ∀ {lit s : List U8} {p : U32}, Reads load s p → 0#8 ∉ lit →
    strStarts load lit p = .ok (lit.isPrefixOf s) := by
  intro lit
  induction lit with
  | nil => exact fun _ _ => rfl
  | cons b lit ih =>
    intro s p h hlit
    have hb : b ≠ 0#8 := fun hb => hlit (hb ▸ List.mem_cons_self ..)
    cases s with
    | nil =>
      rw [strStarts, show load p = .ok 0#8 from h, ok_bind, if_pos hb.symm]
      rfl
    | cons c s =>
      obtain ⟨hc, hload, hs⟩ := h
      rw [strStarts, hload, ok_bind, List.isPrefixOf_cons_cons]
      by_cases hcb : c = b
      · rw [if_neg (not_not.mpr hcb), ih hs (fun hm => hlit (List.mem_cons_of_mem _ hm)), hcb,
          beq_self_eq_true, Bool.true_and]
      · rw [if_pos hcb, beq_eq_false_iff_ne.mpr (Ne.symm hcb), Bool.false_and]
        rfl

/-- A run of characters that pass the test is skipped, up to one that does not. -/
theorem skipWhile_run {q : U8 → Bool} : ∀ {xs ys : List U8} {p : U32} {n : Nat} {c : U8},
    Reads load (xs ++ ys) p → (∀ x ∈ xs, q x = true) →
      load (p + BitVec.ofNat 32 xs.length) = .ok c → q c = false → xs.length < n →
        skipWhile load q n p = .ok (p + BitVec.ofNat 32 xs.length) := by
  intro xs ys
  induction xs with
  | nil =>
    intro p n c _ _ hend hc hn
    obtain ⟨n, rfl⟩ := Nat.exists_eq_succ_of_ne_zero (Nat.ne_of_gt hn)
    rw [List.length_nil, BitVec.add_zero] at hend ⊢
    rw [skipWhile, hend, ok_bind, hc]
    rfl
  | cons x xs ih =>
    intro p n c h hall hend hc hn
    obtain ⟨n, rfl⟩ := Nat.exists_eq_succ_of_ne_zero (Nat.ne_of_gt (Nat.zero_lt_of_lt hn))
    rw [List.length_cons, add_ofNat_succ] at hend ⊢
    rw [skipWhile, h.2.1, ok_bind, if_pos (hall x (List.mem_cons_self ..))]
    exact ih h.2.2 (fun y hy => hall y (List.mem_cons_of_mem _ hy)) hend hc
      (Nat.lt_of_succ_lt_succ hn)

/-- The number that a string of digits stands for. -/
def decimal (digits : List U8) : Nat := digits.foldl (fun n c => n * 10 + (c.toNat - 48)) 0

theorem IsDigit.toInt {c : U8} (h : IsDigit c) : c.toInt = c.toNat := by
  unfold IsDigit at h
  apply BitVec.toInt_eq_toNat_of_lt
  omega

/-- One turn of `str_atoi`, modulo `2^32`. -/
theorem IsDigit.next {c : U8} (h : IsDigit c) (n : Nat) :
    BitVec.ofNat 32 n * 10#32 + (c.signExtend 32 - 48#32) =
      BitVec.ofNat 32 (n * 10 + (c.toNat - 48)) := by
  unfold IsDigit at h
  have hsign : (c.signExtend 32).toNat = c.toNat := by
    have hmsb : c.msb = false := by
      rw [BitVec.msb_eq_false_iff_two_mul_lt]
      omega
    rw [BitVec.toNat_signExtend, hmsb, BitVec.toNat_setWidth]
    exact Nat.mod_eq_of_lt (by omega)
  apply BitVec.eq_of_toNat_eq
  simp only [BitVec.toNat_add, BitVec.toNat_mul, BitVec.toNat_sub, BitVec.toNat_ofNat, hsign]
  omega

theorem atoiLoop_digits : ∀ {digits : List U8} {p : U32} {k : Nat} (n : Nat),
    Reads load digits p → (∀ c ∈ digits, IsDigit c) → digits.length < k →
      atoiLoop load k (BitVec.ofNat 32 n) p =
        .ok (BitVec.ofNat 32 (digits.foldl (fun n c => n * 10 + (c.toNat - 48)) n)) := by
  intro digits
  induction digits with
  | nil =>
    intro p k n h _ hk
    obtain ⟨k, rfl⟩ := Nat.exists_eq_succ_of_ne_zero (Nat.ne_of_gt hk)
    rw [atoiLoop, show load p = .ok 0#8 from h]
    rfl
  | cons c digits ih =>
    intro p k n h hall hk
    obtain ⟨k, rfl⟩ := Nat.exists_eq_succ_of_ne_zero (Nat.ne_of_gt (Nat.zero_lt_of_lt hk))
    have hc := hall c (List.mem_cons_self ..)
    have hrange : 48 ≤ c.toInt ∧ c.toInt ≤ 57 := by
      rw [hc.toInt]
      unfold IsDigit at hc
      omega
    rw [atoiLoop, h.2.1, ok_bind, if_pos hrange, hc.next]
    exact ih _ h.2.2 (fun d hd => hall d (List.mem_cons_of_mem _ hd)) (Nat.lt_of_succ_lt_succ hk)

/-- **`str_atoi`** of a string of digits: its value modulo `2^32`. -/
theorem strAtoi_digits {digits : List U8} {p : U32} (h : Reads load digits p)
    (hall : ∀ c ∈ digits, IsDigit c) (hlen : digits.length < 2 ^ 32) :
    strAtoi load p = .ok (BitVec.ofNat 32 (decimal digits)) :=
  atoiLoop_digits 0 h hall hlen

end Strings

end PepinOS
