import PepinOS.Arch.Stubs
import PepinOS.Drivers.Lines

/-!
# Reports of faults

Where an exception ends the machine, the screen is all there is left: `idt.c` prints which
exception it was and, for a page fault, the address, the EIP, the error code and the
directory. `Report` is what it says, and `vectorReport` which one is a vector's, with the
arguments its stub hands over.

The lines of a report are always on the screen in full. Whether they can be read is another
matter: the hexadecimal numbers have eight digits and read back as they were, but
`idt_handler_numbered` prints one digit or two and clears nothing, so a digit that stood there
before makes 3 into 35 (`report_read_iff`).
-/

namespace PepinOS

/-! ## `idt.c` -/

/-- A digit of `print_hex`. -/
def hexDigit (val : U32) (j : Nat) : U8 :=
  let nibble := ((val >>> j) &&& 0xF#32).setWidth 8
  if nibble.toNat < 10 then 48#8 + nibble else 65#8 + nibble - 10#8

/-- `print_hex`: `j` is 28, 24 and so on down to 0. -/
def printHex (val : U32) (s : Screen) : Screen :=
  forRange 0 8 (fun i s => putcar s (hexDigit val (28 - 4 * i))) s

def idtHandlerPagefault (cr2 cr3 error eip : U32) (s : Screen) : Screen :=
  let s := setAttr 0x0C#8 s
  let s := printHex cr2 (print (textBytes "\n[!] PAGE FAULT addr=0x") s)
  let s := printHex eip (print (textBytes " eip=0x") s)
  let s := printHex error (print (textBytes " err=0x") s)
  let s := print (if error &&& 4#32 ≠ 0#32 then textBytes " [USER]" else textBytes " [KERN]") s
  let s := printHex cr3 (print (textBytes "\n    cr3=0x") s)
  putcar s 10#8

def idtHandlerDefault (s : Screen) : Screen :=
  print (textBytes "\n[!] Interrupcion no manejada\n") (setAttr 0x0C#8 s)

def idtHandlerGpf (errorCode : U32) (s : Screen) : Screen :=
  let s := print (textBytes "\n[!] GENERAL PROTECTION FAULT  error_code: 0x") (setAttr 0x0C#8 s)
  putcar (printHex errorCode s) 10#8

def idtHandlerNumbered (n : U32) (s : Screen) : Screen :=
  let s := print (textBytes "\n[!] EXCEPCION #") (setAttr 0x0C#8 s)
  let s := if 10 ≤ n.toNat then putcar s ((48#32 + n / 10#32).setWidth 8) else s
  putcar (putcar s ((48#32 + n % 10#32).setWidth 8)) 10#8

def idtHandlerDiv0 (s : Screen) : Screen :=
  print (textBytes "\n[!] EXCEPCION: Division por cero\n") (setAttr 0x0C#8 s)

/-- The function a stub calls, with its arguments; the other three print no report. -/
def Handler.report (cr2 cr3 : U32) (s : Screen) : Handler → List U32 → Screen
  | .default, _ => idtHandlerDefault s
  | .div0, _ => idtHandlerDiv0 s
  | .pagefault, [error, eip] => idtHandlerPagefault cr2 cr3 error eip s
  | .gpf, [errorCode] => idtHandlerGpf errorCode s
  | .numbered, [n] => idtHandlerNumbered n s
  | _, _ => s

/-! ## What is reported -/

/-- What a report says. The numbers of exceptions have two digits at most. -/
inductive Report where
  | pagefault (cr2 eip error cr3 : U32)
  | unhandled
  | protection (errorCode : U32)
  | numbered (n : Fin 100)
  | division
  deriving DecidableEq

def hexText (val : U32) : List U8 := (List.range 8).map fun i => hexDigit val (28 - 4 * i)

def digit (n : Nat) : U8 := BitVec.ofNat 8 (48 + n)

/-- The lines on the screen. -/
def Report.lines : Report → List (List U8)
  | .pagefault cr2 eip error cr3 =>
    [textBytes "[!] PAGE FAULT addr=0x" ++ hexText cr2 ++ textBytes " eip=0x" ++ hexText eip ++
        textBytes " err=0x" ++ hexText error ++
        (if error &&& 4#32 ≠ 0#32 then textBytes " [USER]" else textBytes " [KERN]"),
      textBytes "    cr3=0x" ++ hexText cr3]
  | .unhandled => [textBytes "[!] Interrupcion no manejada"]
  | .protection errorCode =>
    [textBytes "[!] GENERAL PROTECTION FAULT  error_code: 0x" ++ hexText errorCode]
  | .numbered n =>
    [textBytes "[!] EXCEPCION #" ++
      (if 10 ≤ n.val then [digit (n.val / 10), digit (n.val % 10)] else [digit n.val])]
  | .division => [textBytes "[!] EXCEPCION: Division por cero"]

/-- The report of vector `v`. -/
def vectorReport (v : Nat) (err eip cr2 cr3 : U32) : Option Report :=
  match (vectorStub v).handler with
  | .default => some .unhandled
  | .div0 => some .division
  | .pagefault => some (.pagefault cr2 eip err cr3)
  | .gpf => some (.protection err)
  | .numbered => some (.numbered (Fin.ofNat 100 v))
  | .doSwitch | .keyboard | .syscall => none

/-! ## Reading it -/

def hexValue (c : U8) : U32 :=
  if c.toNat < 58 then c.setWidth 32 - 48#32 else c.setWidth 32 - 55#32

/-- Eight digits from column `k` on. -/
def readHex (row : Nat → U8) (k : Nat) : U32 :=
  forRange 0 8 (fun j v => v * 16#32 + hexValue (row (k + j))) 0#32

/-- The report whose first line is row 0. -/
def readReport (text : Nat → Nat → U8) : Report :=
  let row := text 0
  if row 4 = 0x50#8 then
    .pagefault (readHex row 22) (readHex row 37) (readHex row 52) (readHex (text 1) 10)
  else if row 4 = 0x49#8 then .unhandled
  else if row 4 = 0x47#8 then .protection (readHex row 44)
  else if row 13 = 0x3A#8 then .division
  else if IsDigit (row 16) then
    .numbered (Fin.ofNat 100 (((row 15).toNat - 48) * 10 + ((row 16).toNat - 48)))
  else .numbered (Fin.ofNat 100 ((row 15).toNat - 48))

/-! ## The text -/

theorem print_putcar (text : List U8) (c : U8) (s : Screen) :
    putcar (print text s) c = print (text ++ [c]) s :=
  (print_append text [c] s).symm

/-- `print_hex` prints eight digits. -/
theorem printHex_print (val : U32) (text : List U8) (s : Screen) :
    printHex val (print text s) = print (text ++ hexText val) s :=
  (print_append text (hexText val) s).symm

theorem idtHandlerPagefault_eq (cr2 cr3 error eip : U32) (s : Screen) :
    idtHandlerPagefault cr2 cr3 error eip s =
      print (lineBytes (Report.pagefault cr2 eip error cr3).lines) (setAttr 0x0C#8 s) := by
  have hfirst : textBytes "\n[!] PAGE FAULT addr=0x" = 10#8 :: textBytes "[!] PAGE FAULT addr=0x" :=
    rfl
  have hsecond : textBytes "\n    cr3=0x" = 10#8 :: textBytes "    cr3=0x" := rfl
  unfold idtHandlerPagefault
  simp only [printHex_print, ← print_append, print_putcar]
  rw [hfirst, hsecond]
  congr 1
  simp only [lineBytes, Report.lines, List.flatMap_cons, List.flatMap_nil, List.append_assoc,
    List.cons_append, List.nil_append, List.append_nil]

theorem idtHandlerGpf_eq (errorCode : U32) (s : Screen) : idtHandlerGpf errorCode s =
    print (lineBytes (Report.protection errorCode).lines) (setAttr 0x0C#8 s) := by
  have hfirst : textBytes "\n[!] GENERAL PROTECTION FAULT  error_code: 0x" =
      10#8 :: textBytes "[!] GENERAL PROTECTION FAULT  error_code: 0x" := rfl
  unfold idtHandlerGpf
  simp only [printHex_print, print_putcar]
  rw [hfirst]
  congr 1

theorem idtHandlerDefault_eq (s : Screen) :
    idtHandlerDefault s = print (lineBytes Report.unhandled.lines) (setAttr 0x0C#8 s) := rfl

theorem idtHandlerDiv0_eq (s : Screen) :
    idtHandlerDiv0 s = print (lineBytes Report.division.lines) (setAttr 0x0C#8 s) := rfl

theorem idtHandlerNumbered_eq (n : Fin 100) (s : Screen) :
    idtHandlerNumbered (BitVec.ofNat 32 n) s =
      print (lineBytes (Report.numbered n).lines) (setAttr 0x0C#8 s) := by
  have hdigits : ∀ n : Fin 100, (BitVec.ofNat 32 n).toNat = n ∧
      (48#32 + BitVec.ofNat 32 n / 10#32).setWidth 8 = digit (n / 10) ∧
      (48#32 + BitVec.ofNat 32 n % 10#32).setWidth 8 = digit (n % 10) := by decide
  obtain ⟨hn, htens, hones⟩ := hdigits n
  have hfirst : textBytes "\n[!] EXCEPCION #" = 10#8 :: textBytes "[!] EXCEPCION #" := rfl
  unfold idtHandlerNumbered
  rw [hn, htens, hones, hfirst]
  simp only [lineBytes, Report.lines]
  by_cases hten : 10 ≤ n.val
  · simp only [if_pos hten, print_putcar]
    rfl
  · rw [Nat.mod_eq_of_lt (by omega)]
    simp only [if_neg hten, print_putcar]
    rfl

theorem numbered_lt {v : Nat} (h : (vectorStub v).handler = .numbered) : 0 < v ∧ v < 40 := by
  unfold vectorStub at h
  grind [Stub.handler]

/-- What the function of a vector prints. -/
theorem report_eq {v : Nat} {err eip cr2 cr3 : U32} {rep : Report}
    (h : vectorReport v err eip cr2 cr3 = some rep) (s : Screen) :
    (vectorStub v).handler.report cr2 cr3 s (callArgs v err eip) =
      print (lineBytes rep.lines) (setAttr 0x0C#8 s) := by
  unfold vectorReport at h
  unfold callArgs
  cases hh : (vectorStub v).handler with
  | default =>
    rw [hh] at h
    cases h
    exact idtHandlerDefault_eq s
  | div0 =>
    rw [hh] at h
    cases h
    exact idtHandlerDiv0_eq s
  | pagefault =>
    rw [hh] at h
    cases h
    exact idtHandlerPagefault_eq cr2 cr3 err eip s
  | gpf =>
    rw [hh] at h
    cases h
    exact idtHandlerGpf_eq err s
  | numbered =>
    rw [hh] at h
    cases h
    have hv := (numbered_lt hh).2
    have hn : (Fin.ofNat 100 v).val = v := Nat.mod_eq_of_lt (by omega)
    have hprint := idtHandlerNumbered_eq (Fin.ofNat 100 v) s
    rw [hn] at hprint
    exact hprint
  | doSwitch => rw [hh] at h; cases h
  | keyboard => rw [hh] at h; cases h
  | syscall => rw [hh] at h; cases h

/-! ## Digits -/

/-- The sixteen digits. -/
theorem digit_nibble : ∀ n : Fin 16,
    let b : U8 := (BitVec.ofNat 32 n).setWidth 8
    let c := if b.toNat < 10 then 48#8 + b else 65#8 + b - 10#8
    hexValue c = BitVec.ofNat 32 n ∧ c ≠ 10#8 ∧ c ≠ 13#8 ∧ c ≠ 9#8 := by decide

theorem toNat_nibble (val : U32) (j : Nat) :
    ((val >>> j) &&& 0xF#32).toNat = val.toNat / 2 ^ j % 16 := by
  rw [← toNat_ushiftRight]
  exact toNat_and_lowMask (val >>> j) (k := 4) (by omega)

theorem hexDigit_nibble (val : U32) (j : Nat) :
    hexValue (hexDigit val j) = (val >>> j) &&& 0xF#32 ∧
      hexDigit val j ≠ 10#8 ∧ hexDigit val j ≠ 13#8 ∧ hexDigit val j ≠ 9#8 := by
  have hlt : ((val >>> j) &&& 0xF#32).toNat < 16 := by
    rw [toNat_nibble]
    exact Nat.mod_lt _ (by omega)
  unfold hexDigit
  generalize (val >>> j) &&& 0xF#32 = b at hlt
  have hb : b = BitVec.ofNat 32 b.toNat :=
    BitVec.eq_of_toNat_eq (by rw [BitVec.toNat_ofNat, Nat.mod_eq_of_lt b.isLt])
  rw [hb]
  exact digit_nibble ⟨b.toNat, hlt⟩

/-- What `print_hex` printed reads back. -/
theorem readHex_eq {row : Nat → U8} {k : Nat} {val : U32}
    (h : ∀ j, j < 8 → row (k + j) = hexDigit val (28 - 4 * j)) : readHex row k = val := by
  have hloop : (readHex row k).toNat = val.toNat / 2 ^ (32 - 4 * 8) := by
    -- after `j` digits the upper `4 * j` bits are there
    refine forRange_inv (fun j (v : U32) => v.toNat = val.toNat / 2 ^ (32 - 4 * j)) (by omega) ?_ ?_
    · exact (Nat.div_eq_of_lt val.isLt).symm
    · intro j v _ hj hv
      have hdigit : (hexValue (row (k + j))).toNat = val.toNat / 2 ^ (28 - 4 * j) % 16 := by
        rw [h j hj, (hexDigit_nibble val _).1, toNat_nibble]
      have hupper : val.toNat / 2 ^ (32 - 4 * j) = val.toNat / 2 ^ (28 - 4 * j) / 16 := by
        rw [Nat.div_div_eq_div_mul, show (16 : Nat) = 2 ^ 4 from rfl, ← Nat.pow_add]
        congr 2
        omega
      have hle : val.toNat / 2 ^ (28 - 4 * j) ≤ val.toNat := Nat.div_le_self _ _
      have hval := val.isLt
      rw [show 32 - 4 * (j + 1) = 28 - 4 * j by omega, BitVec.toNat_add, BitVec.toNat_mul, hv,
        hupper, hdigit, show (16#32 : U32).toNat = 16 from rfl]
      omega
  exact BitVec.eq_of_toNat_eq (by rw [hloop, Nat.sub_self, Nat.pow_zero, Nat.div_one])

theorem hexText_visible (val : U32) : Visible (hexText val) := by
  intro c hc
  obtain ⟨i, _, rfl⟩ := List.mem_map.mp hc
  exact (hexDigit_nibble val _).2

/-- Eight digits in a line. -/
theorem hexText_at {val : U32} (a c : List U8) {j : Nat} (hj : j < 8) :
    (a ++ hexText val ++ c)[a.length + j]? = some (hexDigit val (28 - 4 * j)) := by
  have hlen : (hexText val).length = 8 := rfl
  rw [List.append_assoc, List.getElem?_append_right (Nat.le_add_right ..), Nat.add_sub_cancel_left,
    List.getElem?_append_left (by omega)]
  unfold hexText
  rw [List.getElem?_map, List.getElem?_range hj]
  rfl

theorem digit_visible {d : Nat} (h : d < 10) : Visible [digit d] := by
  refine visible_of_le (List.all_eq_true.mpr fun c hc => ?_)
  rw [List.mem_singleton.mp hc, digit, BitVec.toNat_ofNat]
  exact Nat.ble_eq_true_of_le (by omega)

theorem modeText (error : U32) :
    Visible (if error &&& 4#32 ≠ 0#32 then textBytes " [USER]" else textBytes " [KERN]") ∧
    (if error &&& 4#32 ≠ 0#32 then textBytes " [USER]" else textBytes " [KERN]").length = 7 := by
  split
  next => exact ⟨visible_of_le rfl, rfl⟩
  next => exact ⟨visible_of_le rfl, rfl⟩

theorem pagefault_plain (cr2 eip error cr3 : U32) :
    ∀ line ∈ (Report.pagefault cr2 eip error cr3).lines, Plain line := by
  intro line hline
  have haddr : Visible (textBytes "[!] PAGE FAULT addr=0x") := visible_of_le rfl
  have heip : Visible (textBytes " eip=0x") := visible_of_le rfl
  have herr : Visible (textBytes " err=0x") := visible_of_le rfl
  have hcr3 : Visible (textBytes "    cr3=0x") := visible_of_le rfl
  obtain ⟨hmode, hmodeLen⟩ := modeText error
  rcases List.mem_pair.mp hline with rfl | rfl
  · refine ⟨?_, (((((haddr.append (hexText_visible cr2)).append heip).append
      (hexText_visible eip)).append herr).append (hexText_visible error)).append hmode⟩
    rw [List.length_append, hmodeLen]
    exact Nat.le_of_ble_eq_true rfl
  · exact ⟨Nat.le_of_ble_eq_true rfl, hcr3.append (hexText_visible cr3)⟩

theorem numbered_plain (n : Fin 100) : ∀ line ∈ (Report.numbered n).lines, Plain line := by
  intro line hline
  have htext : Visible (textBytes "[!] EXCEPCION #") := visible_of_le rfl
  have hlen : (textBytes "[!] EXCEPCION #").length = 15 := rfl
  have hn := n.isLt
  rw [List.mem_singleton.mp hline]
  split
  next hten =>
    refine ⟨?_, htext.append ((digit_visible (d := n.val / 10) (by omega)).append
      (digit_visible (Nat.mod_lt _ (by omega))))⟩
    rw [List.length_append, hlen]
    exact Nat.le_of_ble_eq_true rfl
  next hten =>
    refine ⟨?_, htext.append (digit_visible (by omega))⟩
    rw [List.length_append, hlen]
    exact Nat.le_of_ble_eq_true rfl

theorem Report.plain (rep : Report) : ∀ line ∈ rep.lines, Plain line := by
  intro line hline
  cases rep with
  | pagefault cr2 eip error cr3 => exact pagefault_plain cr2 eip error cr3 line hline
  | numbered n => exact numbered_plain n line hline
  | protection errorCode =>
    have htext : Visible (textBytes "[!] GENERAL PROTECTION FAULT  error_code: 0x") :=
      visible_of_le rfl
    rw [List.mem_singleton.mp hline]
    exact ⟨Nat.le_of_ble_eq_true rfl, htext.append (hexText_visible errorCode)⟩
  | unhandled =>
    rw [List.mem_singleton.mp hline]
    exact ⟨Nat.le_of_ble_eq_true rfl, visible_of_le rfl⟩
  | division =>
    rw [List.mem_singleton.mp hline]
    exact ⟨Nat.le_of_ble_eq_true rfl, visible_of_le rfl⟩

/-! ## Reading the report -/

section Read

variable {r : Nat} {attr : U8} {cell : Nat → Nat → U8 × U8}

/-- The text of the rows from `r` on. -/
def textFrom (rep : Report) (attr : U8) (r : Nat) (cell : Nat → Nat → U8 × U8) (i k : Nat) : U8 :=
  (written rep.lines attr r cell (r + i) k).1

theorem textFrom_hex {rep : Report} {line a c : List U8} {i : Nat} {val : U32}
    (hline : rep.lines[i]? = some line) (hsplit : line = a ++ hexText val ++ c) :
    readHex (textFrom rep attr r cell i) a.length = val :=
  readHex_eq fun _ hj => written_char hline (hsplit ▸ hexText_at a c hj)

theorem read_pagefault (cr2 eip error cr3 : U32) :
    readReport (textFrom (.pagefault cr2 eip error cr3) attr r cell) =
      .pagefault cr2 eip error cr3 := by
  have hrow : textFrom (.pagefault cr2 eip error cr3) attr r cell 0 4 = 0x50#8 :=
    written_char rfl rfl
  obtain ⟨mode, hline⟩ : ∃ mode, (Report.pagefault cr2 eip error cr3).lines[0]? =
      some (textBytes "[!] PAGE FAULT addr=0x" ++ hexText cr2 ++ textBytes " eip=0x" ++
        hexText eip ++ textBytes " err=0x" ++ hexText error ++ mode) := ⟨_, rfl⟩
  have haddr : readHex (textFrom (.pagefault cr2 eip error cr3) attr r cell 0) 22 = cr2 :=
    textFrom_hex (a := textBytes "[!] PAGE FAULT addr=0x") (c := textBytes " eip=0x" ++
      (hexText eip ++ (textBytes " err=0x" ++ (hexText error ++ mode)))) hline
      (by simp only [List.append_assoc])
  have heip : readHex (textFrom (.pagefault cr2 eip error cr3) attr r cell 0) 37 = eip :=
    textFrom_hex (a := textBytes "[!] PAGE FAULT addr=0x" ++ hexText cr2 ++ textBytes " eip=0x")
      (c := textBytes " err=0x" ++ (hexText error ++ mode)) hline (by simp only [List.append_assoc])
  have herr : readHex (textFrom (.pagefault cr2 eip error cr3) attr r cell 0) 52 = error :=
    textFrom_hex (a := textBytes "[!] PAGE FAULT addr=0x" ++ hexText cr2 ++ textBytes " eip=0x" ++
      hexText eip ++ textBytes " err=0x") hline rfl
  have hcr3 : readHex (textFrom (.pagefault cr2 eip error cr3) attr r cell 1) 10 = cr3 :=
    textFrom_hex (a := textBytes "    cr3=0x") (c := []) rfl (List.append_nil _).symm
  unfold readReport
  simp only [hrow, haddr, heip, herr, hcr3, if_true]

theorem read_protection (errorCode : U32) :
    readReport (textFrom (.protection errorCode) attr r cell) = .protection errorCode := by
  have hrow : textFrom (.protection errorCode) attr r cell 0 4 = 0x47#8 := written_char rfl rfl
  have herr : readHex (textFrom (.protection errorCode) attr r cell 0) 44 = errorCode :=
    textFrom_hex (a := textBytes "[!] GENERAL PROTECTION FAULT  error_code: 0x") (c := []) rfl
      (List.append_nil _).symm
  unfold readReport
  simp only [hrow, herr]
  rfl

theorem read_unhandled : readReport (textFrom .unhandled attr r cell) = .unhandled := by
  have hrow : textFrom .unhandled attr r cell 0 4 = 0x49#8 := written_char rfl rfl
  unfold readReport
  simp only [hrow]
  rfl

theorem read_division : readReport (textFrom .division attr r cell) = .division := by
  have hrow : textFrom .division attr r cell 0 4 = 0x45#8 := written_char rfl rfl
  have hcolon : textFrom .division attr r cell 0 13 = 0x3A#8 := written_char rfl rfl
  unfold readReport
  simp only [hrow, hcolon]
  rfl

theorem digit_value {d : Nat} (h : d < 10) : IsDigit (digit d) ∧ (digit d).toNat = 48 + d := by
  have hall : ∀ d : Fin 10, IsDigit (digit d) ∧ (digit d).toNat = 48 + d := by decide
  exact hall ⟨d, h⟩

/-- The number of an exception is what its row has in columns 15 and 16. -/
theorem read_numbered (n : Fin 100) : readReport (textFrom (.numbered n) attr r cell) =
    if IsDigit (textFrom (.numbered n) attr r cell 0 16) then
      .numbered (Fin.ofNat 100 (((textFrom (.numbered n) attr r cell 0 15).toNat - 48) * 10 +
        ((textFrom (.numbered n) attr r cell 0 16).toNat - 48)))
    else .numbered (Fin.ofNat 100 ((textFrom (.numbered n) attr r cell 0 15).toNat - 48)) := by
  have hrow : textFrom (.numbered n) attr r cell 0 4 = 0x45#8 := written_char rfl rfl
  have hspace : textFrom (.numbered n) attr r cell 0 13 = 0x20#8 := written_char rfl rfl
  unfold readReport
  simp only [hrow, hspace]
  rfl

/-- Two digits are read back. -/
theorem read_numbered_two {n : Fin 100} (hn : 10 ≤ n.val) :
    readReport (textFrom (.numbered n) attr r cell) = .numbered n := by
  have hlt := n.isLt
  have hline : (Report.numbered n).lines[0]? =
      some (textBytes "[!] EXCEPCION #" ++ [digit (n.val / 10), digit (n.val % 10)]) := by
    simp only [Report.lines, if_pos hn]
    rfl
  have htens : textFrom (.numbered n) attr r cell 0 15 = digit (n.val / 10) :=
    written_char hline rfl
  have hones : textFrom (.numbered n) attr r cell 0 16 = digit (n.val % 10) :=
    written_char hline rfl
  obtain ⟨_, hvalTens⟩ := digit_value (d := n.val / 10) (by omega)
  obtain ⟨hdigit, hvalOnes⟩ := digit_value (d := n.val % 10) (Nat.mod_lt _ (by omega))
  rw [read_numbered, htens, hones, if_pos hdigit, hvalTens, hvalOnes]
  congr 1
  apply Fin.ext
  show ((48 + n.val / 10 - 48) * 10 + (48 + n.val % 10 - 48)) % 100 = n.val
  omega

/-- One digit is read back unless another stands to the right of it. -/
theorem read_numbered_one {n : Fin 100} (h0 : 0 < n.val) (hn : n.val < 10) :
    readReport (textFrom (.numbered n) attr r cell) = .numbered n ↔
      ¬IsDigit (cell r 16).1 := by
  have hlt := n.isLt
  have hline : (Report.numbered n).lines[0]? =
      some (textBytes "[!] EXCEPCION #" ++ [digit n.val]) := by
    simp only [Report.lines, if_neg (Nat.not_le.mpr hn)]
    rfl
  have hones : textFrom (.numbered n) attr r cell 0 15 = digit n.val :=
    written_char hline rfl
  have hnext : textFrom (.numbered n) attr r cell 0 16 = (cell r 16).1 :=
    congrArg Prod.fst (written_after hline (Nat.le_of_ble_eq_true rfl))
  obtain ⟨_, hval⟩ := digit_value hn
  rw [read_numbered, hones, hnext, hval]
  constructor
  · intro h hdigit
    rw [if_pos hdigit] at h
    have heq := congrArg Fin.val (Report.numbered.inj h)
    replace heq : ((48 + n.val - 48) * 10 + ((cell r 16).1.toNat - 48)) % 100 = n.val := heq
    unfold IsDigit at hdigit
    rw [Nat.mod_eq_of_lt (by omega)] at heq
    omega
  · intro hdigit
    rw [if_neg hdigit]
    congr 1
    apply Fin.ext
    show (48 + n.val - 48) % 100 = n.val
    omega

end Read

/-! ## Vectors -/

/-- Vectors 1 to 9 get to `idt_handler_numbered`. -/
theorem numbered_low {v : Nat} (h1 : 1 ≤ v) (h9 : v ≤ 9) : (vectorStub v).handler = .numbered := by
  unfold vectorStub
  rw [if_neg (by omega), if_neg (by omega), if_neg (by omega), if_pos (by omega)]
  rfl

theorem report_kinds {v : Nat} {err eip cr2 cr3 : U32} {rep : Report}
    (h : vectorReport v err eip cr2 cr3 = some rep) :
    (0 < v ∧ v < 40 ∧ rep = .numbered (Fin.ofNat 100 v)) ∨
      ((∀ n, rep ≠ .numbered n) ∧ ¬(1 ≤ v ∧ v ≤ 9)) := by
  have hlow : (vectorStub v).handler ≠ .numbered → ¬(1 ≤ v ∧ v ≤ 9) :=
    fun hne hv => hne (numbered_low hv.1 hv.2)
  unfold vectorReport at h
  cases hh : (vectorStub v).handler with
  | numbered =>
    rw [hh] at h
    cases h
    exact .inl ⟨(numbered_lt hh).1, (numbered_lt hh).2, rfl⟩
  | default | div0 | pagefault | gpf =>
    rw [hh] at h hlow
    cases h
    exact .inr ⟨nofun, hlow nofun⟩
  | doSwitch | keyboard | syscall => rw [hh] at h; cases h

theorem Report.lines_length (rep : Report) : 1 ≤ rep.lines.length ∧ rep.lines.length ≤ 2 := by
  cases rep <;> exact ⟨Nat.le_of_ble_eq_true rfl, Nat.le_of_ble_eq_true rfl⟩

theorem readHex_congr {row row' : Nat → U8} {k : Nat}
    (h : ∀ j, j < 8 → row (k + j) = row' (k + j)) :
    readHex row k = readHex row' k := by
  unfold readHex
  refine forRange_inv (fun j v => v = forRange 0 j
    (fun j v => v * 16#32 + hexValue (row' (k + j))) 0#32) (Nat.zero_le 8) rfl ?_
  intro j v _ hj hv
  rw [forRange_succ, ← hv, h j hj]

/-- Two rows of 80 columns are all that is read. -/
theorem readReport_congr {text text' : Nat → Nat → U8}
    (h : ∀ i k, i < 2 → k < 80 → text i k = text' i k) : readReport text = readReport text' := by
  have hrow : ∀ k, k < 80 → text 0 k = text' 0 k := fun k => h 0 k (by omega)
  have hhex : ∀ k, k < 72 → readHex (text 0) k = readHex (text' 0) k :=
    fun k hk => readHex_congr fun j hj => h 0 (k + j) (by omega) (by omega)
  have hcr3 : readHex (text 1) 10 = readHex (text' 1) 10 :=
    readHex_congr fun j hj => h 1 (10 + j) (by omega) (by omega)
  unfold readReport
  simp only [hrow 4 (by omega), hrow 13 (by omega), hrow 15 (by omega), hrow 16 (by omega),
    hhex 22 (by omega), hhex 37 (by omega), hhex 52 (by omega), hhex 44 (by omega), hcr3]

/-- **What the screen has after a report, and when it can be read.** The lines are there in full,
in light red, with what was on the screen around them, moved up by just the rows the lines did
not have below the cursor; the report is read back, unless it is an exception of one digit
and its row has a digit to the right of it. -/
theorem report_read_iff {s : Screen} (h : OnScreen s) {v : Nat} {err eip cr2 cr3 : U32}
    {rep : Report} (hrep : vectorReport v err eip cr2 cr3 = some rep) {s' : Screen}
    (hs' : (vectorStub v).handler.report cr2 cr3 s (callArgs v err eip) = s') :
    ∃ up r, up = s.kY.toInt.toNat + 1 + rep.lines.length - 24 ∧
      r + up = s.kY.toInt.toNat + 1 ∧ s'.kX = 0#8 ∧ s'.kY.toInt = r + rep.lines.length ∧
      r + rep.lines.length ≤ 24 ∧
      (∀ i k, i < 25 → k < 80 → s'.cell i k = written rep.lines 0x0C#8 r
        (fun i k => if i + up < 25 then s.cell (i + up) k else blankCell) i k) ∧
      (readReport (fun i k => (s'.cell (r + i) k).1) = rep ↔
        ¬(1 ≤ v ∧ v ≤ 9 ∧ s.kY.toInt < 24 ∧
          IsDigit (s.cell (s.kY.toInt.toNat + 1) 16).1)) := by
  obtain ⟨hlen1, hlen2⟩ := rep.lines_length
  obtain ⟨up, r, hup, hr, hx, hy, hle, hcell⟩ := print_lines h rep.plain (by omega)
    ((report_eq hrep s).symm.trans hs')
  have hkY := h.kY_ge
  refine ⟨up, r, hup, hr, hx, hy, hle, hcell, ?_⟩
  have hread : readReport (fun i k => (s'.cell (r + i) k).1) = readReport (textFrom rep 0x0C#8 r
      fun i k => if i + up < 25 then s.cell (i + up) k else blankCell) :=
    readReport_congr fun i k hi hk => congrArg Prod.fst (hcell (r + i) k (by omega) hk)
  rw [hread]
  rcases report_kinds hrep with ⟨hpos, hlt, rfl⟩ | ⟨hother, hlow⟩
  · have hval : (Fin.ofNat 100 v).val = v := Nat.mod_eq_of_lt (by omega)
    by_cases hv : v ≤ 9
    · -- what is left in column 16 is of the row below the old cursor, or blank
      rw [read_numbered_one (hval.symm ▸ hpos) (by omega), hr]
      by_cases hrow : s.kY.toInt < 24
      · rw [if_pos (by omega)]
        exact not_congr ⟨fun hd => ⟨hpos, hv, hrow, hd⟩, fun hd => hd.2.2.2⟩
      · rw [if_neg (by omega)]
        exact iff_of_true (by decide) fun hd => hrow hd.2.2.1
    · exact iff_of_true (read_numbered_two (by omega)) fun hd => hv hd.2.1
  · refine iff_of_true ?_ fun hd => hlow ⟨hd.1, hd.2.1⟩
    cases rep with
    | pagefault cr2 eip error cr3 => exact read_pagefault cr2 eip error cr3
    | unhandled => exact read_unhandled
    | protection errorCode => exact read_protection errorCode
    | numbered n => exact absurd rfl (hother n)
    | division => exact read_division

/-- A screen with a 5 in the second row, where a number would go. -/
def digitScreen : Screen := ⟨0#8, 0#8, 0x07#8, fun x => if x = 192 then 0x35#8 else 0#8⟩

/-- A page fault reported on it reads back, exception 3 does not. -/
theorem report_read_iff_digit :
    (∃ s' r, (vectorStub 14).handler.report 0xDEADBEEF#32 0x405000#32 digitScreen
        (callArgs 14 6#32 0x40000010#32) = s' ∧
      readReport (fun i k => (s'.cell (r + i) k).1) =
        .pagefault 0xDEADBEEF#32 0x40000010#32 6#32 0x405000#32) ∧
    ∃ s' r, (vectorStub 3).handler.report 0#32 0#32 digitScreen (callArgs 3 0#32 0#32) = s' ∧
      readReport (fun i k => (s'.cell (r + i) k).1) ≠ .numbered 3 := by
  have hon : OnScreen digitScreen := ⟨by decide, by decide, by decide, by decide⟩
  obtain ⟨_, r, _, _, _, _, _, _, hread⟩ := @report_read_iff digitScreen hon 14 6#32 0x40000010#32
    0xDEADBEEF#32 0x405000#32 _ rfl _ rfl
  obtain ⟨_, r', _, _, _, _, _, _, hread'⟩ := @report_read_iff digitScreen hon 3 0#32 0#32 0#32 0#32
    (.numbered 3) rfl _ rfl
  refine ⟨⟨_, r, rfl, hread.mpr fun hd => absurd hd.2.1 (by decide)⟩, _, r', rfl, fun hnum => ?_⟩
  exact hread'.mp hnum ⟨by decide, by decide, by decide, by decide⟩

end PepinOS
