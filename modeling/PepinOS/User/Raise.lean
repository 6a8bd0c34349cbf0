import PepinOS.User.Execute

/-!
# `raise N`

From the typed line to the bit in `sig_pending`: `execute` finds the argument,
`str_atoi` reads it into an `int`, `cmd_raise` refuses what is not positive, and
`SYS_KILL` what is not below `NSIG`. The `int` wraps: a number of 33 bits and more can
come out as the number of a signal, and then both checks pass it.

`raise_typed_iff` is when what was typed is what is raised.
-/

namespace PepinOS

/-- `raise `, perhaps more spaces, and the digits. -/
def raiseText (k : Nat) (digits : List U8) : List U8 :=
  textBytes "raise" ++ (List.replicate (k + 1) 32#8 ++ digits)

/-- The shell is the running task and has read such a line. -/
structure RaiseLine (p : Program) (d : ShellData) (s : Calling) (i : Fin 8) (k : Nat)
    (digits : List U8) : Prop where
  cur : s.kern.sched.cur = some i
  buffer : UserBuffer p.env.link s.mem p.cr3 d.line 128
  bytes : ∀ j b, (raiseText k digits)[j]? = some b →
    userByte s.mem p.cr3 (d.line + BitVec.ofNat 32 j) = some b
  nul : userByte s.mem p.cr3 (d.line + BitVec.ofNat 32 (raiseText k digits).length) = some 0#8
  isDigit : ∀ c ∈ digits, IsDigit c
  nonempty : digits ≠ []
  short : (raiseText k digits).length ≤ 127

/-- `execute` raises signal `n` on task `i`, if there is such a signal, and nothing else. -/
def RaisesTyped (p : Program) (d : ShellData) (s : Calling) (i : Fin 8) (n : Nat) : Prop :=
  ∃ u, execute p d ⟨s, [], []⟩ = .ok u ∧
    (∀ j sig, .raised j sig ∈ u.events ↔ j = i ∧ 1 ≤ n ∧ sig.val = n) ∧
    ∀ j, (u.calling.kern.task j).sigPending =
      if j = i ∧ 1 ≤ n ∧ n ≤ 31 then (s.kern.task j).sigPending ||| (1#32 <<< n)
      else (s.kern.task j).sigPending

/-! ## The call -/

/-- `SYS_KILL` sets the bit of a signal there is, and no other. -/
theorem Session.sysKill_returns {p : Program} {u : Session} {i : Fin 8}
    (hcur : u.calling.kern.sched.cur = some i) (w : U32) :
    u.sysKill p w = .ok (match sigArg w with
      | none => { u with events := u.events ++ [.quiet] }
      | some sig => { u with
          calling := u.calling.setTask i { u.calling.kern.task i with
            sigPending := (u.calling.kern.task i).sigPending ||| (1#32 <<< sig.val) }
          events := u.events ++ [.raised i sig] }) := by
  unfold Session.sysKill
  rw [Session.int30_returns (syscallHandler_kill rfl), ok_bind]
  unfold callKill
  simp only [hcur]
  cases sigArg w with
  | none => rfl
  | some sig => rfl

/-- An argument that is not positive is no signal. -/
theorem sigArg_nonpos {w : U32} (h : w.toInt ≤ 0) : sigArg w = none := by
  unfold sigArg
  apply dif_neg
  intro hr
  rw [BitVec.toInt_eq_toNat_of_lt (by omega)] at h
  omega

/-! ## From the line to the call -/

section Line

variable {p : Program} {d : ShellData} {s : Calling} {i : Fin 8} {k : Nat} {digits : List U8}

/-- Where the digits are. -/
def raiseArg (d : ShellData) (k : Nat) : U32 :=
  d.line + BitVec.ofNat 32 5 + BitVec.ofNat 32 (k + 1)

namespace RaiseLine

variable (h : RaiseLine p d s i k digits)

include h

theorem nonzero {c : U8} (hc : c ∈ raiseText k digits) : c ≠ 0#8 := by
  have hword : ∀ c ∈ textBytes "raise", c ≠ 0#8 := by decide
  rcases List.mem_append.mp hc with hc | hc
  · exact hword c hc
  · rcases List.mem_append.mp hc with hc | hc
    · rw [List.eq_of_mem_replicate hc]
      decide
    · have hdig := h.isDigit c hc
      intro h0
      rw [h0] at hdig
      exact absurd hdig.1 (by decide)

/-- The shell's own loads find the text, in any state with this memory. -/
theorem reads {u : Session} (hmem : u.calling.mem = s.mem) :
    Reads (u.load p) (raiseText k digits) d.line := by
  have hshort := h.short
  have hbuf : UserBuffer p.env.link u.calling.mem p.cr3 d.line 128 := hmem ▸ h.buffer
  apply Reads.of_bytes
  · intro j b hj
    have hlt := (List.getElem?_eq_some_iff.mp hj).1
    refine ⟨h.nonzero (List.mem_of_getElem? hj), hbuf.userLoad (by omega) ?_⟩
    rw [hmem]
    exact h.bytes j b hj
  · apply hbuf.userLoad (by omega)
    rw [hmem]
    exact h.nul

/-- The kernel finds the digits. -/
theorem arg {u : Session} (hmem : u.calling.mem = s.mem) :
    StringAt (u.fetch p) digits (raiseArg d k) := by
  have hshort := h.short
  have hbuf : UserBuffer p.env.link u.calling.mem p.cr3 d.line 128 := hmem ▸ h.buffer
  have hreads : Reads (u.fetch p) (raiseText k digits) d.line := by
    apply Reads.of_bytes
    · intro j b hj
      have hlt := (List.getElem?_eq_some_iff.mp hj).1
      refine ⟨h.nonzero (List.mem_of_getElem? hj), hbuf.load _ _ (by omega) ?_⟩
      rw [hmem]
      exact h.bytes j b hj
    · apply hbuf.load _ _ (by omega)
      rw [hmem]
      exact h.nul
  have hend := hreads.drop.drop
  rw [List.length_replicate] at hend
  exact hend.stringAt

/-- `str_skip_word` gets to the digits. -/
theorem skipWord {u : Session} (hmem : u.calling.mem = s.mem) :
    strSkipWord (u.load p) d.line = .ok (raiseArg d k) := by
  have hreads := h.reads hmem
  have hspaces := hreads.drop
  have hdigits := hspaces.drop
  have hshort := h.short
  unfold raiseText at hshort
  rw [List.length_append, List.length_append, List.length_replicate] at hshort
  rw [List.length_replicate] at hdigits
  obtain ⟨c, rest, hcons⟩ := List.exists_cons_of_ne_nil h.nonempty
  have hc : IsDigit c := h.isDigit c (by rw [hcons]; exact List.mem_cons_self ..)
  rw [hcons] at hdigits
  -- the word ends at the first space, and the spaces at the first digit
  have hfirst : skipWhile (u.load p) (fun c => c != 0#8 && c != 32#8) (2 ^ 32) d.line =
      .ok (d.line + BitVec.ofNat 32 5) := by
    apply skipWhile_run hreads (c := 32#8)
    · decide
    · exact hspaces.2.1
    · rfl
    · show 5 < 2 ^ 32
      omega
  have hsecond : skipWhile (u.load p) (fun c => c == 32#8) (2 ^ 32)
      (d.line + BitVec.ofNat 32 5) = .ok (raiseArg d k) := by
    have hrun := skipWhile_run (q := fun c => c == 32#8) (n := 2 ^ 32) (c := c) hspaces
      (fun x hx => by rw [List.eq_of_mem_replicate hx]; rfl)
    rw [List.length_replicate] at hrun
    apply hrun hdigits.2.1
    · apply beq_eq_false_iff_ne.mpr
      intro h32
      rw [h32] at hc
      exact absurd hc.1 (by decide)
    · omega
  unfold strSkipWord
  rw [hfirst, ok_bind]
  exact hsecond

/-- The line is dispatched to `cmd_raise`. -/
theorem dispatch : execute p d ⟨s, [], []⟩ = cmdRaise p (raiseArg d k) ⟨s, [], []⟩ := by
  have hreads := h.reads (u := ⟨s, [], []⟩) rfl
  have hstarts : (textBytes "raise ").isPrefixOf (raiseText k digits) = true := rfl
  unfold execute
  rw [strEq_eq hreads (by decide), ok_bind, if_neg (by exact Bool.false_ne_true),
    strEq_eq hreads (by decide), ok_bind, if_neg (by exact Bool.false_ne_true),
    strStarts_eq hreads (by decide), ok_bind, if_neg (by exact Bool.false_ne_true),
    strEq_eq hreads (by decide), ok_bind, if_neg (by exact Bool.false_ne_true),
    strStarts_eq hreads (by decide), ok_bind, if_neg (by exact Bool.false_ne_true),
    strEq_eq hreads (by decide), ok_bind, if_neg (by exact Bool.false_ne_true),
    strEq_eq hreads (by decide), ok_bind, if_neg (by exact Bool.false_ne_true),
    strStarts_eq hreads (by decide), ok_bind, if_pos hstarts, h.skipWord rfl, ok_bind]

/-- **What is raised**: the number modulo `2^32`, if that is a signal. -/
theorem raised : ∃ u, execute p d ⟨s, [], []⟩ = .ok u ∧
    (∀ j sig, .raised j sig ∈ u.events ↔
      j = i ∧ sigArg (BitVec.ofNat 32 (decimal digits)) = some sig) ∧
    ∀ j, (u.calling.kern.task j).sigPending =
      match sigArg (BitVec.ofNat 32 (decimal digits)) with
      | none => (s.kern.task j).sigPending
      | some sig => if j = i then (s.kern.task j).sigPending ||| (1#32 <<< sig.val)
        else (s.kern.task j).sigPending := by
  rw [h.dispatch]
  have hshort := h.short
  unfold raiseText at hshort
  rw [List.length_append, List.length_append] at hshort
  have hdigits := (h.reads (u := ⟨s, [], []⟩) rfl).drop.drop
  rw [List.length_replicate] at hdigits
  have hatoi : strAtoi ((⟨s, [], []⟩ : Session).load p) (raiseArg d k) =
      .ok (BitVec.ofNat 32 (decimal digits)) :=
    strAtoi_digits hdigits h.isDigit (by omega)
  obtain ⟨c, rest, hcons⟩ := List.exists_cons_of_ne_nil h.nonempty
  rw [hcons] at hdigits
  have hload : (⟨s, [], []⟩ : Session).load p (raiseArg d k) = .ok c := hdigits.2.1
  generalize BitVec.ofNat 32 (decimal digits) = w at hatoi
  unfold cmdRaise
  rw [hload, ok_bind, if_neg hdigits.1, hatoi, ok_bind]
  by_cases hpos : w.toInt ≤ 0
  · -- refused by the shell
    obtain ⟨scr, hcolor⟩ := Session.sysSetcolor_returns (p := p) (u := ⟨s, [], []⟩) 0x0C#8
    rw [if_pos hpos, hcolor, ok_bind, sigArg_nonpos hpos]
    refine ⟨_, rfl, fun j sig => ?_, fun j => ?_⟩
    · simp
    · unfold Kernel.task
      rw [Session.printLiteral_sched, Session.screened_sched]
  · obtain ⟨scr, hcolor⟩ := Session.sysSetcolor_returns (p := p) (u := ⟨s, [], []⟩) 0x07#8
    rw [if_neg hpos, hcolor, ok_bind]
    generalize hu1 : ((⟨s, [], []⟩ : Session).screened scr []).printLiteral "Enviando senal " = u1
    have hmem1 : u1.calling.mem = s.mem := by rw [← hu1]; simp
    obtain ⟨scr2, hprint⟩ := Session.sysPrint_string (h.arg hmem1) (by omega)
    rw [hprint, ok_bind]
    generalize hu2 : (u1.screened scr2 digits).printLiteral "...\n" = u2
    have hsched : u2.calling.kern.sched = s.kern.sched := by rw [← hu2, ← hu1]; simp
    have hev : ∀ j sig, .raised j sig ∉ u2.events := by
      intro j sig
      rw [← hu2, ← hu1]
      simp
    have hcur : u2.calling.kern.sched.cur = some i := by rw [hsched]; exact h.cur
    have htask : ∀ j, u2.calling.kern.task j = s.kern.task j := by
      intro j
      unfold Kernel.task
      rw [hsched]
    rw [Session.sysKill_returns hcur]
    refine ⟨_, rfl, ?_⟩
    cases hsig : sigArg w with
    | none =>
      refine ⟨fun j sig => ?_, fun j => by rw [htask]⟩
      simp [hev]
    | some sig =>
      refine ⟨fun j sig' => ?_, fun j => ?_⟩
      · simp [hev, eq_comm]
      · show ((u2.calling.kern.setTask i _).task j).sigPending = if j = i then _ else _
        by_cases hj : j = i
        · rw [if_pos hj, hj, Kernel.setTask_task_self, htask]
        · rw [if_neg hj, Kernel.setTask_task_ne _ _ hj, htask]

end RaiseLine

/-- The signal that the wrapped number is. -/
theorem sigArg_wrapped (n : Nat) : sigArg (BitVec.ofNat 32 n) =
    if hn : 0 < n % 2 ^ 32 ∧ n % 2 ^ 32 < 32 then some ⟨n % 2 ^ 32, hn.2⟩ else none := by
  have hw : (BitVec.ofNat 32 n).toNat = n % 2 ^ 32 := BitVec.toNat_ofNat ..
  unfold sigArg
  simp only [hw]

/-- **The signal typed is the signal raised** exactly for the numbers an `int` can hold, and
for those of the others that do not wrap to a signal. -/
theorem raise_typed_iff (h : RaiseLine p d s i k digits) :
    RaisesTyped p d s i (decimal digits) ↔
      decimal digits < 2 ^ 32 ∨ decimal digits % 2 ^ 32 = 0 ∨ 32 ≤ decimal digits % 2 ^ 32 := by
  obtain ⟨u, hrun, hev, hpend⟩ := h.raised
  generalize decimal digits = n at hev hpend
  constructor
  · intro htyped
    obtain ⟨u', hrun', hev', _⟩ := htyped
    rw [hrun] at hrun'
    cases hrun'
    by_contra hno
    have hn : 0 < n % 2 ^ 32 ∧ n % 2 ^ 32 < 32 := by omega
    have hraised := (hev i ⟨n % 2 ^ 32, hn.2⟩).mpr ⟨rfl, by rw [sigArg_wrapped, dif_pos hn]⟩
    have hsame : n % 2 ^ 32 = n := ((hev' _ _).mp hraised).2.2
    omega
  · intro hcond
    refine ⟨u, hrun, fun j sig => ?_, fun j => ?_⟩
    · rw [hev, sigArg_wrapped]
      by_cases hn : 0 < n % 2 ^ 32 ∧ n % 2 ^ 32 < 32
      · have hsame : n % 2 ^ 32 = n := by omega
        rw [dif_pos hn]
        have hone : 1 ≤ n := by omega
        constructor
        · intro hj
          have hval : n % 2 ^ 32 = sig.val := congrArg Fin.val (Option.some.inj hj.2)
          exact ⟨hj.1, hone, hval.symm.trans hsame⟩
        · intro hj
          exact ⟨hj.1, congrArg some (Fin.ext (hsame.trans hj.2.2.symm))⟩
      · rw [dif_neg hn]
        have hsig := sig.isLt
        apply iff_of_false
        · intro hj
          cases hj.2
        · intro hj
          omega
    · rw [hpend, sigArg_wrapped]
      by_cases hn : 0 < n % 2 ^ 32 ∧ n % 2 ^ 32 < 32
      · have hsame : n % 2 ^ 32 = n := by omega
        have hrange : 1 ≤ n ∧ n ≤ 31 := by omega
        rw [dif_pos hn]
        by_cases hj : j = i
        · rw [if_pos ⟨hj, hrange⟩]
          simp only [hj, if_true, hsame]
        · rw [if_neg (fun hall => hj hall.1)]
          exact if_neg hj
      · rw [dif_neg hn, if_neg]
        intro hj
        omega

end Line

/-! ## Lines in the shell's array -/

/-- Every such line can be in the array of a running task. -/
theorem raiseLine_exists {k : Nat} {digits : List U8} (hdigits : ∀ c ∈ digits, IsDigit c)
    (hne : digits ≠ []) (hshort : (raiseText k digits).length ≤ 127) :
    ∃ p d s, RaiseLine p d s 0 k digits := by
  obtain ⟨e, _, _, _⟩ := rootImage_mounted catBlocks
  obtain ⟨m, hd⟩ := demo_exists e
  have hbuf : UserBuffer wildLink m.mem taskAPdAddr 0x30F000#32 128 :=
    (hd.userBuffer imageOwns_stack).mono (by omega)
  have hlen : (raiseText k digits ++ [0#8]).length ≤ 128 := by
    rw [List.length_append, List.length_singleton]
    omega
  obtain ⟨mem, hf⟩ := hbuf.filled m.kern hlen
  refine ⟨⟨wildEnv (rootImage catBlocks).disk, taskAPdAddr, zeroRegs.frame⟩,
    ⟨0x30F000#32, 0x30F080#32, 0x30F080#32⟩, ⟨m.kern, e, mem⟩, hd.cur, hf.buffer, ?_, ?_, hdigits,
    hne, hshort⟩
  · intro j b hj
    apply hf.bytes
    have hlt := (List.getElem?_eq_some_iff.mp hj).1
    exact (List.getElem?_append_left hlt).trans hj
  · apply hf.bytes
    exact List.getElem?_concat_length ..

theorem raise_typed_ten : ∃ p d s, RaiseLine p d s 0 2 (textBytes "10") ∧ RaisesTyped p d s 0 10 := by
  obtain ⟨p, d, s, h⟩ : ∃ p d s, RaiseLine p d s 0 2 (textBytes "10") :=
    raiseLine_exists (by decide) (by decide) (by decide)
  exact ⟨p, d, s, h, (raise_typed_iff h).mpr (.inl (by decide))⟩

/-- `raise 4294967305` raises signal 9. -/
theorem raise_wraps : ∃ p d s, RaiseLine p d s 0 0 (textBytes "4294967305") ∧
    decimal (textBytes "4294967305") = 4294967305 ∧ ¬RaisesTyped p d s 0 4294967305 ∧
    ∃ u, execute p d ⟨s, [], []⟩ = .ok u ∧ .raised 0 9 ∈ u.events := by
  obtain ⟨p, d, s, h⟩ : ∃ p d s, RaiseLine p d s 0 0 (textBytes "4294967305") :=
    raiseLine_exists (by decide) (by decide) (by decide)
  have hvalue : decimal (textBytes "4294967305") = 4294967305 := by decide
  obtain ⟨u, hrun, hev, _⟩ := h.raised
  rw [hvalue] at hev
  have hraised : .raised 0 9 ∈ u.events := (hev 0 9).mpr ⟨rfl, rfl⟩
  refine ⟨p, d, s, h, hvalue, ?_, u, hrun, hraised⟩
  intro htyped
  obtain ⟨u', hrun', hev', _⟩ := htyped
  rw [hrun] at hrun'
  cases hrun'
  have hnine := ((hev' 0 9).mp hraised).2.2
  exact absurd hnine (by decide)

end PepinOS
