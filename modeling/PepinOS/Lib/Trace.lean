import PepinOS.Lib.Fault

/-!
# Computations that leave a trace

A computation that may fault and notes on the way what it touches: the index it
reads, the address it stores to. What a definition touches is then a fact about the
definition itself, if two things hold. It has no other access than `touch`, which is
how it is written; and without its notes it is the definition it stands for, which
`result_bind` and its companions show by erasing them.

`Within P` says that everything touched has the property `P`. Over a bind it splits
exactly, the second part counting only for the results the first can have
(`within_bind`), so a bound can be proved, and refuted, part by part. What was touched
before a fault stays in the trace.
-/

namespace PepinOS

/-- What was touched, in order, and what came of it. -/
structure Traced (ω ε α : Type) where
  trace : List ω
  result : Except ε α

namespace Traced

variable {ω ε α β : Type}

instance : Monad (Traced ω ε) where
  pure a := ⟨[], .ok a⟩
  bind x f :=
    match x.result with
    | .error t => ⟨x.trace, .error t⟩
    | .ok a => ⟨x.trace ++ (f a).trace, (f a).result⟩

/-- Touches `ws`. -/
def touch (ws : List ω) : Traced ω ε Unit := ⟨ws, .ok ()⟩

/-- A computation that touches nothing. -/
def lift (x : Except ε α) : Traced ω ε α := ⟨[], x⟩

/-! ## Without the trace -/

@[simp] theorem result_pure (a : α) : (pure a : Traced ω ε α).result = .ok a := rfl

@[simp] theorem result_touch (ws : List ω) : (touch ws : Traced ω ε Unit).result = .ok () := rfl

@[simp] theorem result_lift (x : Except ε α) : (lift x : Traced ω ε α).result = x := rfl

@[simp] theorem result_bind (x : Traced ω ε α) (f : α → Traced ω ε β) :
    (x >>= f).result = x.result >>= fun a => (f a).result := by
  obtain ⟨trace, result⟩ := x
  cases result with
  | error t => rfl
  | ok a => rfl

/-! ## What is touched -/

/-- Everything touched has the property `P`. -/
def Within (P : ω → Prop) (x : Traced ω ε α) : Prop := ∀ w ∈ x.trace, P w

variable {P : ω → Prop}

@[simp] theorem within_pure (a : α) : (pure a : Traced ω ε α).Within P :=
  fun _ hw => absurd hw List.not_mem_nil

@[simp] theorem within_touch (ws : List ω) :
    (touch ws : Traced ω ε Unit).Within P ↔ ∀ w ∈ ws, P w := Iff.rfl

@[simp] theorem within_lift (x : Except ε α) : (lift x : Traced ω ε α).Within P :=
  fun _ hw => absurd hw List.not_mem_nil

/-- The first part, and for its result the second. -/
theorem within_bind {x : Traced ω ε α} {f : α → Traced ω ε β} :
    (x >>= f).Within P ↔ x.Within P ∧ ∀ a, x.result = .ok a → (f a).Within P := by
  obtain ⟨trace, result⟩ := x
  cases result with
  | error t =>
    constructor
    · intro h
      refine ⟨h, fun a ha => ?_⟩
      cases ha
    · exact fun h => h.1
  | ok a =>
    constructor
    · intro h
      refine ⟨fun w hw => h w (List.mem_append_left _ hw), fun a' ha => ?_⟩
      cases ha
      exact fun w hw => h w (List.mem_append_right _ hw)
    · rintro ⟨h1, h2⟩ w hw
      rcases List.mem_append.mp hw with hw | hw
      · exact h1 w hw
      · exact h2 a rfl w hw

/-- Where the first part is known to give `a`. -/
theorem within_bind_ok {x : Traced ω ε α} {f : α → Traced ω ε β} {a : α} (h : x.result = .ok a) :
    (x >>= f).Within P ↔ x.Within P ∧ (f a).Within P := by
  rw [within_bind, h]
  constructor
  · exact fun hx => ⟨hx.1, hx.2 a rfl⟩
  · rintro ⟨h1, h2⟩
    refine ⟨h1, fun a' ha => ?_⟩
    cases ha
    exact h2

/-- Where it faults, the second part is not reached. -/
theorem within_bind_error {x : Traced ω ε α} {f : α → Traced ω ε β} {t : ε}
    (h : x.result = .error t) : (x >>= f).Within P ↔ x.Within P := by
  rw [within_bind, h]
  constructor
  · exact fun hx => hx.1
  · exact fun hx => ⟨hx, fun a ha => by cases ha⟩

/-! ## Reading an array -/

/-- Cell `i` of an array; the index is what is touched. -/
def readAt (b : Nat → α) (i : Nat) : Traced Nat ε α := do
  touch [i]
  return b i

@[simp] theorem readAt_result (b : Nat → α) (i : Nat) :
    (readAt b i : Traced Nat ε α).result = .ok (b i) :=
  rfl

theorem readAt_within {P : Nat → Prop} (b : Nat → α) (i : Nat) :
    (readAt b i : Traced Nat ε α).Within P ↔ P i := by
  unfold readAt
  rw [within_bind_ok (result_touch _), within_touch, List.forall_mem_singleton]
  exact and_iff_left (within_pure _)

end Traced

end PepinOS
