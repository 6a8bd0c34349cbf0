/-!
# Computations that may fault

What a sequence of `Except` steps came to, read backwards: if the whole gave a
result, so did each step. With `bind_ok` a computation is taken apart one `do`
line at a time. `bind_image` compares two computations, `do` line by `do` line, whose
states correspond under a map.
-/

namespace PepinOS

variable {ε α β : Type}

theorem bind_ok {x : Except ε α} {f : α → Except ε β} {r : β} (h : (x >>= f) = .ok r) :
    ∃ a, x = .ok a ∧ f a = .ok r := by
  cases x with
  | error e => cases h
  | ok a => exact ⟨a, rfl, h⟩

@[simp] theorem ok_bind (a : α) (f : α → Except ε β) : ((.ok a : Except ε α) >>= f) = f a := rfl

@[simp] theorem error_bind (e : ε) (f : α → Except ε β) :
    ((.error e : Except ε α) >>= f) = .error e := rfl

/-- Two continuations that agree on the result. -/
theorem bind_congr_ok {x : Except ε α} {f g : α → Except ε β} (h : ∀ a, x = .ok a → f a = g a) :
    (x >>= f) = (x >>= g) := by
  cases x with
  | error e => rfl
  | ok a => exact h a rfl

/-- A fault of the whole is a fault of a part. -/
theorem bind_ne_error {x : Except ε α} {f : α → Except ε β} {e : ε} (hx : x ≠ .error e)
    (hf : ∀ a, f a ≠ .error e) : (x >>= f) ≠ .error e := by
  cases x with
  | error e' => exact fun h => hx (congrArg Except.error (Except.error.inj h))
  | ok a => exact hf a

theorem pure_ok {a r : α} (h : (pure a : Except ε α) = .ok r) : r = a := by
  cases h
  rfl

section Image

variable {m : Type → Type} [Monad m] {α α' β β' : Type} {t : β → β'}

/-- A computation is the image of another when each of its steps is. -/
theorem bind_image [LawfulMonad m] {x : m α'} {y : m α} {f : α' → m β'} {g : α → m β} {s : α → α'}
    (hx : x = s <$> y) (hf : ∀ a, f (s a) = t <$> g a) : (x >>= f) = t <$> (y >>= g) := by
  rw [hx, bind_map_left, map_bind]
  exact bind_congr hf

/-- The same for a first step that both have. -/
theorem bind_image_same [LawfulMonad m] {x : m α} {f : α → m β'} {g : α → m β}
    (hf : ∀ a, f a = t <$> g a) : (x >>= f) = t <$> (x >>= g) :=
  bind_image (id_map x).symm hf

theorem ite_image {c : Prop} [Decidable c] {x y : m β'} {x' y' : m β} (hx : c → x = t <$> x')
    (hy : ¬c → y = t <$> y') : (if c then x else y) = t <$> (if c then x' else y') := by
  split
  next hc => exact hx hc
  next hc => exact hy hc

end Image

theorem toOption_image {x : Except ε β} {y : Except ε α} {s : α → β} (h : x = s <$> y) :
    x.toOption = s <$> y.toOption := by
  rw [h]
  cases y <;> rfl

/-- One arm of a conditional was taken. In a long chain this is faster than `split`. -/
theorem ite_cases {c : Prop} [Decidable c] {x y r : α} (h : (if c then x else y) = r) :
    (c ∧ x = r) ∨ (¬c ∧ y = r) := by
  split at h
  next hc => exact .inl ⟨hc, h⟩
  next hc => exact .inr ⟨hc, h⟩

end PepinOS
