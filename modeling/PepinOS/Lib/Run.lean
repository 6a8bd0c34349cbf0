/-!
# Runs and their histories

A labelled transition relation, its runs from a start state, and the labels a
run has passed, the newest first. A property of the whole past is then a
recursive function of the history, and `Run.inv` is the one induction that ties
it to the state: what holds of the start and an empty history, and is carried by
each step, holds of every run.
-/

namespace PepinOS

variable {σ ε : Type}

/-- `Run R s₀ h s`: from `s₀`, by steps with the labels `h` (newest first), to `s`. -/
inductive Run (R : σ → ε → σ → Prop) (s₀ : σ) : List ε → σ → Prop where
  | start : Run R s₀ [] s₀
  | step {h : List ε} {s s' : σ} {e : ε} : Run R s₀ h s → R s e s' → Run R s₀ (e :: h) s'

/-- The rule for runs: an assertion about state and history that every step carries. -/
theorem Run.inv {R : σ → ε → σ → Prop} {s₀ : σ} (I : List ε → σ → Prop) (h0 : I [] s₀)
    (hstep : ∀ h s e s', I h s → R s e s' → I (e :: h) s') {h : List ε} {s : σ}
    (hrun : Run R s₀ h s) : I h s := by
  induction hrun with
  | start => exact h0
  | step _ hs ih => exact hstep _ _ _ _ ih hs

/-- The same for an assertion about the state alone. -/
theorem Run.ind {R : σ → ε → σ → Prop} {s₀ : σ} (I : σ → Prop) (h0 : I s₀)
    (hstep : ∀ s e s', I s → R s e s' → I s') {h : List ε} {s : σ}
    (hrun : Run R s₀ h s) : I s :=
  hrun.inv (fun _ => I) h0 fun _ s e s' => hstep s e s'

/-- One run after another. -/
theorem Run.append {R : σ → ε → σ → Prop} {s₀ s s' : σ} {h h' : List ε}
    (hrun : Run R s₀ h s) (hrun' : Run R s h' s') : Run R s₀ (h' ++ h) s' := by
  induction hrun' with
  | start => exact hrun
  | step _ hs ih => exact .step ih hs

/-- A run by some of the steps is a run. -/
theorem Run.mono {R R' : σ → ε → σ → Prop} (hsub : ∀ s e s', R s e s' → R' s e s') {s₀ s : σ}
    {h : List ε} (hrun : Run R s₀ h s) : Run R' s₀ h s := by
  induction hrun with
  | start => exact .start
  | step _ hs ih => exact .step ih (hsub _ _ _ hs)

section Image

variable {τ : Type} {R : σ → ε → σ → Prop} {R' : τ → ε → τ → Prop} {f : σ → τ}

/-- Where the image of a step is a step, the image of a run is a run. -/
theorem Run.image (hf : ∀ s e s', R s e s' → R' (f s) e (f s')) {s₀ s : σ} {h : List ε}
    (hrun : Run R s₀ h s) : Run R' (f s₀) h (f s) := by
  induction hrun with
  | start => exact .start
  | step _ hs ih => exact .step ih (hf _ _ _ hs)

/-- Where every step from an image is the image of a step, so is every run. -/
theorem Run.lift (hf : ∀ s e t, R' (f s) e t → ∃ s', t = f s' ∧ R s e s') {s₀ : σ} {t : τ}
    {h : List ε} (hrun : Run R' (f s₀) h t) : ∃ s, t = f s ∧ Run R s₀ h s := by
  induction hrun with
  | start => exact ⟨s₀, rfl, .start⟩
  | step _ hs ih =>
    obtain ⟨s, rfl, hrun⟩ := ih
    obtain ⟨s', rfl, hs'⟩ := hf _ _ _ hs
    exact ⟨s', rfl, .step hrun hs'⟩

end Image

/-- Where an assertion that every step carries leaves a step that brings a rank down, unless the
goal is reached, a run to the goal goes on from every state of it. -/
theorem Run.leads {R : σ → ε → σ → Prop} (I : List ε → σ → Prop) (goal : σ → Prop) (rank : σ → Nat)
    (hstep : ∀ h s e s', I h s → R s e s' → I (e :: h) s')
    (hdown : ∀ h s, I h s → goal s ∨ ∃ e s', R s e s' ∧ rank s' < rank s) {h : List ε} {s : σ}
    (hI : I h s) : ∃ h' s', Run R s h' s' ∧ goal s' := by
  induction hn : rank s using Nat.strongRecOn generalizing h s with
  | ind n ih =>
    rcases hdown h s hI with hgoal | ⟨e, s', hs, hlt⟩
    · exact ⟨[], s, .start, hgoal⟩
    · obtain ⟨h', s'', hrun, hgoal⟩ := ih (rank s') (hn ▸ hlt) (hstep h s e s' hI hs) rfl
      exact ⟨h' ++ [e], s'', (Run.start.step hs).append hrun, hgoal⟩

end PepinOS
