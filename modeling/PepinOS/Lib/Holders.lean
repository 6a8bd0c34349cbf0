import Mathlib.Logic.Function.Basic
import Mathlib.Data.Set.Function

/-!
# Who holds what

Holders, each with at most one resource, and a flag on every resource. `Exclusive`
says that the flag is up on exactly the resources somebody holds, and that nobody
shares: taking a free one and giving one back keep it. A resource's holder is the
only one whose actions can free it, so the others' may be ignored
(`Exclusive.other`).
-/

namespace PepinOS

variable {σ ρ : Type} {own own' : σ → Option ρ} {taken taken' : ρ → Bool}

/-- The taken resources are the held ones, each held once. -/
structure Exclusive (own : σ → Option ρ) (taken : ρ → Bool) : Prop where
  held : ∀ r, taken r = true ↔ ∃ a, own a = some r
  inj : ∀ {a b r}, own a = some r → own b = some r → a = b

theorem Exclusive.nobody (hown : ∀ a, own a = none) (htaken : ∀ r, taken r = false) :
    Exclusive own taken where
  held := by
    intro r
    constructor
    · intro hr
      rw [htaken r] at hr
      cases hr
    · rintro ⟨a, ha⟩
      rw [hown a] at ha
      cases ha
  inj := by
    intro a b r ha
    rw [hown a] at ha
    cases ha

theorem Exclusive.congr (h : Exclusive own taken) (hown : ∀ a, own' a = own a)
    (htaken : ∀ r, taken' r = taken r) : Exclusive own' taken' := by
  rw [funext hown, funext htaken]
  exact h

/-- A resource held by `a` is not held by another. -/
theorem Exclusive.other (h : Exclusive own taken) {a b : σ} {r : ρ} (ha : own a = some r)
    (hb : b ≠ a) : own b ≠ some r :=
  fun hr => hb (h.inj hr ha)

variable [DecidableEq σ] [DecidableEq ρ]

/-- `a`, empty-handed, takes a free resource. -/
theorem Exclusive.take (h : Exclusive own taken) {a : σ} {r : ρ} (ha : own a = none)
    (hr : taken r = false) :
    Exclusive (Function.update own a (some r)) (Function.update taken r true) := by
  have hfree : ∀ b, own b ≠ some r := by
    intro b hb
    rw [(h.held r).mpr ⟨b, hb⟩] at hr
    cases hr
  refine ⟨fun q => ?_, fun {b c q} hb hc => ?_⟩
  · by_cases hq : q = r
    · rw [hq, Function.update_self]
      exact ⟨fun _ => ⟨a, Function.update_self ..⟩, fun _ => rfl⟩
    · rw [Function.update_of_ne hq, h.held q]
      constructor
      · rintro ⟨b, hb⟩
        have hba : b ≠ a := by
          rintro rfl
          rw [ha] at hb
          cases hb
        exact ⟨b, (Function.update_of_ne hba ..).trans hb⟩
      · rintro ⟨b, hb⟩
        by_cases hba : b = a
        · rw [hba, Function.update_self] at hb
          exact absurd (Option.some.inj hb).symm hq
        · rw [Function.update_of_ne hba] at hb
          exact ⟨b, hb⟩
  · by_cases hba : b = a
    · by_cases hca : c = a
      · rw [hba, hca]
      · rw [hba, Function.update_self] at hb
        rw [Function.update_of_ne hca, ← hb] at hc
        exact absurd hc (hfree c)
    · rw [Function.update_of_ne hba] at hb
      by_cases hca : c = a
      · rw [hca, Function.update_self] at hc
        rw [← hc] at hb
        exact absurd hb (hfree b)
      · rw [Function.update_of_ne hca] at hc
        exact h.inj hb hc

/-- `a` gives its resource back. -/
theorem Exclusive.give (h : Exclusive own taken) {a : σ} {r : ρ} (ha : own a = some r) :
    Exclusive (Function.update own a none) (Function.update taken r false) := by
  have hother : ∀ {b q}, Function.update own a none b = some q → b ≠ a ∧ own b = some q := by
    intro b q hb
    by_cases hba : b = a
    · rw [hba, Function.update_self] at hb
      cases hb
    · rw [Function.update_of_ne hba] at hb
      exact ⟨hba, hb⟩
  refine ⟨fun q => ?_, fun {b c q} hb hc => h.inj (hother hb).2 (hother hc).2⟩
  by_cases hq : q = r
  · rw [hq, Function.update_self]
    constructor
    · intro hf
      cases hf
    · rintro ⟨b, hb⟩
      exact absurd (hother hb).2 (h.other ha (hother hb).1)
  · rw [Function.update_of_ne hq, h.held q]
    constructor
    · rintro ⟨b, hb⟩
      have hba : b ≠ a := by
        rintro rfl
        rw [ha] at hb
        exact hq (Option.some.inj hb).symm
      exact ⟨b, (Function.update_of_ne hba ..).trans hb⟩
    · rintro ⟨b, hb⟩
      exact ⟨b, (hother hb).2⟩

omit [DecidableEq σ] [DecidableEq ρ] in
/-- Holders with something in their hands and taken resources are in bijection. -/
theorem Exclusive.bijOn (h : Exclusive own taken) :
    Set.BijOn own {a | own a ≠ none} (some '' {r | taken r = true}) := by
  refine ⟨fun a ha => ?_, fun a ha b _ heq => ?_, ?_⟩
  · obtain ⟨r, hr⟩ := Option.ne_none_iff_exists'.mp ha
    exact ⟨r, (h.held r).mpr ⟨a, hr⟩, hr.symm⟩
  · obtain ⟨r, hr⟩ := Option.ne_none_iff_exists'.mp ha
    exact h.inj hr (heq ▸ hr)
  · rintro _ ⟨r, hr, rfl⟩
    obtain ⟨a, ha⟩ := (h.held r).mp hr
    refine ⟨a, ?_, ha⟩
    show own a ≠ none
    rw [ha]
    exact Option.some_ne_none r

end PepinOS
