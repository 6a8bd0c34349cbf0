import Mathlib.Order.Bounds.Basic

/-!
# Counting loops

`for (i = lo; i < hi; i++) body` over an explicit state. The sources use this
shape everywhere: clearing a page, copying a directory, filling the bitmap.

`forRange_inv` is the one induction: an assertion that holds at `lo` and that
each turn carries from `i` to `i + 1` holds at `hi`. `forRange_ind` is the
instance for an assertion that does not mention the counter. The loop that stops at
the first hit is `List.find?`, and what it finds is the least.
-/

namespace PepinOS

variable {σ : Type}

/-- `n` turns of the loop, the counter starting at `i`. -/
def forFrom : Nat → Nat → (Nat → σ → σ) → σ → σ
  | 0, _, _, s => s
  | n + 1, i, f, s => forFrom n (i + 1) f (f i s)

/-- `for (i = lo; i < hi; i++) s = f i s`. -/
def forRange (lo hi : Nat) (f : Nat → σ → σ) (s : σ) : σ :=
  forFrom (hi - lo) lo f s

theorem forFrom_inv {f : Nat → σ → σ} {I : Nat → σ → Prop} :
    ∀ (n i : Nat) (s : σ), I i s → (∀ k s, i ≤ k → k < i + n → I k s → I (k + 1) (f k s)) →
      I (i + n) (forFrom n i f s) := by
  intro n
  induction n with
  | zero => intro i s h _; exact h
  | succ n ih =>
    intro i s h hstep
    have h1 : I (i + 1) (f i s) := hstep i s (Nat.le_refl i) (by omega) h
    have h2 := ih (i + 1) (f i s) h1 (fun k s hk hkn hI => hstep k s (by omega) (by omega) hI)
    rw [show i + (n + 1) = i + 1 + n by omega]
    exact h2

/-- The loop rule. -/
theorem forRange_inv {f : Nat → σ → σ} {lo hi : Nat} {s : σ} (I : Nat → σ → Prop)
    (hle : lo ≤ hi) (h0 : I lo s)
    (hstep : ∀ i s, lo ≤ i → i < hi → I i s → I (i + 1) (f i s)) :
    I hi (forRange lo hi f s) := by
  have h := forFrom_inv (f := f) (I := I) (hi - lo) lo s h0
    (fun k s hk hkn hI => hstep k s hk (by omega) hI)
  rw [show lo + (hi - lo) = hi by omega] at h
  exact h

/-- One more turn after the first `hi`. -/
theorem forRange_succ (hi : Nat) (f : Nat → σ → σ) (s : σ) :
    forRange 0 (hi + 1) f s = f hi (forRange 0 hi f s) := by
  have key : ∀ (n i : Nat) (s : σ), forFrom (n + 1) i f s = f (i + n) (forFrom n i f s) := by
    intro n
    induction n with
    | zero => intro i s; rfl
    | succ n ih =>
      intro i s
      rw [forFrom, ih, forFrom, show i + 1 + n = i + (n + 1) by omega]
  have h := key hi 0 s
  rw [Nat.zero_add] at h
  exact h

/-- The loop rule for an assertion that does not depend on the counter; it
needs no order between the bounds. -/
theorem forRange_ind {f : Nat → σ → σ} {lo hi : Nat} {s : σ} (I : σ → Prop)
    (h0 : I s) (hstep : ∀ i s, lo ≤ i → i < hi → I s → I (f i s)) :
    I (forRange lo hi f s) := by
  rcases Nat.le_total lo hi with hle | hle
  · exact forRange_inv (fun _ => I) hle h0 hstep
  · unfold forRange
    rw [Nat.sub_eq_zero_of_le hle]
    exact h0

/-- What each turn commutes with, the loop commutes with. -/
theorem forRange_comm {f : Nat → σ → σ} {g : σ → σ} (h : ∀ i s, f i (g s) = g (f i s))
    {lo hi : Nat} (s : σ) : forRange lo hi f (g s) = g (forRange lo hi f s) := by
  have key : ∀ (n i : Nat) (s : σ), forFrom n i f (g s) = g (forFrom n i f s) := by
    intro n
    induction n with
    | zero => intro i s; rfl
    | succ n ih =>
      intro i s
      rw [forFrom, forFrom, h, ih]
  exact key (hi - lo) lo s

/-! ## Loops that can stop the machine

The same loop when a turn can fault: `none` is final. -/

/-- `n` turns of the loop, the counter starting at `i`. -/
def forFromM : Nat → Nat → (Nat → σ → Option σ) → σ → Option σ
  | 0, _, _, s => some s
  | n + 1, i, f, s => (f i s).bind (forFromM n (i + 1) f)

/-- `for (i = lo; i < hi; i++) s = f i s`, where a turn may fault. -/
def forRangeM (lo hi : Nat) (f : Nat → σ → Option σ) (s : σ) : Option σ :=
  forFromM (hi - lo) lo f s

theorem forFromM_inv {f : Nat → σ → Option σ} {I : Nat → σ → Prop} :
    ∀ (n i : Nat) (s s' : σ), forFromM n i f s = some s' → I i s →
      (∀ k s s', i ≤ k → k < i + n → f k s = some s' → I k s → I (k + 1) s') → I (i + n) s' := by
  intro n
  induction n with
  | zero =>
    intro i s s' h hI _
    rw [forFromM, Option.some.injEq] at h
    exact h ▸ hI
  | succ n ih =>
    intro i s s' h hI hstep
    rw [forFromM, Option.bind_eq_some_iff] at h
    obtain ⟨s1, h1, h2⟩ := h
    have hI1 : I (i + 1) s1 := hstep i s s1 (Nat.le_refl i) (by omega) h1 hI
    rw [show i + (n + 1) = i + 1 + n by omega]
    exact ih (i + 1) s1 s' h2 hI1 (fun k t t' hk hkn hf hIk =>
      hstep k t t' (by omega) (by omega) hf hIk)

/-- The loop rule for a run that came to its end. -/
theorem forRangeM_inv {f : Nat → σ → Option σ} {lo hi : Nat} {s s' : σ}
    (I : Nat → σ → Prop) (hle : lo ≤ hi) (hrun : forRangeM lo hi f s = some s') (h0 : I lo s)
    (hstep : ∀ i s s', lo ≤ i → i < hi → f i s = some s' → I i s → I (i + 1) s') :
    I hi s' := by
  have h := forFromM_inv (hi - lo) lo s s' hrun h0
    (fun k t t' hk hkn hf hI => hstep k t t' hk (by omega) hf hI)
  rw [show lo + (hi - lo) = hi by omega] at h
  exact h

/-- The same for an assertion that does not depend on the counter. -/
theorem forRangeM_ind {f : Nat → σ → Option σ} {lo hi : Nat} {s s' : σ}
    (I : σ → Prop) (hrun : forRangeM lo hi f s = some s') (h0 : I s)
    (hstep : ∀ i s s', lo ≤ i → i < hi → f i s = some s' → I s → I s') : I s' := by
  rcases Nat.le_total lo hi with hle | hle
  · exact forRangeM_inv (fun _ => I) hle hrun h0 hstep
  · unfold forRangeM at hrun
    rw [Nat.sub_eq_zero_of_le hle, forFromM, Option.some.injEq] at hrun
    exact hrun ▸ h0

theorem forFromM_total {f : Nat → σ → Option σ} {I : Nat → σ → Prop} :
    ∀ (n i : Nat) (s : σ), I i s →
      (∀ k s, i ≤ k → k < i + n → I k s → ∃ s', f k s = some s' ∧ I (k + 1) s') →
      ∃ s', forFromM n i f s = some s' ∧ I (i + n) s' := by
  intro n
  induction n with
  | zero => intro i s hI _; exact ⟨s, rfl, hI⟩
  | succ n ih =>
    intro i s hI hstep
    obtain ⟨s1, h1, hI1⟩ := hstep i s (Nat.le_refl i) (by omega) hI
    obtain ⟨s2, h2, hI2⟩ := ih (i + 1) s1 hI1
      (fun k t hk hkn hIk => hstep k t (by omega) (by omega) hIk)
    refine ⟨s2, ?_, ?_⟩
    · rw [forFromM, h1]; exact h2
    · rw [show i + (n + 1) = i + 1 + n by omega]; exact hI2

/-- A part of the state that each turn changes as `g` says is changed as by the loop over `g`. -/
theorem forRangeM_map {τ : Type} (π : σ → τ) {f : Nat → σ → Option σ} {g : Nat → τ → τ}
    {lo hi : Nat} {s s' : σ} (hturn : ∀ i s t, f i s = some t → π t = g i (π s))
    (hrun : forRangeM lo hi f s = some s') : π s' = forRange lo hi g (π s) := by
  unfold forRangeM at hrun
  unfold forRange
  generalize hi - lo = n at hrun
  induction n generalizing lo s with
  | zero =>
    cases hrun
    rfl
  | succ n ih =>
    obtain ⟨t, hfirst, hrest⟩ := Option.bind_eq_some_iff.mp hrun
    rw [forFrom, ← hturn lo s t hfirst]
    exact ih hrest

/-- One more turn after the first `hi`. -/
theorem forRangeM_snoc {f : Nat → σ → Option σ} {hi : Nat} {s t t' : σ}
    (hrun : forRangeM 0 hi f s = some t) (hturn : f hi t = some t') :
    forRangeM 0 (hi + 1) f s = some t' := by
  have key : ∀ (n i : Nat) (s : σ), forFromM n i f s = some t → f (i + n) t = some t' →
      forFromM (n + 1) i f s = some t' := by
    intro n
    induction n with
    | zero =>
      intro i s hs ht
      cases hs
      rw [Nat.add_zero] at ht
      rw [forFromM, ht]
      rfl
    | succ n ih =>
      intro i s hs ht
      rw [forFromM] at hs
      obtain ⟨s1, h1, h2⟩ := Option.bind_eq_some_iff.mp hs
      rw [forFromM, h1]
      exact ih (i + 1) s1 h2 (by rw [show i + 1 + n = i + (n + 1) by omega]; exact ht)
  exact key hi 0 s hrun (by rw [Nat.zero_add]; exact hturn)

/-- The loop rule that also gives the end: no turn faults while `I` holds. -/
theorem forRangeM_total {f : Nat → σ → Option σ} {lo hi : Nat} {s : σ}
    (I : Nat → σ → Prop) (hle : lo ≤ hi) (h0 : I lo s)
    (hstep : ∀ i s, lo ≤ i → i < hi → I i s → ∃ s', f i s = some s' ∧ I (i + 1) s') :
    ∃ s', forRangeM lo hi f s = some s' ∧ I hi s' := by
  obtain ⟨s', h1, h2⟩ := forFromM_total (hi - lo) lo s h0
    (fun k t hk hkn hI => hstep k t hk (by omega) hI)
  rw [show lo + (hi - lo) = hi by omega] at h2
  exact ⟨s', h1, h2⟩

/-- A search up an ascending list finds the least. -/
theorem find?_eq_some_iff_isLeast {α : Type} [LinearOrder α] {p : α → Bool} {a : α} :
    ∀ {l : List α}, l.Pairwise (· < ·) → (l.find? p = some a ↔ IsLeast {b | b ∈ l ∧ p b = true} a)
  | [], _ => by
    constructor
    · intro h
      cases h
    · intro h
      have hmem : a ∈ [] := h.1.1
      cases hmem
  | x :: l, hl => by
    obtain ⟨hx, hl⟩ := List.pairwise_cons.mp hl
    by_cases hp : p x = true
    · rw [List.find?_cons_of_pos hp]
      constructor
      · intro h
        cases h
        refine ⟨⟨List.mem_cons_self .., hp⟩, fun b hb => ?_⟩
        rcases List.mem_cons.mp hb.1 with rfl | hb
        · exact le_refl _
        · exact (hx b hb).le
      · intro h
        have hle : a ≤ x := h.2 ⟨List.mem_cons_self .., hp⟩
        rcases List.mem_cons.mp h.1.1 with rfl | ha
        · rfl
        · exact absurd (hx a ha) (not_lt.mpr hle)
    · rw [List.find?_cons_of_neg hp, find?_eq_some_iff_isLeast hl]
      have hset : {b | b ∈ x :: l ∧ p b = true} = {b | b ∈ l ∧ p b = true} := by
        ext b
        refine and_congr_left fun hb => ?_
        rw [List.mem_cons, or_iff_right]
        rintro rfl
        exact hp hb
      rw [hset]

end PepinOS
