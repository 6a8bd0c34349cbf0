import PepinOS.Lib.Loop
import PepinOS.Lib.Trace

/-!
# Exact bounds on a trace

A triple for computations that leave a trace. `Spec P x G Q` says that `x` stays
within `P` exactly if `G` holds, and that it then comes to its end with a result in
`Q`. `G` speaks of the input, so a triple for a whole program is the exact condition
on its input under which everything it touches lies within `P`.

The triple of a sequence comes from the triples of its parts (`Spec.bind`), that of a
counting loop from those of its turns (`Spec.loop`): the second part, or the next turn,
is reached only if `G` held so far, so its triple may use `Q`. `forRangeT` is the
counting loop of `Lib.Loop` with a trace.
-/

namespace PepinOS

/-- An optional result, `none` the fault. -/
def faulting {α : Type} : Option α → Except Unit α
  | some a => .ok a
  | none => .error ()

@[simp] theorem faulting_some {α : Type} (a : α) : faulting (some a) = .ok a := rfl

@[simp] theorem faulting_bind {α β : Type} (x : Option α) (f : α → Option β) :
    faulting (x.bind f) = faulting x >>= fun a => faulting (f a) := by
  cases x with
  | none => rfl
  | some a => rfl

namespace Traced

variable {ω ε α β σ : Type}

/-! ## Loops -/

def forFromT : Nat → Nat → (Nat → σ → Traced ω ε σ) → σ → Traced ω ε σ
  | 0, _, _, s => pure s
  | n + 1, i, f, s => f i s >>= forFromT n (i + 1) f

/-- `for (i = lo; i < hi; i++) s = f i s`. -/
def forRangeT (lo hi : Nat) (f : Nat → σ → Traced ω ε σ) (s : σ) : Traced ω ε σ :=
  forFromT (hi - lo) lo f s

/-- Without the trace it is the loop over the bodies without theirs. -/
theorem forRangeT_result {f : Nat → σ → Traced ω Unit σ} {g : Nat → σ → Option σ}
    (hf : ∀ i s, (f i s).result = faulting (g i s)) (lo hi : Nat) (s : σ) :
    (forRangeT lo hi f s).result = faulting (forRangeM lo hi g s) := by
  have key : ∀ n i s, (forFromT n i f s).result = faulting (forFromM n i g s) := by
    intro n
    induction n with
    | zero => exact fun i s => rfl
    | succ n ih =>
      intro i s
      rw [forFromT, forFromM, result_bind, hf, faulting_bind]
      exact bind_congr_ok fun t _ => ih (i + 1) t
  exact key (hi - lo) lo s

/-- A loop whose turns touch a fixed list each and do not fault. -/
theorem forRangeT_noted {f : Nat → σ → Traced ω ε σ} {ws : Nat → List ω} {g : Nat → σ → σ}
    (hf : ∀ i s, f i s = ⟨ws i, .ok (g i s)⟩) (lo hi : Nat) (s : σ) :
    forRangeT lo hi f s = ⟨(List.range' lo (hi - lo)).flatMap ws, .ok (forRange lo hi g s)⟩ := by
  have key : ∀ n i s, forFromT n i f s = ⟨(List.range' i n).flatMap ws, .ok (forFrom n i g s)⟩ := by
    intro n
    induction n with
    | zero => exact fun i s => rfl
    | succ n ih =>
      intro i s
      rw [forFromT, hf, funext (ih (i + 1))]
      rfl
  exact key (hi - lo) lo s

/-! ## The triple -/

structure Spec (P : ω → Prop) (x : Traced ω ε α) (G : Prop) (Q : α → Prop) : Prop where
  within : x.Within P ↔ G
  ends : G → ∃ a, x.result = .ok a ∧ Q a

variable {P : ω → Prop} {x : Traced ω ε α} {G H : Prop} {Q : α → Prop}

theorem Spec.pure {a : α} (h : Q a) : Spec P (pure a : Traced ω ε α) True Q :=
  ⟨iff_true_intro (within_pure a), fun _ => ⟨a, rfl, h⟩⟩

theorem Spec.touch (ws : List ω) :
    Spec P (touch ws : Traced ω ε Unit) (∀ w ∈ ws, P w) fun _ => True :=
  ⟨Iff.rfl, fun _ => ⟨(), rfl, trivial⟩⟩

/-- A step that touches nothing and gives `a`. -/
theorem Spec.lift {y : Except ε α} {a : α} (hy : y = .ok a) (h : Q a) :
    Spec P (lift y : Traced ω ε α) True Q :=
  ⟨iff_true_intro (within_lift y), fun _ => ⟨a, hy, h⟩⟩

/-- The condition, said differently. -/
theorem Spec.iff {G' : Prop} (hx : Spec P x G Q) (h : G ↔ G') : Spec P x G' Q :=
  ⟨hx.within.trans h, fun hG => hx.ends (h.mpr hG)⟩

theorem Spec.post {R : α → Prop} (hx : Spec P x G Q) (h : ∀ a, Q a → R a) : Spec P x G R := by
  refine ⟨hx.within, fun hG => ?_⟩
  obtain ⟨a, ha, hQ⟩ := hx.ends hG
  exact ⟨a, ha, h a hQ⟩

/-- The second part is reached with a result in `Q`. -/
theorem Spec.within_bind {f : α → Traced ω ε β} (hx : Spec P x G Q)
    (hf : ∀ a, G → Q a → ((f a).Within P ↔ H)) : (x >>= f).Within P ↔ G ∧ H := by
  rw [Traced.within_bind, hx.within]
  refine and_congr_right fun hG => ?_
  obtain ⟨a, ha, hQ⟩ := hx.ends hG
  rw [ha]
  constructor
  · intro h
    exact (hf a hG hQ).mp (h a rfl)
  · intro h a' ha'
    cases ha'
    exact (hf a hG hQ).mpr h

theorem Spec.bind {f : α → Traced ω ε β} {R : β → Prop} (hx : Spec P x G Q)
    (hf : ∀ a, G → Q a → Spec P (f a) H R) : Spec P (x >>= f) (G ∧ H) R := by
  refine ⟨hx.within_bind fun a hG hQ => (hf a hG hQ).within, ?_⟩
  rintro ⟨hG, hH⟩
  obtain ⟨a, ha, hQ⟩ := hx.ends hG
  obtain ⟨b, hb, hR⟩ := (hf a hG hQ).ends hH
  refine ⟨b, ?_, hR⟩
  rw [result_bind, ha, ok_bind]
  exact hb

/-- A loop with no turns. -/
theorem Spec.loop_empty {f : Nat → σ → Traced ω ε σ} {lo hi : Nat} {s : σ} {Q : σ → Prop}
    (hle : hi ≤ lo) (h : Q s) : Spec P (forRangeT lo hi f s) True Q := by
  unfold forRangeT
  rw [Nat.sub_eq_zero_of_le hle]
  exact Spec.pure h

/-- The loop rule: `I` is what every turn finds, `G i` what turn `i` asks for. -/
theorem Spec.loop {f : Nat → σ → Traced ω ε σ} {G : Nat → Prop} {lo hi : Nat} {s : σ}
    (I : Nat → σ → Prop) (hle : lo ≤ hi) (h0 : I lo s)
    (hturn : ∀ i s, lo ≤ i → i < hi → I i s → Spec P (f i s) (G i) (I (i + 1))) :
    Spec P (forRangeT lo hi f s) (∀ i, lo ≤ i → i < hi → G i) (I hi) := by
  have key : ∀ n i s, lo ≤ i → i + n = hi → I i s →
      Spec P (forFromT n i f s) (∀ k, i ≤ k → k < hi → G k) (I hi) := by
    intro n
    induction n with
    | zero =>
      intro i s _ hi' hI
      have hempty : True ↔ ∀ k, i ≤ k → k < hi → G k := by
        refine iff_of_true trivial fun k hk hlt => ?_
        omega
      refine (Spec.pure ?_).iff hempty
      rw [show hi = i by omega]
      exact hI
    | succ n ih =>
      intro i s hlo hi' hI
      have hrest := (hturn i s hlo (by omega) hI).bind
        fun t _ ht => ih (i + 1) t (by omega) (by omega) ht
      refine hrest.iff ?_
      constructor
      · rintro ⟨hi0, htail⟩ k hk hlt
        rcases Nat.eq_or_lt_of_le hk with rfl | hk
        · exact hi0
        · exact htail k hk hlt
      · intro hall
        exact ⟨hall i (Nat.le_refl i) (by omega), fun k hk => hall k (by omega)⟩
  exact key (hi - lo) lo s (Nat.le_refl lo) (by omega) h0

end Traced

end PepinOS
