import PepinOS.Lib.Loop

/-!
# Polling

`do x = read(); while (!q(x))` over an input that is a sequence of values, each read
taking the next one. `poll` stops behind the first value that passes the test, if the
fuel lasts. The fuel is not part of the input: a poll that ends does so with any larger
fuel (`poll_mono`), and there is one with which it ends if and only if a value that
passes is still to come (`poll_ends`, `poll_found`).
-/

namespace PepinOS

variable {α : Type} {q : α → Bool} {st : Nat → α} {n n' k k' : Nat}

/-- The place behind the first value from `k` on that passes. -/
def poll (q : α → Bool) (st : Nat → α) : Nat → Nat → Option Nat
  | 0, _ => none
  | n + 1, k => if q (st k) then some (k + 1) else poll q st n (k + 1)

/-- Where it stops, a value has passed. -/
theorem poll_found (h : poll q st n k = some k') : ∃ i, k ≤ i ∧ k' = i + 1 ∧ q (st i) = true := by
  induction n generalizing k with
  | zero => cases h
  | succ n ih =>
    unfold poll at h
    split at h
    next hq =>
      cases h
      exact ⟨k, Nat.le_refl k, rfl, hq⟩
    next =>
      obtain ⟨i, hki, hi⟩ := ih h
      exact ⟨i, Nat.le_of_succ_le hki, hi⟩

/-- It stops no later than at any value that passes. -/
theorem poll_ends {i : Nat} (hki : k ≤ i) (hi : q (st i) = true) :
    ∃ n k', poll q st n k = some k' ∧ k' ≤ i + 1 := by
  obtain ⟨d, rfl⟩ := Nat.exists_eq_add_of_le hki
  induction d generalizing k with
  | zero =>
    refine ⟨1, k + 1, ?_, Nat.le_refl _⟩
    exact if_pos hi
  | succ d ih =>
    by_cases hq : q (st k) = true
    · exact ⟨1, k + 1, if_pos hq, by omega⟩
    · have hnext : k + 1 + d = k + (d + 1) := by omega
      obtain ⟨n, k', hrun, hle⟩ := ih (by omega) (by rw [hnext]; exact hi)
      rw [hnext] at hle
      exact ⟨n + 1, k', (if_neg hq).trans hrun, hle⟩

theorem poll_mono (h : poll q st n k = some k') (hle : n ≤ n') : poll q st n' k = some k' := by
  induction n generalizing k n' with
  | zero => cases h
  | succ n ih =>
    obtain ⟨m, rfl⟩ := Nat.exists_eq_succ_of_ne_zero (Nat.ne_of_gt (Nat.lt_of_lt_of_le
      (Nat.zero_lt_succ n) hle))
    rw [poll] at h ⊢
    by_cases hq : q (st k) = true
    · rw [if_pos hq] at h ⊢
      exact h
    · rw [if_neg hq] at h ⊢
      exact ih h (Nat.le_of_succ_le_succ hle)

end PepinOS
