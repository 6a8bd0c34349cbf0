import Mathlib.Logic.Function.Basic
import Mathlib.Data.List.Basic

/-!
# Queues in a circular array

An array of `n` places and two indices: values go in at `head` and come out at
`tail`, and both move on modulo `n`. Equal indices mean empty, so one place stays
free: a queue whose `head` is just behind its `tail` is full.

`queued` is the content, the oldest value first. The writer owns `head`, the
reader `tail`; `queued_push` and `queued_pop` are what the two do to the content,
each with the other's index left as it is.
-/

namespace PepinOS

variable {α : Type} {n head tail : Nat}

/-- The places from `tail` up to `head`, around the end of the array. -/
def queued (n : Nat) (buf : Nat → α) (head tail : Nat) : List α :=
  (List.range ((head + n - tail) % n)).map fun i => buf ((tail + i) % n)

/-- One turn at most: the remainder is the index or the index less the size. -/
theorem mod_once {i : Nat} (h : i < 2 * n) :
    (i < n ∧ i % n = i) ∨ (n ≤ i ∧ i % n = i - n) := by
  rcases Nat.lt_or_ge i n with hlt | hge
  · exact .inl ⟨hlt, Nat.mod_eq_of_lt hlt⟩
  · refine .inr ⟨hge, ?_⟩
    rw [Nat.mod_eq_sub_mod hge, Nat.mod_eq_of_lt (by omega)]

@[simp] theorem queued_empty (buf : Nat → α) (i : Nat) : queued n buf i i = [] := by
  unfold queued
  rw [Nat.add_sub_cancel_left, Nat.mod_self]
  rfl

theorem queued_length (buf : Nat → α) : (queued n buf head tail).length = (head + n - tail) % n := by
  unfold queued
  rw [List.length_map, List.length_range]

/-- Equal indices are the empty queue, and no others. -/
theorem queued_nil_iff (buf : Nat → α) (hh : head < n) (ht : tail < n) :
    queued n buf head tail = [] ↔ head = tail := by
  have hlen := mod_once (n := n) (i := head + n - tail) (by omega)
  rw [← List.length_eq_zero_iff, queued_length]
  omega

/-- The next place is free as long as fewer than `n - 1` values wait. -/
theorem queued_room_iff (buf : Nat → α) (hh : head < n) (ht : tail < n) :
    (head + 1) % n ≠ tail ↔ (queued n buf head tail).length < n - 1 := by
  have hnext := mod_once (n := n) (i := head + 1) (by omega)
  have hlen := mod_once (n := n) (i := head + n - tail) (by omega)
  rw [queued_length]
  omega

/-- Writing at `head` and moving it on appends, if the queue is not full. -/
theorem queued_push (buf : Nat → α) (hh : head < n) (ht : tail < n)
    (hroom : (head + 1) % n ≠ tail) (c : α) :
    queued n (Function.update buf head c) ((head + 1) % n) tail = queued n buf head tail ++ [c] := by
  have hnext := mod_once (n := n) (i := head + 1) (by omega)
  have hlen := mod_once (n := n) (i := head + n - tail) (by omega)
  have hlt : (head + 1) % n < n := Nat.mod_lt _ (by omega)
  have hlen' := mod_once (n := n) (i := (head + 1) % n + n - tail) (by omega)
  have hsucc : ((head + 1) % n + n - tail) % n = (head + n - tail) % n + 1 := by omega
  unfold queued
  rw [hsucc, List.range_succ, List.map_append]
  congr 1
  · -- the old places are not the one written
    apply List.map_congr_left
    intro i hi
    rw [List.mem_range] at hi
    have hplace := mod_once (n := n) (i := tail + i) (by omega)
    exact Function.update_of_ne (by omega) _ _
  · have hplace := mod_once (n := n) (i := tail + (head + n - tail) % n) (by omega)
    have hlast : (tail + (head + n - tail) % n) % n = head := by omega
    rw [List.map_singleton, hlast, Function.update_self]

/-- Moving `tail` on drops the oldest value, the one that lay there. -/
theorem queued_pop (buf : Nat → α) (hh : head < n) (ht : tail < n) (hne : head ≠ tail) :
    queued n buf head tail = buf tail :: queued n buf head ((tail + 1) % n) := by
  have hnext := mod_once (n := n) (i := tail + 1) (by omega)
  have hlen := mod_once (n := n) (i := head + n - tail) (by omega)
  have hlt : (tail + 1) % n < n := Nat.mod_lt _ (by omega)
  have hlen' := mod_once (n := n) (i := head + n - (tail + 1) % n) (by omega)
  have hsucc : (head + n - tail) % n = (head + n - (tail + 1) % n) % n + 1 := by omega
  unfold queued
  rw [hsucc, List.range_succ_eq_map, List.map_cons, List.map_map]
  congr 1
  · rw [Nat.add_zero, Nat.mod_eq_of_lt ht]
  · apply List.map_congr_left
    intro i hi
    rw [List.mem_range] at hi
    have hplace := mod_once (n := n) (i := tail + (i + 1)) (by omega)
    have hplace' := mod_once (n := n) (i := (tail + 1) % n + i) (by omega)
    show buf ((tail + (i + 1)) % n) = buf (((tail + 1) % n + i) % n)
    congr 1
    omega

end PepinOS
