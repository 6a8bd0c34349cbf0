import Mathlib.Data.Set.Insert
import Mathlib.Logic.Function.Basic

/-!
# Caches of a changing map

A cache holds values of a partial map; it may lose any of them at any time, and it never
holds that a key has no value. While the map changes under it, the cache may be wrong at
the keys that have changed and were not taken out since: `CachedBut D c f` says that it is
right at all keys outside `D`.

A lookup takes the value from the cache, and from the map when the cache has none
(`through`). Outside `D` that is the map's own value, whatever was filled and lost
(`CachedBut.through_eq`). Two rules tell changes apart. A key whose value changes has to be
taken out (`CachedBut.change`, `CachedBut.invalidate`); a key that had no value needs
nothing (`CachedBut.grow`).
-/

namespace PepinOS

variable {α β : Type} {D : Set α} {c c' f f' : α → Option β}

/-- What the cache `c` holds outside `D` is what the map `f` says. -/
def CachedBut (D : Set α) (c f : α → Option β) : Prop :=
  ∀ a b, a ∉ D → c a = some b → f a = some b

/-- `c` with some of its entries lost. -/
def Evicted (c c' : α → Option β) : Prop := ∀ a b, c' a = some b → c a = some b

/-- A lookup: the cache first. -/
def through (c f : α → Option β) (a : α) : Option β := (c a).or (f a)

theorem CachedBut.empty (D : Set α) (f : α → Option β) : CachedBut D (fun _ => none) f := by
  intro a b _ h
  cases h

theorem CachedBut.evict (h : CachedBut D c f) (he : Evicted c c') : CachedBut D c' f :=
  fun a b ha hb => h a b ha (he a b hb)

/-- Outside `D` the cache makes no difference. -/
theorem CachedBut.through_eq (h : CachedBut D c f) {a : α} (ha : a ∉ D) : through c f a = f a := by
  unfold through
  cases hc : c a with
  | none => rw [Option.none_or]
  | some b => rw [Option.some_or, h a b ha hc]

/-- The map changes at keys of `D` only. -/
theorem CachedBut.change (h : CachedBut ∅ c f) (hf : ∀ a, a ∉ D → f' a = f a) :
    CachedBut D c f' := by
  intro a b ha hb
  rw [hf a ha]
  exact h a b (Set.notMem_empty a) hb

/-- The map gets new keys and keeps the values it has. -/
theorem CachedBut.grow (h : CachedBut D c f) (hf : ∀ a b, f a = some b → f' a = some b) :
    CachedBut D c f' :=
  fun a b ha hb => hf a b (h a b ha hb)

variable [DecidableEq α]

/-- The value of a key is taken into the cache. -/
theorem CachedBut.fill (h : CachedBut D c f) {a : α} (b : β) (hb : f a = some b) :
    CachedBut D (Function.update c a (some b)) f := by
  intro a' b' ha' hc
  by_cases haa : a' = a
  · rw [haa, Function.update_self] at hc
    rw [haa, hb, hc]
  · rw [Function.update_of_ne haa] at hc
    exact h a' b' ha' hc

/-- The only key in doubt is taken out. -/
theorem CachedBut.invalidate {a : α} (h : CachedBut {a} c f) :
    CachedBut ∅ (Function.update c a none) f := by
  intro a' b' _ hc
  by_cases haa : a' = a
  · rw [haa, Function.update_self] at hc
    cases hc
  · rw [Function.update_of_ne haa] at hc
    exact h a' b' haa hc

end PepinOS
