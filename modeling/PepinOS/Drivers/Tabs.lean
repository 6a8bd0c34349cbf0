import PepinOS.Drivers.Terminal

/-!
# Tabs at the edge

Of the four branches of `putcar` only the last wraps the column. A tab from column 72 on
leaves the cursor at column 80, outside the screen; the next character is written to the
row below, past the video memory if there is none, and more tabs push the column, a signed
`char`, past 127.

`TabsEarly` counts the columns of a text, without the screen: each tab comes before column
72. It is exactly what keeps the cursor and all stores on the screen (`staysOn_iff`).
-/

namespace PepinOS

/-- The cursor is on the screen. -/
structure OnScreen (s : Screen) : Prop where
  kX_ge : 0 ≤ s.kX.toInt
  kX_le : s.kX.toInt ≤ 79
  kY_ge : 0 ≤ s.kY.toInt
  kY_le : s.kY.toInt ≤ 24

/-- The bytes `putcar` stores to, counted from `RAMSCREEN`: the cell of the character, and
the whole screen when it scrolls. -/
def putcarStores (s : Screen) (c : U8) : List Int :=
  (if c = 10#8 ∨ c = 9#8 ∨ c = 13#8 then []
    else [2 * s.kX.toInt + 160 * s.kY.toInt, 2 * s.kX.toInt + 160 * s.kY.toInt + 1]) ++
  if (placed s c).kY.toInt > 24 then (List.range sizeScreen).map Int.ofNat else []

/-- `putcar` stores nowhere else. -/
theorem putcar_video_other {s : Screen} {c : U8} {x : Int} (hx : x ∉ putcarStores s c) :
    (putcar s c).video x = s.video x := by
  unfold putcarStores at hx
  rw [List.mem_append, not_or] at hx
  obtain ⟨hchar, hscroll⟩ := hx
  have hplaced : (placed s c).video x = s.video x := by
    by_cases hn : c = 10#8
    · unfold placed
      rw [if_pos hn]
    · by_cases ht : c = 9#8
      · unfold placed
        rw [if_neg hn, if_pos ht]
      · by_cases hr : c = 13#8
        · unfold placed
          rw [if_neg hn, if_neg ht, if_pos hr]
        · rw [if_neg (by rw [not_or, not_or]; exact ⟨hn, ht, hr⟩), List.mem_pair, not_or] at hchar
          rw [placed_char_video hn ht hr, Function.update_of_ne hchar.2,
            Function.update_of_ne hchar.1]
  rw [putcar_eq]
  unfold settled
  by_cases hy : (placed s c).kY.toInt > 24
  · rw [if_pos hy] at hscroll
    rw [if_pos hy, scrollup_video, if_neg ?_]
    · exact hplaced
    · intro hin
      refine hscroll (List.mem_map.mpr ⟨x.toNat, List.mem_range.mpr (by omega), ?_⟩)
      exact Int.toNat_of_nonneg hin.1
  · rw [if_neg hy]
    exact hplaced

/-- After every call the cursor is on the screen, and every byte stored to was. -/
def StaysOn : Screen → List (U8 × U8) → Prop
  | _, [] => True
  | s, p :: calls =>
    (OnScreen (putcar (setAttr p.1 s) p.2) ∧
      ∀ x ∈ putcarStores (setAttr p.1 s) p.2, 0 ≤ x ∧ x < sizeScreen) ∧
    StaysOn (putcar (setAttr p.1 s) p.2) calls

/-- The column after one more byte. -/
def nextColumn (x : Nat) (c : U8) : Nat :=
  if c = 10#8 ∨ c = 13#8 then 0
  else if c = 9#8 then x + 8 - x % 8
  else if x = 79 then 0
  else x + 1

/-- From column `x` on, every tab comes before column 72. -/
def TabsEarly : Nat → List U8 → Prop
  | _, [] => True
  | x, c :: text => (c = 9#8 → x < 72) ∧ TabsEarly (nextColumn x c) text

/-! ## One call -/

section

variable {s : Screen} {c : U8}

/-- The cursor before `scrollup` has its turn. -/
theorem OnScreen.placed (h : OnScreen s) (hc : c = 9#8 → s.kX.toInt < 72) :
    0 ≤ (placed s c).kX.toInt ∧ (placed s c).kX.toInt ≤ 79 ∧ 0 ≤ (placed s c).kY.toInt ∧
      (placed s c).kY.toInt ≤ 25 ∧
      (placed s c).kX.toInt = nextColumn s.kX.toInt.toNat c := by
  obtain ⟨hx0, hx79, hy0, hy24⟩ := h
  have hdown : (s.kY + 1#8).toInt = s.kY.toInt + 1 := toInt_succ (by omega)
  have hzero : (0#8 : U8).toInt = 0 := rfl
  unfold nextColumn
  by_cases hn : c = 10#8
  · unfold PepinOS.placed
    rw [if_pos hn, if_pos (Or.inl hn)]
    simp only [hdown, hzero]
    omega
  · by_cases ht : c = 9#8
    · have hcol := hc ht
      have hmod : s.kX.toInt.tmod 8 = s.kX.toInt % 8 := Int.tmod_eq_emod_of_nonneg hx0
      have htab : (BitVec.ofInt 8 (s.kX.toInt + 8 - s.kX.toInt.tmod 8)).toInt =
          s.kX.toInt + 8 - s.kX.toInt.tmod 8 := by
        rw [BitVec.toInt_ofInt]
        exact Int.bmod_eq_of_le (by omega) (by omega)
      unfold PepinOS.placed
      rw [if_neg hn, if_pos ht, if_neg (by rw [ht]; decide), if_pos ht]
      simp only [htab]
      omega
    · by_cases hr : c = 13#8
      · unfold PepinOS.placed
        rw [if_neg hn, if_neg ht, if_pos hr, if_pos (Or.inr hr)]
        simp only [hzero]
        omega
      · have hnext := placed_char_next hn ht hr hx79
        rw [if_neg (by rw [not_or]; exact ⟨hn, hr⟩), if_neg ht]
        rcases hnext with ⟨hlast, hkX, hkY⟩ | ⟨hmore, hkX, hkY⟩
        · rw [hkX, hkY, hdown, hzero, if_pos (by omega)]
          omega
        · rw [hkX, hkY, if_neg (by omega)]
          omega

/-- With the column early enough for a tab, everything stays on the screen. -/
theorem OnScreen.putcar (h : OnScreen s) (hc : c = 9#8 → s.kX.toInt < 72) :
    OnScreen (putcar s c) ∧ (∀ x ∈ putcarStores s c, 0 ≤ x ∧ x < sizeScreen) ∧
      (PepinOS.putcar s c).kX.toInt = nextColumn s.kX.toInt.toNat c := by
  obtain ⟨hx0, hx79, hy0, hy25, hcol⟩ := h.placed hc
  have hsize : sizeScreen = 4000 := rfl
  rw [putcar_eq]
  refine ⟨?_, fun x hx => ?_, ?_⟩
  · unfold settled
    by_cases hy : (PepinOS.placed s c).kY.toInt > 24
    · have hrow := scrollup_kY (n := ((PepinOS.placed s c).kY.toInt - 24).toNat)
        (s := PepinOS.placed s c) (by omega)
      rw [if_pos hy]
      exact ⟨hx0, hx79, by omega, by omega⟩
    · rw [if_neg hy]
      exact ⟨hx0, hx79, hy0, by omega⟩
  · unfold putcarStores at hx
    rcases List.mem_append.mp hx with hx | hx
    · have hkX := h.kX_ge
      have hkX' := h.kX_le
      have hkY := h.kY_ge
      have hkY' := h.kY_le
      split at hx
      next => cases hx
      next => rcases List.mem_pair.mp hx with hx | hx <;> omega
    · split at hx
      next =>
        obtain ⟨n, hn, rfl⟩ := List.mem_map.mp hx
        rw [List.mem_range] at hn
        exact ⟨Int.natCast_nonneg n, Int.ofNat_lt.mpr hn⟩
      next => cases hx
  · unfold settled
    split
    next => exact hcol
    next => exact hcol

/-- A tab from column 72 on leaves the screen at once. -/
theorem OnScreen.tab_leaves (h : OnScreen s) (hx : 72 ≤ s.kX.toInt) :
    ¬OnScreen (PepinOS.putcar s 9#8) := by
  intro hon
  have hle := h.kX_le
  have hy := h.kY_le
  have hmod : s.kX.toInt.tmod 8 = s.kX.toInt % 8 := Int.tmod_eq_emod_of_nonneg h.kX_ge
  have htab : (BitVec.ofInt 8 (s.kX.toInt + 8 - s.kX.toInt.tmod 8)).toInt = 80 := by
    rw [BitVec.toInt_ofInt, show s.kX.toInt + 8 - s.kX.toInt.tmod 8 = 80 by omega]
    rfl
  have hkX : (PepinOS.putcar s 9#8).kX.toInt = 80 := by
    rw [putcar_eq]
    unfold settled
    split
    next => exact htab
    next => exact htab
  have := hon.kX_le
  omega

end

/-- **When the cursor and the stores stay on the screen.** From any cursor on the screen,
through any calls of `putcar`, with any bytes and attributes: exactly when no tab comes in
column 72 or behind. -/
theorem staysOn_iff (s : Screen) (hs : OnScreen s) (calls : List (U8 × U8)) :
    StaysOn s calls ↔ TabsEarly s.kX.toInt.toNat (calls.map Prod.snd) := by
  induction calls generalizing s with
  | nil => exact Iff.rfl
  | cons p calls ih =>
    have hs' : OnScreen (setAttr p.1 s) := ⟨hs.kX_ge, hs.kX_le, hs.kY_ge, hs.kY_le⟩
    constructor
    · intro hstay
      have htab : p.2 = 9#8 → s.kX.toInt < 72 := by
        intro hp
        by_contra hlate
        have hon := hstay.1.1
        rw [hp] at hon
        exact hs'.tab_leaves (Int.not_lt.mp hlate) hon
      obtain ⟨hon, _, hcol⟩ := hs'.putcar htab
      have hrest := (ih _ hon).mp hstay.2
      rw [hcol] at hrest
      exact ⟨fun hp => by have := htab hp; omega, hrest⟩
    · intro hearly
      have hx := hs.kX_ge
      have htab : p.2 = 9#8 → s.kX.toInt < 72 := fun hp => by
        have := hearly.1 hp
        omega
      obtain ⟨hon, hstores, hcol⟩ := hs'.putcar htab
      refine ⟨⟨hon, hstores⟩, (ih _ hon).mpr ?_⟩
      rw [hcol]
      exact hearly.2

/-- Then it is on the screen at the end. -/
theorem StaysOn.last : ∀ {calls : List (U8 × U8)} {s : Screen}, StaysOn s calls → OnScreen s →
    OnScreen (s.puts calls) := by
  intro calls
  induction calls with
  | nil => intro s _ hs; exact hs
  | cons p calls ih => intro s h _; exact ih h.2 h.1.1

/-- The screen as the kernel starts. -/
def emptyScreen : Screen := ⟨0#8, 0#8, 0x07#8, fun _ => 0#8⟩

theorem emptyScreen_on : OnScreen emptyScreen := by
  refine ⟨?_, ?_, ?_, ?_⟩ <;> decide

/-- A text from the first row, in the default attribute. -/
def plainCalls (text : List U8) : List (U8 × U8) := text.map fun c => (0x0F#8, c)

/-- 24 newlines and ten tabs: the next character goes to 0xB8FA0. -/
theorem tabs_leave_screen :
    let down := plainCalls (List.replicate 24 10#8 ++ List.replicate 10 9#8)
    (emptyScreen.puts down).kX.toInt = 80 ∧ (emptyScreen.puts down).kY.toInt = 24 ∧
    (sizeScreen : Int) ∈ putcarStores (emptyScreen.puts down) 0x41#8 ∧
    ¬StaysOn emptyScreen down := by
  intro down
  have hx : (emptyScreen.puts down).kX.toInt = 80 := by decide +kernel
  have hy : (emptyScreen.puts down).kY.toInt = 24 := by decide +kernel
  refine ⟨hx, hy, ?_, fun hstay => ?_⟩
  · unfold putcarStores
    rw [hx, hy]
    exact List.mem_append_left _ (List.mem_cons_self ..)
  · have hle := (hstay.last emptyScreen_on).kX_le
    omega

theorem staysOn_early : StaysOn emptyScreen (plainCalls [9#8, 0x41#8, 10#8, 9#8]) := by
  refine (staysOn_iff emptyScreen emptyScreen_on _).mpr ?_
  exact ⟨by decide, by decide, by decide, by decide, trivial⟩

end PepinOS
