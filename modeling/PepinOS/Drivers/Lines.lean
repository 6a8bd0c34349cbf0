import PepinOS.Drivers.Tabs

/-!
# Lines of text

What a text of whole lines comes to on the screen, printed from a row of its own. On the
terminal without a bottom edge each line has its row (`puts_lines`); on the screen the same
lines are there, and what was above them has gone up as far as they needed (`print_lines`).

Nothing is cleared: right of a line is what was there before it.
-/

namespace PepinOS

/-! ## Lines on the terminal -/

/-- Nothing that moves the cursor but by a column. -/
def Visible (text : List U8) : Prop := ∀ c ∈ text, c ≠ 10#8 ∧ c ≠ 13#8 ∧ c ≠ 9#8

/-- From the blank on. -/
theorem visible_of_le {text : List U8} (h : (text.all fun c => Nat.ble 32 c.toNat) = true) :
    Visible text := by
  intro c hc
  have hle : 32 ≤ c.toNat := Nat.le_of_ble_eq_true (List.all_eq_true.mp h c hc)
  refine ⟨?_, ?_, ?_⟩ <;> rintro rfl <;> exact absurd hle (by decide)

theorem Visible.append {a b : List U8} (ha : Visible a) (hb : Visible b) : Visible (a ++ b) :=
  fun c hc => (List.mem_append.mp hc).elim (ha c) (hb c)

/-- A line that fits in a row and leaves the cursor to its newline. -/
structure Plain (line : List U8) : Prop where
  short : line.length < 80
  char : Visible line

/-- Lines, each with its newline, after a newline of their own. -/
def lineBytes (lines : List (List U8)) : List U8 := 10#8 :: lines.flatMap (· ++ [10#8])

/-- Cells with lines written over them from row `y` on. -/
def written (lines : List (List U8)) (attr : U8) (y : Nat) (cell : Nat → Nat → U8 × U8)
    (r k : Nat) : U8 × U8 :=
  if y ≤ r then (((lines.getD (r - y) [])[k]?).map fun c => (c, attr)).getD (cell r k)
  else cell r k

theorem puts_line {attr : U8} : ∀ {text : List U8} {t : Terminal}, t.x + text.length < 80 →
    Visible text → t.puts (text.map fun c => (attr, c)) = ⟨t.x + text.length, t.y, fun r k =>
      if r = t.y ∧ t.x ≤ k then ((text[k - t.x]?).map fun c => (c, attr)).getD (t.cell r k)
      else t.cell r k⟩ := by
  intro text
  induction text with
  | nil =>
    intro t _ _
    show t = _
    simp
  | cons c text ih =>
    intro t hlen hchar
    rw [List.length_cons] at hlen
    have hc := hchar c (List.mem_cons_self ..)
    have hput : t.put attr c = ⟨t.x + 1, t.y, fun r k =>
        if r = t.y ∧ k = t.x then (c, attr) else t.cell r k⟩ := by
      unfold Terminal.put
      rw [if_neg hc.1, if_neg hc.2.1, if_neg (by omega)]
    show (t.put attr c).puts _ = _
    rw [hput, ih (by simp only; omega) fun d hd => hchar d (List.mem_cons_of_mem c hd)]
    congr 1
    · simp only [List.length_cons]
      omega
    · funext r k
      simp only
      by_cases hr : r = t.y ∧ t.x ≤ k
      · rw [if_pos hr]
        by_cases hk : k = t.x
        · rw [if_neg (by omega), if_pos ⟨hr.1, hk⟩, hk, Nat.sub_self]
          rfl
        · rw [if_pos ⟨hr.1, by omega⟩, if_neg (by omega),
            show k - t.x = (k - (t.x + 1)) + 1 by omega, List.getElem?_cons_succ]
      · rw [if_neg hr, if_neg (by omega), if_neg (by omega)]

/-- Lines of text from the left edge on, each with its newline. -/
theorem puts_lines {attr : U8} : ∀ {lines : List (List U8)} {t : Terminal}, t.x = 0 →
    (∀ line ∈ lines, Plain line) →
    t.puts ((lines.flatMap (· ++ [10#8])).map fun c => (attr, c)) =
      ⟨0, t.y + lines.length, written lines attr t.y t.cell⟩ := by
  intro lines
  induction lines with
  | nil =>
    intro t hx _
    have hcell : written [] attr t.y t.cell = t.cell := by
      funext r k
      unfold written
      simp
    rw [hcell, ← hx]
    rfl
  | cons line lines ih =>
    intro t hx hplain
    obtain ⟨hlen, hchar⟩ := hplain line (List.mem_cons_self ..)
    have hline := @puts_line attr line t (by omega) hchar
    rw [List.flatMap_cons, List.append_assoc, List.map_append]
    unfold Terminal.puts at hline ih ⊢
    rw [List.foldl_append, hline, List.map_append, List.foldl_append]
    refine (ih (t := ⟨0, t.y + 1, _⟩) rfl fun l hl => hplain l (List.mem_cons_of_mem _ hl)).trans ?_
    congr 1
    · rw [List.length_cons]
      simp only
      omega
    · funext r k
      unfold written
      simp only [hx, Nat.zero_le, and_true, Nat.sub_zero]
      by_cases hr : r = t.y
      · rw [if_neg (by omega), if_pos hr, if_pos (by omega), hr, Nat.sub_self]
        rfl
      · by_cases hlt : t.y ≤ r
        · rw [if_pos (by omega), if_neg hr, if_pos hlt,
            show r - t.y = (r - (t.y + 1)) + 1 by omega, List.getD_cons_succ]
        · rw [if_neg (by omega), if_neg hr, if_neg hlt]

/-! ## Lines on the screen -/

/-- The terminal under a screen, the cursor where it is. -/
def Terminal.under (s : Screen) : Terminal where
  x := s.kX.toInt.toNat
  y := s.kY.toInt.toNat
  cell := fun r k => if r < 25 then s.cell r k else blankCell

theorem shows_under {s : Screen} (h : OnScreen s) : Shows 0 s (.under s) := by
  obtain ⟨hx0, hx79, hy0, _⟩ := h
  refine ⟨?_, Nat.zero_le _, .inl rfl, (Int.toNat_of_nonneg hx0).symm, ?_, fun r k hr _ => ?_,
    fun r k hr => if_neg (by omega)⟩
  · show s.kX.toInt.toNat < 80
    omega
  · show s.kY.toInt = (s.kY.toInt.toNat : Int) - (0 : Nat)
    omega
  · show _ = if 0 + r < 25 then s.cell (0 + r) k else blankCell
    rw [Nat.zero_add, if_pos hr]

theorem written_shift {lines : List (List U8)} {attr : U8} {y up : Nat}
    {cell : Nat → Nat → U8 × U8} (r k : Nat) :
    written lines attr (y + up) cell (r + up) k =
      written lines attr y (fun r k => cell (r + up) k) r k := by
  unfold written
  rw [Nat.add_sub_add_right]
  exact if_congr (by omega) rfl rfl

/-- Where the lines are, and that the rest is what was there, moved up by the rows the lines
did not have. -/
theorem print_lines {s s' : Screen} (h : OnScreen s) {attr : U8} {lines : List (List U8)}
    (hplain : ∀ line ∈ lines, Plain line) (hroom : lines.length ≤ 24)
    (hs' : print (lineBytes lines) (setAttr attr s) = s') :
    ∃ up r, up = s.kY.toInt.toNat + 1 + lines.length - 24 ∧ r + up = s.kY.toInt.toNat + 1 ∧
      s'.kX = 0#8 ∧ s'.kY.toInt = r + lines.length ∧ r + lines.length ≤ 24 ∧
      ∀ i k, i < 25 → k < 80 → s'.cell i k = written lines attr r
        (fun i k => if i + up < 25 then s.cell (i + up) k else blankCell) i k := by
  have hs : OnScreen (setAttr attr s) := ⟨h.kX_ge, h.kX_le, h.kY_ge, h.kY_le⟩
  obtain ⟨_, _, hy0, hy24⟩ := h
  have hzero : ((Terminal.under (setAttr attr s)).y - 24) = 0 := by
    show s.kY.toInt.toNat - 24 = 0
    omega
  have hnotab : ∀ p ∈ (lineBytes lines).map fun c => (attr, c), p.2 ≠ 9#8 := by
    have hnewline : (10#8 : U8) ≠ 9#8 := by decide
    intro p hp
    obtain ⟨c, hc, rfl⟩ := List.mem_map.mp hp
    rcases List.mem_cons.mp hc with rfl | hc
    · exact hnewline
    · obtain ⟨line, hline, hc⟩ := List.mem_flatMap.mp hc
      rcases List.mem_append.mp hc with hc | hc
      · exact ((hplain line hline).char c hc).2.2
      · rw [List.mem_singleton.mp hc]
        exact hnewline
  have hshow := Shows.puts _ (hzero.symm ▸ shows_under hs) hnotab
  have hterm : (Terminal.under (setAttr attr s)).puts
      ((lineBytes lines).map fun c => (attr, c)) =
      ⟨0, s.kY.toInt.toNat + 1 + lines.length, written lines attr (s.kY.toInt.toNat + 1)
        (Terminal.under s).cell⟩ :=
    puts_lines (t := ⟨0, s.kY.toInt.toNat + 1, (Terminal.under s).cell⟩) rfl hplain
  have hprint : s' = (setAttr attr s).puts ((lineBytes lines).map fun c => (attr, c)) :=
    hs'.symm.trans (print_puts _ _)
  rw [hterm, ← hprint] at hshow
  generalize hy : s.kY.toInt.toNat = y at *
  obtain ⟨up, r, hup, hr⟩ : ∃ up r, y + 1 + lines.length - 24 = up ∧ r + up = y + 1 :=
    ⟨_, y + 1 - (y + 1 + lines.length - 24), rfl, by omega⟩
  simp only [hup] at hshow
  have hkY := hshow.kY
  simp only at hkY
  refine ⟨up, r, hup.symm, hr, BitVec.eq_of_toInt_eq hshow.kX, by omega, by omega, fun i k hi hk => ?_⟩
  have hcell := hshow.cells i k hi hk
  rw [← hr, Nat.add_comm up i] at hcell
  exact hcell.trans (written_shift i k)

section Cells

variable {r : Nat} {attr : U8} {cell : Nat → Nat → U8 × U8}

/-- A character of line `i`. -/
theorem written_char {lines : List (List U8)} {text : List U8} {i k : Nat} {c : U8}
    (hline : lines[i]? = some text) (hc : text[k]? = some c) :
    (written lines attr r cell (r + i) k).1 = c := by
  unfold written
  rw [if_pos (Nat.le_add_right ..), Nat.add_sub_cancel_left, List.getD_eq_getElem?_getD, hline,
    Option.getD_some, hc]
  rfl

/-- Right of line `i` is what was there. -/
theorem written_after {lines : List (List U8)} {line : List U8} {i k : Nat}
    (hline : lines[i]? = some line) (hk : line.length ≤ k) :
    written lines attr r cell (r + i) k = cell (r + i) k := by
  unfold written
  rw [if_pos (Nat.le_add_right ..), Nat.add_sub_cancel_left, List.getD_eq_getElem?_getD, hline,
    Option.getD_some, List.getElem?_eq_none hk]
  rfl

end Cells

end PepinOS
