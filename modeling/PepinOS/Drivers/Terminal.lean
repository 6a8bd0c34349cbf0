import PepinOS.Drivers.Screen

/-!
# The screen as a window

`Terminal` has no bottom edge: a line that would leave the screen is one row further
down, and nothing moves. The screen is a window of 25 rows on it that follows the cursor.

`Shows off` is the window at row `off`, also in the moment between `placed` and
`settled`, when the cursor may be one row below it; `settled` moves the window there.
-/

namespace PepinOS

/-- A terminal without a bottom edge: characters with their attributes, by row and column. -/
structure Terminal where
  x : Nat
  y : Nat
  cell : Nat → Nat → U8 × U8

/-- `putcar` of anything but a tab. -/
def Terminal.put (t : Terminal) (attr c : U8) : Terminal :=
  if c = 10#8 then { t with x := 0, y := t.y + 1 }
  else if c = 13#8 then { t with x := 0 }
  else
    let cell := fun r k => if r = t.y ∧ k = t.x then (c, attr) else t.cell r k
    if t.x + 1 > 79 then { x := 0, y := t.y + 1, cell := cell }
    else { x := t.x + 1, y := t.y, cell := cell }

/-- Calls of `putcar`, each with the attribute it finds in `kattr`. -/
def Terminal.puts (t : Terminal) (calls : List (U8 × U8)) : Terminal :=
  calls.foldl (fun t p => t.put p.1 p.2) t

/-- The same on the screen. -/
def Screen.puts (s : Screen) (calls : List (U8 × U8)) : Screen :=
  calls.foldl (fun s p => putcar (setAttr p.1 s) p.2) s

/-- `print` is its calls of `putcar`, all in one attribute. -/
theorem print_puts : ∀ (text : List U8) (s : Screen),
    print text s = s.puts (text.map fun c => (s.kattr, c)) := by
  intro text
  induction text with
  | nil => intro s; rfl
  | cons c text ih =>
    intro s
    have hset : setAttr s.kattr s = s := rfl
    show print text (putcar s c) = (putcar (setAttr s.kattr s) c).puts _
    rw [ih, hset, putcar_kattr]

/-- The cell in row `r` and column `k` of the screen. -/
def Screen.cell (s : Screen) (r k : Nat) : U8 × U8 :=
  (s.video (160 * r + 2 * k), s.video (160 * r + 2 * k + 1))

/-- A cell nothing was written to: what `scrollup` clears to. -/
def blankCell : U8 × U8 := (0#8, 0x07#8)

/-- The terminal over a screen: its rows, then blank ones. -/
def Terminal.over (s : Screen) : Terminal where
  x := 0
  y := 0
  cell := fun r k => if r < 25 then s.cell r k else blankCell

/-- The screen shows the rows of `t` from `off` on. -/
structure Shows (off : Nat) (s : Screen) (t : Terminal) : Prop where
  x_lt : t.x < 80
  off_le : off ≤ t.y
  tight : off = 0 ∨ off + 24 ≤ t.y
  kX : s.kX.toInt = t.x
  kY : s.kY.toInt = t.y - off
  cells : ∀ r k, r < 25 → k < 80 → s.cell r k = t.cell (off + r) k
  blank : ∀ r k, off + 25 ≤ r → t.cell r k = blankCell

/-! ## Cells of the screen -/

/-- One row up, and the last row blank. -/
theorem scrollup_cell (s : Screen) {r k : Nat} (hr : r < 25) (hk : k < 80) :
    (scrollup 1 s).cell r k = if r < 24 then s.cell (r + 1) k else blankCell := by
  have hsize : sizeScreen = 4000 := rfl
  unfold Screen.cell blankCell
  rw [scrollup_video, scrollup_video, if_pos (by omega), if_pos (by omega)]
  by_cases hlast : r < 24
  · have hup : ∀ j : Int, 0 ≤ j → j < 2 → scrolled 1 s.video (160 * r + 2 * k + j) =
        s.video (160 * (r + 1 : Nat) + 2 * k + j) := by
      intro j hj0 hj2
      unfold scrolled
      rw [if_pos (by omega)]
      congr 1
      omega
    have hlow := hup 0 (by omega) (by omega)
    rw [Int.add_zero, Int.add_zero] at hlow
    rw [if_pos hlast, hlow, hup 1 (by omega) (by omega)]
  · have hcleared : ∀ x : Int, 3840 ≤ x →
        scrolled 1 s.video x = if x % 2 = 0 then 0#8 else 0x07#8 := by
      intro x hx
      unfold scrolled
      exact if_neg (by omega)
    rw [if_neg hlast, hcleared _ (by omega), hcleared _ (by omega), if_pos (by omega),
      if_neg (by omega)]

/-- Writing a cell changes no other. -/
theorem update_cell {s s' : Screen} {r0 k0 : Nat} {c a : U8} (hk0 : k0 < 80)
    (hv : s'.video = Function.update (Function.update s.video (160 * r0 + 2 * k0 : Int) c)
      (160 * r0 + 2 * k0 + 1 : Int) a) {r k : Nat} (hk : k < 80) :
    s'.cell r k = if r = r0 ∧ k = k0 then (c, a) else s.cell r k := by
  unfold Screen.cell
  rw [hv]
  by_cases hat : r = r0 ∧ k = k0
  · rw [if_pos hat, hat.1, hat.2, Function.update_self, Function.update_of_ne (by omega),
      Function.update_self]
  · rw [if_neg hat, Function.update_of_ne (by omega), Function.update_of_ne (by omega),
      Function.update_of_ne (by omega), Function.update_of_ne (by omega)]

/-! ## One call -/

section

variable {off : Nat} {s : Screen} {t : Terminal}

/-- The window follows the cursor. -/
theorem Shows.settled (h : Shows off s t) (hy : t.y ≤ off + 25) :
    Shows (t.y - 24) (settled s) t := by
  have hoff := h.off_le
  have hkY := h.kY
  unfold PepinOS.settled
  by_cases hscroll : s.kY.toInt > 24
  · rw [if_pos hscroll, show (s.kY.toInt - 24).toNat = 1 by omega]
    refine ⟨h.x_lt, by omega, Or.inr (by omega), h.kX, ?_, fun r k hr hk => ?_,
      fun r k hr => h.blank r k (by omega)⟩
    · rw [scrollup_kY (by omega)]
      omega
    · rw [scrollup_cell s hr hk]
      by_cases hlast : r < 24
      · rw [if_pos hlast, h.cells (r + 1) k (by omega) hk]
        congr 1
        omega
      · rw [if_neg hlast]
        exact (h.blank _ k (by omega)).symm
  · rw [if_neg hscroll]
    have htight := h.tight
    have hsame : t.y - 24 = off := by omega
    rw [hsame]
    exact h

/-- The cursor goes down a line, wherever in it. -/
theorem Shows.down (h : Shows off s t) (hy : t.y ≤ off + 24) {s' : Screen} {t' : Terminal}
    (hcell : ∀ r k, r < 25 → k < 80 → s'.cell r k = t'.cell (off + r) k)
    (hblank : ∀ r k, off + 25 ≤ r → t'.cell r k = blankCell)
    (hx : t'.x = 0) (hkX : s'.kX = 0#8) (hty : t'.y = t.y + 1) (hkY : s'.kY = s.kY + 1#8) :
    Shows off s' t' := by
  have hoff := h.off_le
  have htight := h.tight
  have hrow := h.kY
  refine ⟨by omega, by omega, by omega, by rw [hkX, hx]; rfl, ?_, hcell, hblank⟩
  rw [hkY, toInt_succ (by omega)]
  omega

/-- A character that is written. -/
theorem Shows.char (h : Shows off s t) (hy : t.y ≤ off + 24) {c : U8} (hn : c ≠ 10#8)
    (ht : c ≠ 9#8) (hr : c ≠ 13#8) :
    Shows off (placed s c) (t.put s.kattr c) ∧ (t.put s.kattr c).y ≤ off + 25 := by
  have hoff := h.off_le
  have htight := h.tight
  have hxlt := h.x_lt
  have hkX := h.kX
  have hkY := h.kY
  have hvideo := placed_char_video (s := s) hn ht hr
  have hnext := placed_char_next (s := s) hn ht hr (by omega)
  have haddr : 2 * s.kX.toInt + 160 * s.kY.toInt = 160 * (t.y - off : Nat) + 2 * t.x := by omega
  rw [haddr] at hvideo
  have hcell : ∀ r k, r < 25 → k < 80 → (placed s c).cell r k =
      if off + r = t.y ∧ k = t.x then (c, s.kattr) else t.cell (off + r) k := by
    intro r k hr' hk
    rw [update_cell hxlt hvideo hk, h.cells r k hr' hk]
    by_cases hat : off + r = t.y ∧ k = t.x
    · rw [if_pos hat, if_pos (by omega)]
    · rw [if_neg hat, if_neg (by omega)]
  have hblank : ∀ r k, off + 25 ≤ r →
      (if r = t.y ∧ k = t.x then (c, s.kattr) else t.cell r k) = blankCell := by
    intro r k hr'
    rw [if_neg (by omega)]
    exact h.blank r k hr'
  unfold Terminal.put
  rw [if_neg hn, if_neg hr]
  rcases hnext with ⟨hlast, hx0, hy1⟩ | ⟨hmore, hx1, hy0⟩
  · rw [if_pos (by omega)]
    exact ⟨h.down hy hcell hblank rfl hx0 rfl hy1, by simp only; omega⟩
  · rw [if_neg (by omega)]
    refine ⟨⟨by simp only; omega, hoff, htight, ?_, ?_, hcell, hblank⟩, by simp only; omega⟩
    · rw [hx1, hkX]
      rfl
    · rw [hy0, hkY]

/-- One call of `putcar`. -/
theorem Shows.put (h : Shows (t.y - 24) s t) {a c : U8} (ht : c ≠ 9#8) :
    Shows ((t.put a c).y - 24) (putcar (setAttr a s) c) (t.put a c) := by
  have h' : Shows (t.y - 24) (setAttr a s) t := ⟨h.x_lt, h.off_le, h.tight, h.kX, h.kY, h.cells,
    h.blank⟩
  rw [putcar_eq]
  by_cases hn : c = 10#8
  · have hplaced : Shows (t.y - 24) (placed (setAttr a s) c) (t.put a c) := by
      unfold placed Terminal.put
      rw [if_pos hn, if_pos hn]
      exact h'.down (by omega) h'.cells h'.blank rfl rfl rfl rfl
    refine hplaced.settled ?_
    unfold Terminal.put
    rw [if_pos hn]
    simp only
    omega
  · by_cases hr : c = 13#8
    · have hplaced : Shows (t.y - 24) (placed (setAttr a s) c) (t.put a c) := by
        unfold placed Terminal.put
        rw [if_neg hn, if_neg hn, if_neg ht, if_pos hr, if_pos hr]
        exact ⟨Nat.zero_lt_succ 79, h'.off_le, h'.tight, rfl, h'.kY, h'.cells, h'.blank⟩
      refine hplaced.settled ?_
      unfold Terminal.put
      rw [if_neg hn, if_pos hr]
      simp only
      omega
    · obtain ⟨hplaced, hy⟩ := h'.char (by omega) hn ht hr
      exact hplaced.settled hy

/-- A window follows the terminal through any calls without a tab. -/
theorem Shows.puts : ∀ (calls : List (U8 × U8)) {s : Screen} {t : Terminal},
    Shows (t.y - 24) s t → (∀ p ∈ calls, p.2 ≠ 9#8) →
      Shows ((t.puts calls).y - 24) (s.puts calls) (t.puts calls) := by
  intro calls
  induction calls with
  | nil => intro s t h _; exact h
  | cons p calls ih =>
    intro s t h hp
    exact ih (h.put (hp p (List.mem_cons_self ..))) fun q hq => hp q (List.mem_cons_of_mem p hq)

theorem shows_over {s : Screen} (hx : s.kX = 0#8) (hy : s.kY = 0#8) :
    Shows 0 s (.over s) := by
  refine ⟨Nat.zero_lt_succ 79, Nat.le_refl 0, Or.inl rfl, by rw [hx]; rfl, by rw [hy]; rfl,
    fun r k hr _ => ?_, fun r k hr => ?_⟩
  · show _ = if 0 + r < 25 then s.cell (0 + r) k else blankCell
    rw [Nat.zero_add, if_pos hr]
  · exact if_neg (by omega)

end

/-- **The screen is a window on an unbounded terminal.** From cursor (0,0), over any video
memory, after any calls of `putcar` without a tab and with any attributes, the cursor is in
the terminal's column and in its row or the last one, and the cells are the 25 rows of the
terminal that end with the cursor's, or the first 25. -/
theorem putcar_window (s : Screen) (hx : s.kX = 0#8) (hy : s.kY = 0#8) (calls : List (U8 × U8))
    (h : ∀ p ∈ calls, p.2 ≠ 9#8) :
    (s.puts calls).kX.toInt = ((Terminal.over s).puts calls).x ∧
    (s.puts calls).kY.toInt = min ((Terminal.over s).puts calls).y 24 ∧
    ∀ r k, r < 25 → k < 80 → (s.puts calls).cell r k =
      ((Terminal.over s).puts calls).cell (((Terminal.over s).puts calls).y - 24 + r) k := by
  have hstart : Shows ((Terminal.over s).y - 24) s (.over s) := shows_over hx hy
  have hshow := Shows.puts calls hstart h
  have hkY := hshow.kY
  exact ⟨hshow.kX, by omega, hshow.cells⟩

/-- Thirty lines of one letter each. -/
theorem putcar_window_thirty :
    let s : Screen := ⟨0#8, 0#8, 0x07#8, fun _ => 0x20#8⟩
    let calls := (List.replicate 30 [(0x0F#8, 0x61#8), (0x0F#8, 10#8)]).flatten
    (s.puts calls).kY.toInt = min ((Terminal.over s).puts calls).y 24 := by
  intro s calls
  refine (putcar_window s rfl rfl calls ?_).2.1
  intro p hp
  obtain ⟨l, hl, hpl⟩ := List.mem_flatten.mp hp
  rw [List.eq_of_mem_replicate hl] at hpl
  rcases List.mem_pair.mp hpl with hp1 | hp2
  · rw [hp1]
    decide
  · rw [hp2]
    decide

end PepinOS
