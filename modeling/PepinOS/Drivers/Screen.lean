import PepinOS.Lib.Types
import PepinOS.Lib.Loop
import Mathlib.Logic.Function.Basic

/-!
# The text screen

`drivers/screen.c`. `kX`, `kY` and `kattr` are C `char`s, signed on this
target; the video memory is a device of its own, addressed by the distance from
`RAMSCREEN` (which a tab near the edge can make negative). The hardware cursor
is left out.
-/

namespace PepinOS

/-- The static variables of `screen.c`, and the video memory. -/
structure Screen where
  kX : U8
  kY : U8
  kattr : U8
  video : Int → U8

def sizeScreen : Nat := 0xFA0

/-- `scrollup(n)`: cell `i` of the screen, two bytes, takes the one `n` rows below. -/
def scrollup (n : Nat) (s : Screen) : Screen :=
  let video := forRange 0 (sizeScreen / 2) (fun i v =>
    if 2 * i + n * 160 < sizeScreen then
      let v := Function.update v (2 * i : Int) (v (2 * i + n * 160 : Int))
      Function.update v (2 * i + 1 : Int) (v (2 * i + n * 160 + 1 : Int))
    else
      Function.update (Function.update v (2 * i : Int) 0#8) (2 * i + 1 : Int) 0x07#8) s.video
  let kY := BitVec.ofInt 8 (s.kY.toInt - n)
  { s with video := video, kY := if kY.toInt < 0 then 0#8 else kY }

def putcar (s : Screen) (c : U8) : Screen :=
  let s :=
    if c = 10#8 then { s with kX := 0#8, kY := s.kY + 1#8 }
    else if c = 9#8 then
      { s with kX := BitVec.ofInt 8 (s.kX.toInt + 8 - s.kX.toInt.tmod 8) }
    else if c = 13#8 then { s with kX := 0#8 }
    else
      let at_ := 2 * s.kX.toInt + 160 * s.kY.toInt
      let s := { s with
        video := Function.update (Function.update s.video at_ c) (at_ + 1) s.kattr
        kX := s.kX + 1#8 }
      if s.kX.toInt > 79 then { s with kX := 0#8, kY := s.kY + 1#8 } else s
  if s.kY.toInt > 24 then scrollup (s.kY.toInt - 24).toNat s else s

/-- `print`, of the bytes before the NUL. -/
def print (text : List U8) (s : Screen) : Screen := text.foldl putcar s

def setAttr (a : U8) (s : Screen) : Screen := { s with kattr := a }

theorem print_append (a b : List U8) (s : Screen) : print (a ++ b) s = print b (print a s) :=
  List.foldl_append

/-! ## Scrolling -/

/-- One turn of the loop of `scrollup`. -/
def scrollTurn (n i : Nat) (v : Int → U8) : Int → U8 :=
  if 2 * i + n * 160 < sizeScreen then
    let v := Function.update v (2 * i : Int) (v (2 * i + n * 160 : Int))
    Function.update v (2 * i + 1 : Int) (v (2 * i + n * 160 + 1 : Int))
  else
    Function.update (Function.update v (2 * i : Int) 0#8) (2 * i + 1 : Int) 0x07#8

/-- What `scrollup(n)` leaves at byte `x` of the screen. -/
def scrolled (n : Nat) (v : Int → U8) (x : Int) : U8 :=
  if x / 2 * 2 + n * 160 < sizeScreen then v (x + n * 160)
  else if x % 2 = 0 then 0#8 else 0x07#8

/-- A turn writes the two bytes of its cell. -/
theorem scrollTurn_at (n i : Nat) (v : Int → U8) (x : Int) :
    scrollTurn n i v x = if x / 2 = i then scrolled n v x else v x := by
  unfold scrollTurn scrolled
  by_cases hx : x / 2 = i
  · rw [if_pos hx]
    by_cases hin : 2 * i + n * 160 < sizeScreen
    · rw [if_pos hin, if_pos (by omega)]
      rcases (show x = 2 * i ∨ x = 2 * i + 1 by omega) with hlow | hhigh
      · rw [Function.update_of_ne (by omega), hlow, Function.update_self]
      · rw [hhigh, Function.update_self, Function.update_of_ne (by omega)]
        congr 1
        omega
    · rw [if_neg hin, if_neg (by omega)]
      rcases (show x = 2 * i ∨ x = 2 * i + 1 by omega) with hlow | hhigh
      · rw [Function.update_of_ne (by omega), if_pos (by omega), hlow, Function.update_self]
      · rw [if_neg (by omega), hhigh, Function.update_self]
  · rw [if_neg hx]
    split
    next => rw [Function.update_of_ne (by omega), Function.update_of_ne (by omega)]
    next => rw [Function.update_of_ne (by omega), Function.update_of_ne (by omega)]

/-- The copy reads ahead of where it writes: each byte ends up `n` rows higher. -/
theorem scrollup_video (n : Nat) (s : Screen) (x : Int) :
    (scrollup n s).video x =
      if 0 ≤ x ∧ x < sizeScreen then scrolled n s.video x else s.video x := by
  have hsize : sizeScreen = 4000 := rfl
  have hinv : ∀ x : Int, forRange 0 (sizeScreen / 2) (scrollTurn n) s.video x =
      if 0 ≤ x ∧ x < 2 * ((sizeScreen / 2 : Nat) : Int) then scrolled n s.video x else s.video x :=
    forRange_inv (fun (i : Nat) (v : Int → U8) => ∀ x : Int, v x =
      if 0 ≤ x ∧ x < 2 * (i : Int) then scrolled n s.video x else s.video x)
    (Nat.zero_le _) (fun x => (if_neg (by omega)).symm) (by
      intro i v _ hi hv x
      rw [scrollTurn_at]
      by_cases hx : x / 2 = i
      · have hahead : v (x + n * 160) = s.video (x + n * 160) := by rw [hv, if_neg (by omega)]
        rw [if_pos hx, if_pos (by omega)]
        unfold scrolled
        rw [hahead]
      · rw [if_neg hx, hv]
        by_cases hlow : 0 ≤ x ∧ x < 2 * (i : Int)
        · rw [if_pos hlow, if_pos (by omega)]
        · rw [if_neg hlow, if_neg (by omega)])
  have hvideo : (scrollup n s).video = forRange 0 (sizeScreen / 2) (scrollTurn n) s.video := by
    simp only [scrollup]
    congr 1
  rw [hvideo, hinv]
  by_cases hx : 0 ≤ x ∧ x < (sizeScreen : Int)
  · rw [if_pos hx, if_pos (by omega)]
  · rw [if_neg hx, if_neg (by omega)]

/-- The row after scrolling, the row being one of those below the screen. -/
theorem scrollup_kY {n : Nat} {s : Screen} (h : 0 ≤ s.kY.toInt - n) :
    (scrollup n s).kY.toInt = s.kY.toInt - n := by
  have hy := s.kY.toInt_lt
  have hmod : (BitVec.ofInt 8 (s.kY.toInt - n)).toInt = s.kY.toInt - n := by
    rw [BitVec.toInt_ofInt]
    exact Int.bmod_eq_of_le (by omega) (by omega)
  unfold scrollup
  simp only [hmod]
  rw [if_neg (by omega)]
  exact hmod

@[simp] theorem scrollup_kX (n : Nat) (s : Screen) : (scrollup n s).kX = s.kX := rfl

/-- A cursor variable counts up to 127. -/
theorem toInt_succ {k : U8} (h : k.toInt < 127) : (k + 1#8).toInt = k.toInt + 1 := by
  have hlo := k.le_toInt
  have hone : (1#8 : U8).toInt = 1 := rfl
  rw [BitVec.toInt_add, hone]
  exact Int.bmod_eq_of_le (by omega) (by omega)

/-! ## One character -/

/-- `putcar` up to the test of `kY`. -/
def placed (s : Screen) (c : U8) : Screen :=
  if c = 10#8 then { s with kX := 0#8, kY := s.kY + 1#8 }
  else if c = 9#8 then
    { s with kX := BitVec.ofInt 8 (s.kX.toInt + 8 - s.kX.toInt.tmod 8) }
  else if c = 13#8 then { s with kX := 0#8 }
  else
    let at_ := 2 * s.kX.toInt + 160 * s.kY.toInt
    let s := { s with
      video := Function.update (Function.update s.video at_ c) (at_ + 1) s.kattr
      kX := s.kX + 1#8 }
    if s.kX.toInt > 79 then { s with kX := 0#8, kY := s.kY + 1#8 } else s

/-- The rest of it. -/
def settled (s : Screen) : Screen :=
  if s.kY.toInt > 24 then scrollup (s.kY.toInt - 24).toNat s else s

theorem putcar_eq (s : Screen) (c : U8) : putcar s c = settled (placed s c) := rfl

/-- A character that is not a control character is written to its cell. -/
theorem placed_char_video {s : Screen} {c : U8} (hn : c ≠ 10#8) (ht : c ≠ 9#8) (hr : c ≠ 13#8) :
    (placed s c).video = Function.update (Function.update s.video
      (2 * s.kX.toInt + 160 * s.kY.toInt) c) (2 * s.kX.toInt + 160 * s.kY.toInt + 1) s.kattr := by
  unfold placed
  rw [if_neg hn, if_neg ht, if_neg hr]
  simp only
  by_cases hlast : (s.kX + 1#8).toInt > 79
  · rw [if_pos hlast]
  · rw [if_neg hlast]

/-- Then comes the next column, or the next line. -/
theorem placed_char_next {s : Screen} {c : U8} (hn : c ≠ 10#8) (ht : c ≠ 9#8) (hr : c ≠ 13#8)
    (hx : s.kX.toInt ≤ 79) :
    (s.kX.toInt = 79 ∧ (placed s c).kX = 0#8 ∧ (placed s c).kY = s.kY + 1#8) ∨
      (s.kX.toInt < 79 ∧ (placed s c).kX.toInt = s.kX.toInt + 1 ∧ (placed s c).kY = s.kY) := by
  have hsucc : (s.kX + 1#8).toInt = s.kX.toInt + 1 := toInt_succ (by omega)
  unfold placed
  rw [if_neg hn, if_neg ht, if_neg hr]
  simp only [hsucc]
  by_cases hlast : s.kX.toInt + 1 > 79
  · rw [if_pos hlast]
    exact Or.inl ⟨by omega, rfl, rfl⟩
  · rw [if_neg hlast]
    exact Or.inr ⟨by omega, hsucc, rfl⟩

theorem putcar_kattr (s : Screen) (c : U8) : (putcar s c).kattr = s.kattr := by
  have hplaced : (placed s c).kattr = s.kattr := by
    unfold placed
    by_cases hn : c = 10#8
    · rw [if_pos hn]
    · by_cases ht : c = 9#8
      · rw [if_neg hn, if_pos ht]
      · by_cases hr : c = 13#8
        · rw [if_neg hn, if_neg ht, if_pos hr]
        · rw [if_neg hn, if_neg ht, if_neg hr]
          simp only
          by_cases hlast : (s.kX + 1#8).toInt > 79
          · rw [if_pos hlast]
          · rw [if_neg hlast]
  rw [putcar_eq]
  unfold settled
  split
  next => exact hplaced
  next => exact hplaced

end PepinOS
