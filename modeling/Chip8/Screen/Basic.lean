/-!
# The screen

`Screen` is a grid of 64 by 32 pixels, each lit or dark. A row is a word of 64 bits whose most
significant bit is the leftmost pixel. Columns and rows are counted from the upper left corner;
`row` and `pixel` are dark outside the grid.

The view of a screen is its pixels: two screens with equal pixels are equal (`ext_pixel`).
-/

namespace Chip8

/-- A grid of 64 by 32 pixels, one word for each row. -/
structure Screen where
  rows : Vector (BitVec 64) 32
deriving DecidableEq

namespace Screen

/-- The number of columns. -/
def width : Nat := 64

/-- The number of rows. -/
def height : Nat := 32

/-- The screen on which every pixel is dark. -/
def blank : Screen where
  rows := Vector.replicate 32 0

/-- The row at `y`, dark below the screen. -/
def row (s : Screen) (y : Nat) : BitVec 64 :=
  if h : y < 32 then s.rows[y] else 0

/-- Whether the pixel in column `x` of row `y` is lit. -/
def pixel (s : Screen) (x y : Nat) : Bool :=
  (s.row y).getMsbD x

/-- The screen whose lit pixels are those that satisfy a condition on column and row. -/
def ofPixels (lit : Nat → Nat → Bool) : Screen where
  rows := Vector.ofFn fun y =>
    (BitVec.ofBoolListBE ((List.range 64).map fun x => lit x y)).cast (by simp)

/-- The number of lit pixels. -/
def litCount (s : Screen) : Nat :=
  s.rows.foldl (fun total row => total + (List.range width).countP row.getMsbD) 0

@[simp] theorem pixel_blank (x y : Nat) : blank.pixel x y = false := by
  simp [pixel, row, blank]

/-- The pixels of a screen made from a condition are those that satisfy it. -/
theorem pixel_ofPixels (lit : Nat → Nat → Bool) {x y : Nat} (hx : x < 64) (hy : y < 32) :
    (ofPixels lit).pixel x y = lit x y := by
  simp [ofPixels, pixel, row, hx, hy, List.getD]

/-- There are no lit pixels to the right of the screen. -/
theorem pixel_of_le_left {s : Screen} {x y : Nat} (h : 64 ≤ x) : s.pixel x y = false := by
  simp [pixel, BitVec.getMsbD_of_ge _ _ h]

/-- There are no lit pixels below the screen. -/
theorem pixel_of_le_right {s : Screen} {x y : Nat} (h : 32 ≤ y) : s.pixel x y = false := by
  simp [pixel, row, Nat.not_lt.2 h]

/-- A screen is determined by its pixels. -/
theorem ext_pixel {s t : Screen} (h : ∀ x < 64, ∀ y < 32, s.pixel x y = t.pixel x y) :
    s = t := by
  cases s with
  | mk a =>
    cases t with
    | mk b =>
      congr 1
      apply Vector.ext
      intro y hy
      apply BitVec.eq_of_getMsbD_eq
      intro x hx
      simpa [pixel, row, hy] using h x hx y hy

end Screen

end Chip8
