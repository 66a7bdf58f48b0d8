import Chip8.Screen.Basic
/-!
# Frames

A frame is a screen in the form in which displays receive it: 2048 cells of 32 bits, row by row. A
cell with all bits set is lit. `Screen.toFrame` fills every other cell with zero, while
`Screen.ofFrame` takes any other value for dark, so reading a frame back gives the screen again
(`ofFrame_toFrame`).
-/

namespace Chip8

/-- The 2048 cells of a screen, row by row. -/
abbrev Frame := Vector UInt32 2048

namespace Frame

/-- The value of a lit cell. -/
def lit : UInt32 := 0xFFFFFFFF

/-- The value of a dark cell. -/
def dark : UInt32 := 0

/-- The number of bytes in a row. -/
def pitch : Nat := Screen.width * 4

end Frame

namespace Screen

/-- The value of the cell that shows a pixel. -/
def cellOf (on : Bool) : UInt32 := if on then Frame.lit else Frame.dark

/-- The frame that shows a screen. -/
def toFrame (s : Screen) : Frame :=
  Vector.ofFn fun k => cellOf (s.pixel (k % 64) (k / 64))

/-- The screen shown by a frame. -/
def ofFrame (f : Frame) : Screen :=
  ofPixels fun x y => f[64 * y + x]? == some Frame.lit

theorem getElem_toFrame (s : Screen) (k : Nat) (h : k < 2048) :
    s.toFrame[k] = cellOf (s.pixel (k % 64) (k / 64)) := by
  simp [toFrame]

/-- The pixels of the screen shown by a frame are its lit cells. -/
theorem pixel_ofFrame (f : Frame) {x y : Nat} (hx : x < 64) (hy : y < 32) :
    (ofFrame f).pixel x y = (f[64 * y + x] == Frame.lit) := by
  rw [ofFrame, pixel_ofPixels _ hx hy, Vector.getElem?_eq_getElem (by omega)]
  rfl

/-- The frame of a screen shows that screen. -/
@[simp] theorem ofFrame_toFrame (s : Screen) : ofFrame s.toFrame = s := by
  apply ext_pixel
  intro x hx y hy
  rw [pixel_ofFrame _ hx hy, getElem_toFrame _ _ (by omega),
    show (64 * y + x) % 64 = x by omega, show (64 * y + x) / 64 = y by omega]
  cases s.pixel x y <;> rfl

end Screen

end Chip8
