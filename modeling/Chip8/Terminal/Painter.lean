import Chip8.Screen.Frame
import Chip8.Terminal.Command
/-!
# Painting the screen on a terminal

A pixel takes two columns of a terminal, so that it is about square, and a border runs around the
screen. `Painter` remembers what the terminal shows. `Painter.update` sends commands for the
pixels that have changed since, row by row, and nothing for the others.
-/

namespace Chip8

/-- The screen that a terminal shows. -/
structure Painter where
  shown : Screen
deriving DecidableEq

namespace Painter

/-- The column of the right border. -/
def right : Nat := 2 * Screen.width + 1

/-- The row of the lower border. -/
def bottom : Nat := Screen.height + 1

/-- A horizontal border between two corners. -/
def edge (left right : Char) : List Char :=
  left :: List.replicate (2 * Screen.width) '━' ++ [right]

/-- The border around the screen. -/
def border : List TerminalCommand :=
  [.moveTo 0 0, .print (edge '┏' '┓')] ++
    ((List.range Screen.height).flatMap fun y =>
      [.moveTo 0 (y + 1), .print ['┃'], .moveTo right (y + 1), .print ['┃']]) ++
    [.moveTo 0 bottom, .print (edge '┗' '┛')]

/-- What is sent before the first frame. -/
def opening : List TerminalCommand :=
  [.enterAlternateScreen, .hideCursor, .clearAll] ++ border

/-- What is sent after the last frame. -/
def closing : List TerminalCommand :=
  [.leaveAlternateScreen, .showCursor]

/-- A painter that has only drawn the border. -/
def start : Painter where
  shown := .blank

/-- The two characters that show a pixel. -/
def block (lit : Bool) : List Char :=
  if lit then ['█', '█'] else [' ', ' ']

/-- Draw the pixel in column `x` of row `y`. -/
def drawPixel (x y : Nat) (lit : Bool) : List TerminalCommand :=
  [.moveTo (2 * x + 1) (y + 1), .print (block lit)]

/-- The commands for the pixels of row `y` in which two screens differ. -/
def rowChanges (before after : Screen) (y : Nat) : List TerminalCommand :=
  if before.row y = after.row y then []
  else (List.range Screen.width).flatMap fun x =>
    if before.pixel x y = after.pixel x y then [] else drawPixel x y (after.pixel x y)

/-- The commands for the pixels in which two screens differ, row by row. -/
def changes (before after : Screen) : List TerminalCommand :=
  (List.range Screen.height).flatMap (rowChanges before after)

/-- Nothing is sent for a screen that has not changed. -/
@[simp] theorem changes_self (s : Screen) : changes s s = [] := by
  simp [changes, rowChanges]

/-- Show a screen. -/
def update (p : Painter) (screen : Screen) : Painter × List TerminalCommand :=
  ({ shown := screen }, changes p.shown screen)

/-- Show the screen of a frame. -/
def present (p : Painter) (frame : Frame) : Painter × List TerminalCommand :=
  p.update (.ofFrame frame)

end Painter

end Chip8
