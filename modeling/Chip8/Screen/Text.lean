import Chip8.Screen.Basic
/-!
# The screen as text

`Screen.text` shows a screen as 32 lines of 64 characters, a number sign for a lit pixel and a
space for a dark one. Each line, also the last, ends with a line feed.
-/

namespace Chip8.Screen

/-- The character that shows a pixel. -/
def mark (lit : Bool) : Char := if lit then '#' else ' '

/-- The characters of row `y`. -/
def line (s : Screen) (y : Nat) : List Char :=
  (List.range width).map fun x => mark (s.pixel x y)

/-- The lines of the screen, each ended by a line feed. -/
def text (s : Screen) : String :=
  String.ofList ((List.range height).flatMap fun y => s.line y ++ ['\n'])

@[simp] theorem length_line (s : Screen) (y : Nat) : (s.line y).length = 64 := by
  simp [line, width]

end Chip8.Screen
