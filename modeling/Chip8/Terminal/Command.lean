/-!
# Terminal commands

A terminal is driven by a stream of text in which escape sequences stand for commands.
`TerminalCommand` lists the commands that are used here, and `TerminalCommand.text` writes one.
Columns and rows are counted from zero, while the escape sequence counts them from one.

`TerminalGrid` is what a terminal shows as far as cursor movements and printed characters go: a
cursor and a grid of characters. Each printed character fills one column and moves the cursor to
the next.
-/

namespace Chip8

/-- A command to a terminal. -/
inductive TerminalCommand where
  | enterAlternateScreen
  | leaveAlternateScreen
  | hideCursor
  | showCursor
  | clearAll
  | moveTo (column row : Nat)
  | print (chars : List Char)
deriving DecidableEq

namespace TerminalCommand

/-- The escape sequence with the given parameters and final letter. -/
def sequence (rest : String) : String :=
  "\x1b[" ++ rest

/-- The text that stands for a command. -/
def text : TerminalCommand → String
  | enterAlternateScreen => sequence "?1049h"
  | leaveAlternateScreen => sequence "?1049l"
  | hideCursor => sequence "?25l"
  | showCursor => sequence "?25h"
  | clearAll => sequence "2J"
  | moveTo column row => sequence s!"{row + 1};{column + 1}H"
  | print chars => String.ofList chars

/-- The stream that stands for a list of commands. -/
def stream (commands : List TerminalCommand) : String :=
  commands.foldl (fun s c => s ++ c.text) ""

end TerminalCommand

/-- The characters that a terminal shows, and the place of its cursor. -/
structure TerminalGrid where
  column : Nat
  row : Nat
  char : Nat → Nat → Char

namespace TerminalGrid

/-- An empty grid, with the cursor in the upper left corner. -/
def blank : TerminalGrid where
  column := 0
  row := 0
  char _ _ := ' '

/-- Print one character at the cursor. -/
def put (g : TerminalGrid) (c : Char) : TerminalGrid where
  column := g.column + 1
  row := g.row
  char x y := if x = g.column ∧ y = g.row then c else g.char x y

/-- Carry out a command. Only movements and printed characters change the grid. -/
def apply (g : TerminalGrid) : TerminalCommand → TerminalGrid
  | .moveTo column row => { g with column := column, row := row }
  | .print chars => chars.foldl put g
  | .clearAll => { g with char := fun _ _ => ' ' }
  | _ => g

/-- Carry out commands in order. -/
def replay (g : TerminalGrid) (commands : List TerminalCommand) : TerminalGrid :=
  commands.foldl apply g

theorem replay_append (g : TerminalGrid) (first later : List TerminalCommand) :
    g.replay (first ++ later) = (g.replay first).replay later := by
  simp [replay]

end TerminalGrid

end Chip8
