/-!
# Time

Times are integers, in nanoseconds on a clock whose origin is arbitrary. A clock may be read out
of order, so the time that has passed between two readings, `elapsed`, is taken to be zero if the
second reading is the earlier one.
-/

namespace Chip8

/-- The time from `since` to `now`, zero if `now` is earlier. -/
def elapsed (since now : Int) : Nat :=
  (now - since).toNat

/-- The number of nanoseconds in a millisecond. -/
def millisecond : Nat := 1000000

/-- A later start takes as much from the elapsed time. -/
theorem elapsed_add (since now : Int) (d : Nat) :
    elapsed (since + d) now = elapsed since now - d := by
  simp only [elapsed]
  omega

/-- The elapsed time grows with the second reading. -/
theorem elapsed_le_elapsed {since now later : Int} (h : now ≤ later) :
    elapsed since now ≤ elapsed since later := by
  simp only [elapsed]
  omega

/-- The elapsed time shrinks with the first reading. -/
theorem elapsed_le_elapsed_of_le {since later now : Int} (h : since ≤ later) :
    elapsed later now ≤ elapsed since now := by
  simp only [elapsed]
  omega

end Chip8
