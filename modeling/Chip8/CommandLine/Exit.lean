import Chip8.Failure
import Chip8.Machine.Basic
import Chip8.Random.Seeded
/-!
# How a command ends

`Exit` is what a command leaves behind: its exit code, its output, and a line for the user if it
failed. A command line that is not understood gives the code 1 and no output.
-/

namespace Chip8

/-- The end of a command. -/
structure Exit where
  code : UInt8
  output : String := ""
  diagnostic : Option String := none
deriving DecidableEq

namespace Exit

/-- The command line was not understood. -/
def badUsage : Exit where
  code := 1

/-- The command failed after it had written some output. -/
def failed (cause : Failure) (output : String) : Exit where
  code := 1
  output := output
  diagnostic := some ("Error: " ++ cause.details)

end Exit

/-- The bytes of a file, or the reason why it cannot be read. -/
abbrev FileContents := Except IoFailure (List UInt8)

/-- The source of random bytes for a seed, or for another number if no seed was given. -/
def randomSource (seed : Option UInt64) (otherwise : UInt64) : Keystream :=
  .ofSeed (seed.getD otherwise)

end Chip8
