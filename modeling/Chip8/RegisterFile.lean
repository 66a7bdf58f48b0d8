import Chip8.DigitTable
import Chip8.Instruction.Word
/-!
# The register file

`RegisterFile` holds the sixteen bytes `V0`, …, `VF`. The last register, `Register.flag`, doubles
as the flag: arithmetic and drawing write their carry, borrow or collision there, after they have
written their result.
-/

namespace Chip8

/-- The register `VF`, written as a flag by arithmetic and drawing. -/
def Register.flag : Register := Fin.last 15

/-- The contents of the sixteen registers. -/
abbrev RegisterFile := DigitTable UInt8

namespace RegisterFile

/-- All registers hold zero. -/
def zero : RegisterFile :=
  .const 0

/-- Replace the value of a register, and then the flag. -/
def setFlagged (r : RegisterFile) (x : Register) (value flag : UInt8) : RegisterFile :=
  (r.set x value).set Register.flag flag

/-- Replace the registers from `V0` on by the given bytes, as many as there are registers. -/
def load (r : RegisterFile) (bytes : List UInt8) : RegisterFile :=
  .ofFn fun x => bytes[x.val]?.getD (r.get x)

/-- The flag is written last, so it wins over a result stored in the same register. -/
@[simp] theorem get_setFlagged_flag (r : RegisterFile) (x : Register) (value flag : UInt8) :
    (r.setFlagged x value flag).get Register.flag = flag := by
  simp [setFlagged]

/-- Every register but the flag holds what the result makes of it. -/
theorem get_setFlagged_of_ne (r : RegisterFile) (x y : Register) (value flag : UInt8)
    (ne : y ≠ Register.flag) :
    (r.setFlagged x value flag).get y = if x = y then value else r.get y := by
  simp [setFlagged, DigitTable.get_set, Ne.symm ne]

/-- Loading replaces the registers for which there is a byte. -/
theorem get_load (r : RegisterFile) (bytes : List UInt8) (x : Register) :
    (r.load bytes).get x = bytes[x.val]?.getD (r.get x) := by
  simp [load]

end RegisterFile

end Chip8
