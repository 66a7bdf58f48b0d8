import Chip8.Keypad
/-!
# The keyboard layout

The keys of the keypad lie in a square of four rows. On a keyboard they are played on the left-hand
square of four rows:

    1 2 3 4      1 2 3 C
    q w e r  ->  4 5 6 D
    a s d f      7 8 9 E
    z x c v      A 0 B F

Capital letters play the same keys.
-/

namespace Chip8.Keypad

/-- The characters that play the keys `0` to `F`, in this order. -/
def layout : List Char :=
  ['x', '1', '2', '3', 'q', 'w', 'e', 'a', 's', 'd', 'z', 'c', '4', 'r', 'f', 'v']

/-- The key played by a character. Only the capital letters of ASCII count as their small
letters. -/
def keyFor (c : Char) : Option Key :=
  (layout.idxOf? c.toLower).bind Key.ofNat?

/-- Every key is played by the character in its place. -/
theorem keyFor_layout (k : Key) : keyFor (layout.get ⟨k.val, k.isLt⟩) = some k := by
  revert k
  decide

end Chip8.Keypad
