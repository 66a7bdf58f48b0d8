import Chip8.Screen.Basic
/-!
# Sprites

A sprite is a list of bytes, one for each row, of eight pixels from the most significant bit on.
Drawing it inverts the pixels under its set bits and reports whether one of them was lit. The part
of a sprite beyond the right or the lower edge is cut off: `stripe` shifts it out of the row, and
`xorRow` ignores rows below the screen.
-/

namespace Chip8.Screen

/-- The row in which the bits of `byte` begin in column `x`. -/
def stripe (byte : UInt8) (x : Nat) : BitVec 64 :=
  byte.toBitVec.setWidth 64 <<< 56 >>> x

/-- Invert the pixels of row `y` that are set in `mask`. -/
def xorRow (s : Screen) (y : Nat) (mask : BitVec 64) : Screen :=
  if h : y < 32 then { rows := s.rows.set y (s.rows[y] ^^^ mask) h } else s

/-- Whether a pixel of row `y` that is set in `mask` is lit. -/
def hits (s : Screen) (y : Nat) (mask : BitVec 64) : Bool :=
  s.row y &&& mask != 0

/-- Draw a sprite with its upper left corner at column `x` of row `y`. The second component says
whether a lit pixel was inverted. -/
def drawSprite (s : Screen) (x y : Nat) : List UInt8 → Screen × Bool
  | [] => (s, false)
  | byte :: rest =>
    let below := (s.xorRow y (stripe byte x)).drawSprite x (y + 1) rest
    (below.1, s.hits y (stripe byte x) || below.2)

@[simp] theorem drawSprite_nil (s : Screen) (x y : Nat) : s.drawSprite x y [] = (s, false) := rfl

/-- Drawing a sprite draws its first row and then the others below it. -/
theorem drawSprite_cons (s : Screen) (x y : Nat) (byte : UInt8) (rest : List UInt8) :
    s.drawSprite x y (byte :: rest) =
      (((s.xorRow y (stripe byte x)).drawSprite x (y + 1) rest).1,
        s.hits y (stripe byte x) ||
          ((s.xorRow y (stripe byte x)).drawSprite x (y + 1) rest).2) := rfl

/-- Column `c` of a stripe is the bit of the byte that lies there. -/
theorem getMsbD_stripe (byte : UInt8) (x c : Nat) :
    (stripe byte x).getMsbD c =
      (decide (c < 64 ∧ x ≤ c ∧ c < x + 8) && byte.toBitVec.getMsbD (c - x)) := by
  simp only [stripe, BitVec.getMsbD_ushiftRight, BitVec.getMsbD_shiftLeft,
    BitVec.getMsbD_setWidth, show c - x + 56 + 8 - 64 = c - x by omega,
    show 64 - 8 ≤ c - x + 56 by omega, decide_true, Bool.true_and]
  by_cases h8 : c - x < 8
  · have : c < x ∨ (x ≤ c ∧ c < x + 8) := by omega
    rcases this with h | ⟨h, h'⟩
    · simp [h, Nat.not_le.2 h]
    · simp [h, h', Nat.not_lt.2 h]
  · simp [BitVec.getMsbD_of_ge _ _ (Nat.le_of_not_lt h8)]

/-- Inverting a row changes the pixels set in the mask and no others. -/
theorem pixel_xorRow (s : Screen) (y : Nat) (mask : BitVec 64) (c r : Nat) :
    (s.xorRow y mask).pixel c r =
      (s.pixel c r ^^ (decide (r = y ∧ r < 32) && mask.getMsbD c)) := by
  unfold xorRow
  split
  · next hy =>
    by_cases he : y = r
    · subst he
      simp [pixel, row, hy]
    · have hn : ¬ (r = y ∧ r < 32) := fun h => he h.1.symm
      simp only [hn, decide_false, Bool.false_and, Bool.xor_false]
      simp only [pixel, row]
      split
      · rw [Vector.getElem_set_ne _ _ he]
      · rfl
  · next hy =>
    have hn : ¬ (r = y ∧ r < 32) := by omega
    simp only [hn, decide_false, Bool.false_and, Bool.xor_false]

end Chip8.Screen
