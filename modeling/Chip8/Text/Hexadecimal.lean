/-!
# Hexadecimal numerals

`Hexadecimal.digits` writes a natural number with lower-case digits, padded with zeros on the left
to a least width. `Hexadecimal.numeral` puts the mark `0x` in front, the form in which addresses
and words are reported.
-/

namespace Chip8.Hexadecimal

/-- The lower-case hexadecimal digits of `n`, at least `width` of them. -/
def digits (width n : Nat) : String :=
  String.ofList ((Nat.toDigits 16 n).leftpad width '0')

/-- Padding reaches the least width. -/
theorem le_length_digits (width n : Nat) : width ≤ (digits width n).length := by
  simp only [digits, String.length_ofList, List.leftpad, List.length_append,
    List.length_replicate]
  omega

/-- The digits of `n` behind the mark `0x`. -/
def numeral (width n : Nat) : String :=
  "0x" ++ digits width n

end Chip8.Hexadecimal
