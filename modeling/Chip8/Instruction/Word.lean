/-!
# Instruction words

A program is a sequence of sixteen-bit words, stored with the high byte first. A word is read
through six overlapping fields: `family` is its first hexadecimal digit, `x` and `y` are the
second and the third and name registers, `n` is the fourth, `kk` is the low byte, and `nnn` is the
low twelve bits, an address.
-/

namespace Chip8

/-- The name of one of the sixteen general registers `V0`, …, `VF`. -/
abbrev Register := Fin 16

/-- A sixteen-bit word of a program. -/
abbrev Word := UInt16

namespace Word

/-- The word stored as the two bytes `high` and `low`, in this order. -/
def ofBytes (high low : UInt8) : Word :=
  high.toUInt16 <<< 8 ||| low.toUInt16

/-- The hexadecimal digit of `w` at position `k`, counted from the lowest. -/
def digit (w : Word) (k : Nat) : Fin 16 :=
  ⟨(w.toNat >>> (4 * k)) % 16, Nat.mod_lt _ (by decide)⟩

/-- The first digit, which selects the group of instructions. -/
def family (w : Word) : Fin 16 := w.digit 3

/-- The second digit, the first register operand. -/
def x (w : Word) : Register := w.digit 2

/-- The third digit, the second register operand. -/
def y (w : Word) : Register := w.digit 1

/-- The fourth digit, a height or a selector within the group. -/
def n (w : Word) : Fin 16 := w.digit 0

/-- The low byte, a constant or a selector within the group. -/
def kk (w : Word) : UInt8 := w.toUInt8

/-- The low twelve bits, an address. -/
def nnn (w : Word) : UInt16 := w &&& 0xFFF

/-- The family is the highest of four digits. -/
theorem val_family (w : Word) : w.family.val = w.toNat / 4096 := by
  have := w.toNat_lt
  simp only [family, digit, Nat.shiftRight_eq_div_pow]
  omega

theorem val_x (w : Word) : w.x.val = w.toNat / 256 % 16 := by
  simp only [x, digit, Nat.shiftRight_eq_div_pow]

theorem val_y (w : Word) : w.y.val = w.toNat / 16 % 16 := by
  simp only [y, digit, Nat.shiftRight_eq_div_pow]

theorem val_n (w : Word) : w.n.val = w.toNat % 16 := by
  simp [n, digit]

/-- The address field is the remainder modulo 4096. -/
theorem toNat_nnn (w : Word) : w.nnn.toNat = w.toNat % 4096 := by
  simp only [nnn, UInt16.toNat_and]
  exact Nat.and_two_pow_sub_one_eq_mod w.toNat 12

/-- The constant field is the remainder modulo 256. -/
theorem toNat_kk (w : Word) : w.kk.toNat = w.toNat % 256 := by
  simp [kk]

end Word

end Chip8
