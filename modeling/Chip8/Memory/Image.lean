import Chip8.Memory
/-!
# The memory image of a program

A machine starts with a font at `fontStart` and its program at `programStart`; all other bytes are
zero. The font holds one glyph of five bytes for each of the sixteen hexadecimal digits, and
`glyphAddress` says where. A program fits if it has at most `capacity` bytes.
-/

namespace Chip8.Memory

/-- The address of the first glyph. -/
def fontStart : Nat := 0x50

/-- The number of rows, and of bytes, of a glyph. -/
def glyphHeight : Nat := 5

/-- The address of the first byte of a program. -/
def programStart : Nat := 0x200

/-- The greatest number of bytes of a program. -/
def capacity : Nat := 4096 - programStart

/-- The glyphs of the digits `0` to `F`, four pixels wide, in the high halves of their bytes. -/
def font : List UInt8 :=
  [0xF0, 0x90, 0x90, 0x90, 0xF0,
   0x20, 0x60, 0x20, 0x20, 0x70,
   0xF0, 0x10, 0xF0, 0x80, 0xF0,
   0xF0, 0x10, 0xF0, 0x10, 0xF0,
   0x90, 0x90, 0xF0, 0x10, 0x10,
   0xF0, 0x80, 0xF0, 0x10, 0xF0,
   0xF0, 0x80, 0xF0, 0x90, 0xF0,
   0xF0, 0x10, 0x20, 0x40, 0x40,
   0xF0, 0x90, 0xF0, 0x90, 0xF0,
   0xF0, 0x90, 0xF0, 0x10, 0xF0,
   0xF0, 0x90, 0xF0, 0x90, 0x90,
   0xE0, 0x90, 0xE0, 0x90, 0xE0,
   0xF0, 0x80, 0x80, 0x80, 0xF0,
   0xE0, 0x90, 0x90, 0x90, 0xE0,
   0xF0, 0x80, 0xF0, 0x80, 0xF0,
   0xF0, 0x80, 0xF0, 0x80, 0x80]

/-- The address of the glyph of the low hexadecimal digit of `digit`. -/
def glyphAddress (digit : UInt8) : UInt16 :=
  UInt16.ofNat (fontStart + glyphHeight * (digit.toNat % 16))

/-- The memory of a machine that is about to run `program`. -/
def image (program : List UInt8) : Memory :=
  (zero.writeBlock fontStart font).writeBlock programStart program

@[simp] theorem length_font : font.length = 80 := rfl

/-- The glyphs follow one another, five bytes each. -/
theorem toNat_glyphAddress (digit : UInt8) :
    (glyphAddress digit).toNat = 0x50 + 5 * (digit.toNat % 16) := by
  have : digit.toNat % 16 < 16 := Nat.mod_lt _ (by decide)
  simp only [glyphAddress, fontStart, glyphHeight, UInt16.toNat_ofNat']
  omega

end Chip8.Memory
