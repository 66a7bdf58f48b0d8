import Chip8.Instruction.Basic
/-!
# Decoding

`Instruction.decode` reads a word as an instruction. The family of the word selects the operation;
in the families 0, 8 and E the last digit, and in the family F the low byte, selects further. A
digit that neither selects nor is an operand is ignored, so several words may stand for one
instruction: all 256 words of family 0 with last digit 0 clear the screen.
-/

namespace Chip8.Instruction

/-- The operations of family 0, selected by the last digit. -/
def decodeSystem (w : Word) : Instruction :=
  match w.n.val with
  | 0x0 => .clear
  | 0xE => .ret
  | _ => .unknown w

/-- The operations of family 8 on two registers, selected by the last digit. -/
def decodeArithmetic (w : Word) : Instruction :=
  match w.n.val with
  | 0x0 => .copy w.x w.y
  | 0x1 => .or w.x w.y
  | 0x2 => .and w.x w.y
  | 0x3 => .xor w.x w.y
  | 0x4 => .add w.x w.y
  | 0x5 => .sub w.x w.y
  | 0x6 => .shiftRight w.x
  | 0x7 => .subFrom w.x w.y
  | 0xE => .shiftLeft w.x
  | _ => .unknown w

/-- The operations of family E on the keypad, selected by the last digit. -/
def decodeKey (w : Word) : Instruction :=
  match w.n.val with
  | 0x1 => .skipUnlessPressed w.x
  | 0xE => .skipIfPressed w.x
  | _ => .unknown w

/-- The operations of family F, selected by the low byte. -/
def decodeMisc (w : Word) : Instruction :=
  match w.kk.toNat with
  | 0x07 => .readDelay w.x
  | 0x0A => .awaitKey w.x
  | 0x15 => .setDelay w.x
  | 0x18 => .setSound w.x
  | 0x1E => .addIndex w.x
  | 0x29 => .pointGlyph w.x
  | 0x33 => .storeDecimal w.x
  | 0x55 => .dump w.x
  | 0x65 => .load w.x
  | _ => .unknown w

/-- The instruction that a word stands for. The last case is family F, since a digit is below
sixteen. -/
def decode (w : Word) : Instruction :=
  match w.family.val with
  | 0x0 => decodeSystem w
  | 0x1 => .jump w.nnn
  | 0x2 => .call w.nnn
  | 0x3 => .skipIfConst w.x w.kk
  | 0x4 => .skipUnlessConst w.x w.kk
  | 0x5 => .skipIfSame w.x w.y
  | 0x6 => .setConst w.x w.kk
  | 0x7 => .addConst w.x w.kk
  | 0x8 => decodeArithmetic w
  | 0x9 => .skipUnlessSame w.x w.y
  | 0xA => .setIndex w.nnn
  | 0xB => .jumpOffset w.nnn
  | 0xC => .random w.x w.kk
  | 0xD => .draw w.x w.y (UInt8.ofNat w.n)
  | 0xE => decodeKey w
  | _ => decodeMisc w

/-- The instruction stored as the two bytes `high` and `low`. -/
def ofBytes (high low : UInt8) : Instruction :=
  decode (Word.ofBytes high low)

end Chip8.Instruction
