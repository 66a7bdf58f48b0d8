import Chip8.Instruction.Basic
/-!
# The text of an instruction

`Instruction.text` names an instruction as it appears in trace records: a word for the operation,
then its operands in parentheses, each marked as a register (`Reg`), a constant (`Const`) or an
address (`Addr`). Numbers are decimal.
-/

namespace Chip8.Instruction

/-- A register operand. -/
def registerText (x : Register) : String := s!"Reg({x.val})"

/-- A constant operand. -/
def constantText (k : UInt8) : String := s!"Const({k.toNat})"

/-- An address operand. -/
def addressText (a : UInt16) : String := s!"Addr({a.toNat})"

/-- An operation applied to the texts of its operands. -/
def applied (name : String) (operands : List String) : String :=
  name ++ "(" ++ ", ".intercalate operands ++ ")"

/-- The text of an instruction in trace records. -/
def text : Instruction → String
  | clear => "ClearScreen"
  | ret => "Return"
  | jump a => applied "Goto" [addressText a]
  | call a => applied "Call" [addressText a]
  | skipIfConst x k => applied "IfRegEqConst" [registerText x, constantText k]
  | skipUnlessConst x k => applied "IfRegNeqConst" [registerText x, constantText k]
  | skipIfSame x y => applied "IfRegEqReg" [registerText x, registerText y]
  | setConst x k => applied "SetRegToConst" [registerText x, constantText k]
  | addConst x k => applied "IncRegByConst" [registerText x, constantText k]
  | copy x y => applied "SetRegToReg" [registerText x, registerText y]
  | or x y => applied "BitwiseOr" [registerText x, registerText y]
  | and x y => applied "BitwiseAnd" [registerText x, registerText y]
  | xor x y => applied "BitwiseXor" [registerText x, registerText y]
  | add x y => applied "IncRegByReg" [registerText x, registerText y]
  | sub x y => applied "DecRegByReg" [registerText x, registerText y]
  | shiftRight x => applied "BitshiftRight" [registerText x]
  | subFrom x y => applied "SetVxVyMinusVx" [registerText x, registerText y]
  | shiftLeft x => applied "BitshiftLeft" [registerText x]
  | skipUnlessSame x y => applied "IfRegNeqReg" [registerText x, registerText y]
  | setIndex a => applied "SetI" [addressText a]
  | jumpOffset a => applied "SetPcToV0PlusAddr" [addressText a]
  | random x k => applied "SetVxRand" [registerText x, constantText k]
  | draw x y k => applied "Draw" [registerText x, registerText y, constantText k]
  | skipIfPressed x => applied "IfKeyEqVx" [registerText x]
  | skipUnlessPressed x => applied "IfKeyNeqVx" [registerText x]
  | readDelay x => applied "SetRegToDelayTimer" [registerText x]
  | awaitKey x => applied "SetRegToGetKey" [registerText x]
  | setDelay x => applied "SetDelayTimerToReg" [registerText x]
  | setSound x => applied "SetSoundTimerToReg" [registerText x]
  | addIndex x => applied "AddRegToI" [registerText x]
  | pointGlyph x => applied "SetIToSpriteAddrVx" [registerText x]
  | storeDecimal x => applied "SetIToBcdOfReg" [registerText x]
  | dump x => applied "RegDump" [registerText x]
  | load x => applied "RegLoad" [registerText x]
  | unknown w => applied "Unknown" [toString w.toNat]

end Chip8.Instruction
