import Chip8.Proofs.Instruction.Operands

/-!
# Which words stand for an instruction

Every instruction occupies the words that match its `Pattern`: four digits, some of which may be
free.  A digit is free where the decoder ignores it, so `clear` has the pattern `0__0` and stands
for 256 words, while most instructions have no free digit and stand for one word.

The key fact is `decode_eq_iff`: a word decodes to an instruction exactly if it matches the pattern
of that instruction, provided that the operands fit in a word at all and that a word kept as unknown
is one to which no operation is assigned (`Instruction.Encodable`).  Everything else is read off the
patterns: an encodable instruction is decoded from the word with zeros for its free digits
(`decode_encode`), and two words decode to the same instruction exactly if the second matches the
pattern of the first.  The main statement is `decode_image_and_fibres`.
-/

namespace Chip8

namespace Word

/-! ### Words and their digits -/

/-- The word with the given digits. -/
def ofDigits (family x y n : Fin 16) : Word :=
  UInt16.ofNat (4096 * family.val + 256 * x.val + 16 * y.val + n.val)

theorem toNat_ofDigits (family x y n : Fin 16) :
    (ofDigits family x y n).toNat = 4096 * family.val + 256 * x.val + 16 * y.val + n.val := by
  rw [ofDigits, UInt16.toNat_ofNat']
  omega

@[simp] theorem family_ofDigits (family x y n : Fin 16) :
    (ofDigits family x y n).family = family := by
  apply Fin.ext
  rw [val_family, toNat_ofDigits]
  omega

@[simp] theorem x_ofDigits (family x y n : Fin 16) : (ofDigits family x y n).x = x := by
  apply Fin.ext
  rw [val_x, toNat_ofDigits]
  omega

@[simp] theorem y_ofDigits (family x y n : Fin 16) : (ofDigits family x y n).y = y := by
  apply Fin.ext
  rw [val_y, toNat_ofDigits]
  omega

@[simp] theorem n_ofDigits (family x y n : Fin 16) : (ofDigits family x y n).n = n := by
  apply Fin.ext
  rw [val_n, toNat_ofDigits]
  omega

/-- A word is determined by its digits. -/
theorem ext_digits {v w : Word} (family : v.family = w.family) (x : v.x = w.x) (y : v.y = w.y)
    (n : v.n = w.n) : v = w := by
  simp only [Fin.ext_iff, val_family, val_x, val_y, val_n] at family x y n
  apply UInt16.toNat_inj.1
  omega

/-- The address field of a word is determined by its last three digits. -/
theorem nnn_eq_iff {w : Word} {address : UInt16} (fits : address.toNat < 4096) :
    w.nnn = address ↔
      w.x = Word.x address ∧ w.y = Word.y address ∧ w.n = Word.n address := by
  rw [← UInt16.toNat_inj, toNat_nnn]
  simp only [Fin.ext_iff, val_x, val_y, val_n]
  omega

/-- The constant field of a word is determined by its last two digits. -/
theorem kk_eq_iff {w : Word} {value : UInt8} :
    w.kk = value ↔ w.y = Word.y value.toUInt16 ∧ w.n = Word.n value.toUInt16 := by
  have byte : value.toNat < 256 := value.toNat_lt
  rw [← UInt8.toNat_inj, toNat_kk, Fin.ext_iff, Fin.ext_iff, val_y, val_y, val_n, val_n,
    UInt8.toNat_toUInt16]
  omega

/-- The height field of a word is its last digit. -/
theorem height_eq_iff {w : Word} {height : UInt8} (fits : height.toNat < 16) :
    UInt8.ofNat w.n = height ↔ w.n = Word.n height.toUInt16 := by
  have digit : w.n.val < 16 := w.n.isLt
  rw [← UInt8.toNat_inj, UInt8.toNat_ofNat', Fin.ext_iff, val_n height.toUInt16,
    UInt8.toNat_toUInt16]
  omega

/-- The bytes of a word are its quotient and its remainder modulo 256. -/
theorem toNat_ofBytes (high low : UInt8) :
    (ofBytes high low).toNat = 256 * high.toNat + low.toNat := by
  have first : high.toNat < 256 := high.toNat_lt
  have second : low.toNat < 256 := low.toNat_lt
  have shifted : (high.toUInt16 <<< 8).toNat = 2 ^ 8 * high.toNat := by
    rw [UInt16.toNat_shiftLeft, UInt8.toNat_toUInt16, Nat.shiftLeft_eq]
    show high.toNat * 2 ^ 8 % 2 ^ 16 = _
    omega
  rw [ofBytes, UInt16.toNat_or, shifted, UInt8.toNat_toUInt16,
    ← Nat.two_pow_add_eq_or_of_lt second]

end Word

/-! ### Patterns -/

/-- The digits of a word, each of which but the first may be free. -/
structure Pattern where
  family : Fin 16
  x : Option (Fin 16)
  y : Option (Fin 16)
  n : Option (Fin 16)

namespace Pattern

/-- A word matches a pattern if it has the digits that are not free. -/
structure Matches (p : Pattern) (w : Word) : Prop where
  family : w.family = p.family
  x : ∀ d ∈ p.x, w.x = d
  y : ∀ d ∈ p.y, w.y = d
  n : ∀ d ∈ p.n, w.n = d

theorem fixed {d e : Fin 16} (same : e = d) : ∀ c ∈ some d, e = c :=
  fun _ digit => same.trans (Option.some.inj digit)

theorem free {e : Fin 16} : ∀ c ∈ (none : Option (Fin 16)), e = c :=
  nofun

/-- The pattern of a single word. -/
def exact (w : Word) : Pattern where
  family := w.family
  x := some w.x
  y := some w.y
  n := some w.n

/-! The patterns of instructions with operands take the other digits from a word for the
operation, in which the digits of the operands are zero. -/

/-- The pattern of an instruction with an address. -/
def address (operation : Word) (target : UInt16) : Pattern :=
  { exact target with family := operation.family }

/-- The pattern of an instruction with a register and a constant. -/
def constant (operation : Word) (x : Register) (value : UInt8) : Pattern :=
  { exact value.toUInt16 with family := operation.family, x := some x }

/-- The pattern of an instruction with one register that ignores the third digit. -/
def single (operation : Word) (x : Register) : Pattern :=
  { exact operation with x := some x, y := none }

/-- The pattern of an instruction with two registers. -/
def pair (operation : Word) (x y : Register) : Pattern :=
  { exact operation with x := some x, y := some y }

/-- The word of a pattern whose free digits are those of another word. -/
def filled (p : Pattern) (w : Word) : Word :=
  .ofDigits p.family (p.x.getD w.x) (p.y.getD w.y) (p.n.getD w.n)

theorem matches_filled (p : Pattern) (w : Word) : p.Matches (p.filled w) where
  family := Word.family_ofDigits _ _ _ _
  x := by
    intro d digit
    rw [filled, Word.x_ofDigits, Option.mem_def.1 digit, Option.getD_some]
  y := by
    intro d digit
    rw [filled, Word.y_ofDigits, Option.mem_def.1 digit, Option.getD_some]
  n := by
    intro d digit
    rw [filled, Word.n_ofDigits, Option.mem_def.1 digit, Option.getD_some]

theorem matches_exact_iff {v w : Word} : (exact v).Matches w ↔ w = v := by
  constructor
  · intro h
    exact Word.ext_digits h.family (h.x _ rfl) (h.y _ rfl) (h.n _ rfl)
  · rintro rfl
    exact ⟨rfl, fixed rfl, fixed rfl, fixed rfl⟩

/-- The words with the digits of an address and the family of the operation. -/
theorem matches_address_iff {operation : Word} {target : UInt16} {w : Word}
    (fits : target.toNat < 4096) :
    (address operation target).Matches w ↔ w.family = operation.family ∧ w.nnn = target := by
  rw [Word.nnn_eq_iff fits]
  constructor
  · intro h
    exact ⟨h.family, h.x _ rfl, h.y _ rfl, h.n _ rfl⟩
  · rintro ⟨same, x, y, n⟩
    exact ⟨same, fixed x, fixed y, fixed n⟩

/-- The words with the digits of a constant, the family of the operation and the given register. -/
theorem matches_constant_iff {operation : Word} {x : Register} {value : UInt8} {w : Word} :
    (constant operation x value).Matches w ↔
      w.family = operation.family ∧ w.x = x ∧ w.kk = value := by
  rw [Word.kk_eq_iff]
  constructor
  · intro h
    exact ⟨h.family, h.x _ rfl, h.y _ rfl, h.n _ rfl⟩
  · rintro ⟨same, x, y, n⟩
    exact ⟨same, fixed x, fixed y, fixed n⟩

section

variable {p : Pattern} {v w : Word} {d : Fin 16}

/-! Words that match one pattern agree in its digits. -/

theorem Matches.x_eq (hv : p.Matches v) (hw : p.Matches w) (digit : d ∈ p.x) : v.x = w.x :=
  (hv.x d digit).trans (hw.x d digit).symm

theorem Matches.y_eq (hv : p.Matches v) (hw : p.Matches w) (digit : d ∈ p.y) : v.y = w.y :=
  (hv.y d digit).trans (hw.y d digit).symm

theorem Matches.n_eq (hv : p.Matches v) (hw : p.Matches w) (digit : d ∈ p.n) : v.n = w.n :=
  (hv.n d digit).trans (hw.n d digit).symm

/-- A pattern without a free digit is that of a single word. -/
theorem Matches.unique {x y n : Fin 16} (hv : p.Matches v) (hw : p.Matches w) (hx : x ∈ p.x)
    (hy : y ∈ p.y) (hn : n ∈ p.n) : v = w :=
  Word.ext_digits (hv.family.trans hw.family.symm) (hv.x_eq hw hx) (hv.y_eq hw hy)
    (hv.n_eq hw hn)

end

end Pattern

/-- Whether no operation is assigned to a word. -/
def Word.Unassigned (w : Word) : Prop :=
  (w.family.val = 0x0 ∧ w.n.val ≠ 0x0 ∧ w.n.val ≠ 0xE) ∨
  (w.family.val = 0x8 ∧ (0x8 ≤ w.n.val ∧ w.n.val ≤ 0xD ∨ w.n.val = 0xF)) ∨
  (w.family.val = 0xE ∧ w.n.val ≠ 0x1 ∧ w.n.val ≠ 0xE) ∨
  (w.family.val = 0xF ∧
    w.kk.toNat ∉ [0x07, 0x0A, 0x15, 0x18, 0x1E, 0x29, 0x33, 0x55, 0x65])

/-- Whether two words differ at most in digits that are ignored: the middle digits before the last
digit `0` or `E` in family 0, the last digit in the families 5 and 9, and the third digit before `6`
or `E` in family 8 and before `1` or `E` in family E. -/
def Word.Synonymous (v w : Word) : Prop :=
  v = w ∨ v.family = w.family ∧
    ((v.family.val = 0x0 ∧ v.n = w.n ∧ (v.n.val = 0x0 ∨ v.n.val = 0xE)) ∨
      ((v.family.val = 0x5 ∨ v.family.val = 0x9) ∧ v.x = w.x ∧ v.y = w.y) ∨
      (v.family.val = 0x8 ∧ v.n = w.n ∧ (v.n.val = 0x6 ∨ v.n.val = 0xE) ∧ v.x = w.x) ∨
      (v.family.val = 0xE ∧ v.n = w.n ∧ (v.n.val = 0x1 ∨ v.n.val = 0xE) ∧ v.x = w.x))

instance (w : Word) : Decidable w.Unassigned :=
  inferInstanceAs (Decidable (_ ∨ _))

instance (v w : Word) : Decidable (v.Synonymous w) :=
  inferInstanceAs (Decidable (_ ∨ _))

namespace Instruction

open Pattern

/-- The pattern of the words that stand for an instruction. -/
def pattern : Instruction → Pattern
  | clear => { exact 0x0000 with x := none, y := none }
  | ret => { exact 0x000E with x := none, y := none }
  | jump target => address 0x1000 target
  | call target => address 0x2000 target
  | skipIfConst x value => constant 0x3000 x value
  | skipUnlessConst x value => constant 0x4000 x value
  | skipIfSame x y => { pair 0x5000 x y with n := none }
  | setConst x value => constant 0x6000 x value
  | addConst x value => constant 0x7000 x value
  | copy x y => pair 0x8000 x y
  | or x y => pair 0x8001 x y
  | and x y => pair 0x8002 x y
  | xor x y => pair 0x8003 x y
  | add x y => pair 0x8004 x y
  | sub x y => pair 0x8005 x y
  | shiftRight x => single 0x8006 x
  | subFrom x y => pair 0x8007 x y
  | shiftLeft x => single 0x800E x
  | skipUnlessSame x y => { pair 0x9000 x y with n := none }
  | setIndex target => address 0xA000 target
  | jumpOffset base => address 0xB000 base
  | random x mask => constant 0xC000 x mask
  | draw x y height => { pair 0xD000 x y with n := some (Word.n height.toUInt16) }
  | skipIfPressed x => single 0xE00E x
  | skipUnlessPressed x => single 0xE001 x
  | readDelay x => constant 0xF000 x 0x07
  | awaitKey x => constant 0xF000 x 0x0A
  | setDelay x => constant 0xF000 x 0x15
  | setSound x => constant 0xF000 x 0x18
  | addIndex x => constant 0xF000 x 0x1E
  | pointGlyph x => constant 0xF000 x 0x29
  | storeDecimal x => constant 0xF000 x 0x33
  | dump x => constant 0xF000 x 0x55
  | load x => constant 0xF000 x 0x65
  | unknown word => exact word

/-- Whether a word stands for an instruction: its operands have room in a word, and a word kept as
unknown has no operation assigned to it. -/
def Encodable (i : Instruction) : Prop :=
  i.OperandsFit ∧ ∀ v, i = unknown v → v.Unassigned

/-! ### From words to patterns -/

/-- Whether a word matches the pattern of an instruction, and has no operation assigned to it if it
is kept as unknown. -/
def StoredAs (i : Instruction) (w : Word) : Prop :=
  i.pattern.Matches w ∧ ∀ v, i = unknown v → v.Unassigned

theorem storedAs_of_known {i : Instruction} {w : Word} (known : ∀ v, i ≠ unknown v)
    (h : i.pattern.Matches w) : i.StoredAs w :=
  ⟨h, fun v unknown => absurd unknown (known v)⟩

theorem storedAs_unknown {w : Word} (h : w.Unassigned) : (unknown w).StoredAs w := by
  refine ⟨Pattern.matches_exact_iff.2 rfl, ?_⟩
  rintro v ⟨⟩
  exact h

theorem storedAs_decodeSystem {w : Word} (family : w.family = 0x0) :
    (decodeSystem w).StoredAs w := by
  unfold decodeSystem
  split
  · next n => exact storedAs_of_known nofun ⟨family, free, free, fixed (Fin.ext n)⟩
  · next n => exact storedAs_of_known nofun ⟨family, free, free, fixed (Fin.ext n)⟩
  · next notClear notRet =>
    exact storedAs_unknown (Or.inl ⟨congrArg Fin.val family, notClear, notRet⟩)

theorem storedAs_decodeArithmetic {w : Word} (family : w.family = 0x8) :
    (decodeArithmetic w).StoredAs w := by
  have digit : w.n.val < 16 := w.n.isLt
  unfold decodeArithmetic
  split
  · next n => exact storedAs_of_known nofun ⟨family, fixed rfl, fixed rfl, fixed (Fin.ext n)⟩
  · next n => exact storedAs_of_known nofun ⟨family, fixed rfl, fixed rfl, fixed (Fin.ext n)⟩
  · next n => exact storedAs_of_known nofun ⟨family, fixed rfl, fixed rfl, fixed (Fin.ext n)⟩
  · next n => exact storedAs_of_known nofun ⟨family, fixed rfl, fixed rfl, fixed (Fin.ext n)⟩
  · next n => exact storedAs_of_known nofun ⟨family, fixed rfl, fixed rfl, fixed (Fin.ext n)⟩
  · next n => exact storedAs_of_known nofun ⟨family, fixed rfl, fixed rfl, fixed (Fin.ext n)⟩
  · next n => exact storedAs_of_known nofun ⟨family, fixed rfl, free, fixed (Fin.ext n)⟩
  · next n => exact storedAs_of_known nofun ⟨family, fixed rfl, fixed rfl, fixed (Fin.ext n)⟩
  · next n => exact storedAs_of_known nofun ⟨family, fixed rfl, free, fixed (Fin.ext n)⟩
  · refine storedAs_unknown (Or.inr (Or.inl ⟨congrArg Fin.val family, ?_⟩))
    simp only [imp_false] at *
    omega

theorem storedAs_decodeKey {w : Word} (family : w.family = 0xE) : (decodeKey w).StoredAs w := by
  unfold decodeKey
  split
  · next n => exact storedAs_of_known nofun ⟨family, fixed rfl, free, fixed (Fin.ext n)⟩
  · next n => exact storedAs_of_known nofun ⟨family, fixed rfl, free, fixed (Fin.ext n)⟩
  · next notUnless notIf =>
    exact storedAs_unknown
      (Or.inr (Or.inr (Or.inl ⟨congrArg Fin.val family, notUnless, notIf⟩)))

theorem storedAs_decodeMisc {w : Word} (family : w.family = 0xF) : (decodeMisc w).StoredAs w := by
  have stored {i : Instruction} {value : UInt8} (known : ∀ v, i ≠ unknown v)
      (pattern : i.pattern = constant 0xF000 w.x value) (kk : w.kk.toNat = value.toNat) :
      i.StoredAs w := by
    refine storedAs_of_known known ?_
    rw [pattern, matches_constant_iff]
    exact ⟨family, rfl, UInt8.toNat_inj.1 kk⟩
  unfold decodeMisc
  split
  · next kk => exact stored nofun rfl kk
  · next kk => exact stored nofun rfl kk
  · next kk => exact stored nofun rfl kk
  · next kk => exact stored nofun rfl kk
  · next kk => exact stored nofun rfl kk
  · next kk => exact stored nofun rfl kk
  · next kk => exact stored nofun rfl kk
  · next kk => exact stored nofun rfl kk
  · next kk => exact stored nofun rfl kk
  · refine storedAs_unknown (Or.inr (Or.inr (Or.inr ⟨congrArg Fin.val family, ?_⟩)))
    simp only [imp_false] at *
    simp only [List.mem_cons, List.not_mem_nil, or_false]
    omega

/-- A decoded word is stored as its instruction. -/
theorem storedAs_decode (w : Word) : (decode w).StoredAs w := by
  have withAddress {i : Instruction} {operation : Word} (known : ∀ v, i ≠ unknown v)
      (pattern : i.pattern = address operation w.nnn)
      (same : w.family.val = operation.family.val) :
      i.StoredAs w := by
    refine storedAs_of_known known ?_
    rw [pattern, matches_address_iff (toNat_nnn_lt w)]
    exact ⟨Fin.ext same, rfl⟩
  have withConstant {i : Instruction} {operation : Word} (known : ∀ v, i ≠ unknown v)
      (pattern : i.pattern = constant operation w.x w.kk)
      (same : w.family.val = operation.family.val) :
      i.StoredAs w := by
    refine storedAs_of_known known ?_
    rw [pattern, matches_constant_iff]
    exact ⟨Fin.ext same, rfl, rfl⟩
  unfold decode
  split
  · next family => exact storedAs_decodeSystem (Fin.ext family)
  · next family => exact withAddress nofun rfl family
  · next family => exact withAddress nofun rfl family
  · next family => exact withConstant nofun rfl family
  · next family => exact withConstant nofun rfl family
  · next family => exact storedAs_of_known nofun ⟨Fin.ext family, fixed rfl, fixed rfl, free⟩
  · next family => exact withConstant nofun rfl family
  · next family => exact withConstant nofun rfl family
  · next family => exact storedAs_decodeArithmetic (Fin.ext family)
  · next family => exact storedAs_of_known nofun ⟨Fin.ext family, fixed rfl, fixed rfl, free⟩
  · next family => exact withAddress nofun rfl family
  · next family => exact withAddress nofun rfl family
  · next family => exact withConstant nofun rfl family
  · next family =>
    have n : w.n = Word.n (UInt8.ofNat w.n).toUInt16 :=
      (Word.height_eq_iff (toNat_height_lt w)).1 rfl
    exact storedAs_of_known nofun ⟨Fin.ext family, fixed rfl, fixed rfl, fixed n⟩
  · next family => exact storedAs_decodeKey (Fin.ext family)
  · have digit : w.family.val < 16 := w.family.isLt
    refine storedAs_decodeMisc (Fin.ext ?_)
    simp only [imp_false] at *
    show w.family.val = 0xF
    omega

/-! ### From patterns to words -/

theorem decode_system {w : Word} (family : w.family = 0x0) : decode w = decodeSystem w := by
  rw [decode, family]
  rfl

theorem decode_arithmetic {w : Word} (family : w.family = 0x8) :
    decode w = decodeArithmetic w := by
  rw [decode, family]
  rfl

theorem decode_key {w : Word} (family : w.family = 0xE) : decode w = decodeKey w := by
  rw [decode, family]
  rfl

theorem decode_misc {w : Word} (family : w.family = 0xF) : decode w = decodeMisc w := by
  rw [decode, family]
  rfl

/-- A word to which no operation is assigned is kept. -/
theorem decode_of_unassigned {w : Word} (h : w.Unassigned) : decode w = unknown w := by
  rcases h with ⟨family, n⟩ | ⟨family, n⟩ | ⟨family, n⟩ | ⟨family, kk⟩
  · rw [decode_system (Fin.ext family)]
    unfold decodeSystem
    split
    case h_3 => rfl
    all_goals omega
  · rw [decode_arithmetic (Fin.ext family)]
    unfold decodeArithmetic
    split
    case h_10 => rfl
    all_goals omega
  · rw [decode_key (Fin.ext family)]
    unfold decodeKey
    split
    case h_3 => rfl
    all_goals omega
  · simp only [List.mem_cons, List.not_mem_nil, or_false] at kk
    rw [decode_misc (Fin.ext family)]
    unfold decodeMisc
    split
    case h_10 => rfl
    all_goals omega

/-- A word that matches the pattern of an encodable instruction is decoded to it. -/
theorem decode_of_matches {i : Instruction} {w : Word} (encodable : i.Encodable)
    (h : i.pattern.Matches w) : decode w = i := by
  obtain ⟨fits, unassigned⟩ := encodable
  -- the instructions of one family, or with operands of one kind, are treated together
  cases i
  case clear | ret =>
    rw [decode_system h.family, decodeSystem, h.n _ rfl]
    rfl
  case jump target | call target | setIndex target | jumpOffset target =>
    obtain ⟨family, rfl⟩ := (matches_address_iff fits).1 h
    rw [decode, family]
    rfl
  case skipIfConst x value | skipUnlessConst x value | setConst x value | addConst x value |
      random x value =>
    obtain ⟨family, rfl, rfl⟩ := matches_constant_iff.1 h
    rw [decode, family]
    rfl
  case skipIfSame x y | skipUnlessSame x y =>
    rw [decode, h.family, h.x _ rfl, h.y _ rfl]
    rfl
  case copy x y | or x y | and x y | xor x y | add x y | sub x y | subFrom x y =>
    rw [decode_arithmetic h.family, decodeArithmetic, h.n _ rfl, h.x _ rfl, h.y _ rfl]
    rfl
  case shiftRight x | shiftLeft x =>
    rw [decode_arithmetic h.family, decodeArithmetic, h.n _ rfl, h.x _ rfl]
    rfl
  case draw x y height =>
    obtain rfl := (Word.height_eq_iff fits).2 (h.n _ rfl)
    rw [decode, h.family, h.x _ rfl, h.y _ rfl]
    rfl
  case skipIfPressed x | skipUnlessPressed x =>
    rw [decode_key h.family, decodeKey, h.n _ rfl, h.x _ rfl]
    rfl
  case readDelay x | awaitKey x | setDelay x | setSound x | addIndex x | pointGlyph x |
      storeDecimal x | dump x | load x =>
    obtain ⟨family, rfl, kk⟩ := matches_constant_iff.1 h
    rw [decode_misc family, decodeMisc, kk]
    rfl
  case unknown word =>
    obtain rfl : w = word := matches_exact_iff.1 h
    exact decode_of_unassigned (unassigned w rfl)

/-! ### What the decoder yields, and from which words -/

/-- A decoded instruction is encodable. -/
theorem encodable_decode (w : Word) : (decode w).Encodable :=
  ⟨operandsFit_decode w, (storedAs_decode w).2⟩

/-- A word is decoded to an instruction exactly if the instruction is encodable and the word matches
its pattern. -/
theorem decode_eq_iff {i : Instruction} {w : Word} :
    decode w = i ↔ i.Encodable ∧ i.pattern.Matches w := by
  constructor
  · rintro rfl
    exact ⟨encodable_decode w, (storedAs_decode w).1⟩
  · rintro ⟨encodable, h⟩
    exact decode_of_matches encodable h

/-- The word that stands for an instruction, with zeros for the digits that are ignored. -/
def encode (i : Instruction) : Word :=
  i.pattern.filled 0

/-- Decoding the word that stands for an instruction gives the instruction back. -/
theorem decode_encode {i : Instruction} (encodable : i.Encodable) : decode i.encode = i :=
  decode_of_matches encodable (i.pattern.matches_filled 0)

/-- A word is kept as unknown exactly if no operation is assigned to it. -/
theorem decode_eq_unknown_iff {v w : Word} :
    decode w = unknown v ↔ w = v ∧ v.Unassigned := by
  constructor
  · intro decoded
    obtain ⟨⟨-, unassigned⟩, h⟩ := decode_eq_iff.1 decoded
    exact ⟨matches_exact_iff.1 h, unassigned v rfl⟩
  · rintro ⟨rfl, unassigned⟩
    exact decode_of_unassigned unassigned

/-- Two words stand for the same instruction exactly if they differ in ignored digits only. -/
theorem decode_eq_decode_iff {v w : Word} : decode v = decode w ↔ v.Synonymous w := by
  constructor
  · intro same
    have hv : (decode w).pattern.Matches v := (decode_eq_iff.1 same).2
    have hw : (decode w).pattern.Matches w := (storedAs_decode w).1
    have family : v.family = w.family := hv.family.trans hw.family.symm
    have digit : v.family.val = (decode w).pattern.family.val := congrArg Fin.val hv.family
    -- only the eight operations with a free digit in their patterns leave a choice
    generalize decode w = i at hv hw digit
    cases i with
    | clear =>
      have last : v.n.val = 0x0 := congrArg Fin.val (hv.n _ rfl)
      exact Or.inr ⟨family, Or.inl ⟨digit, hv.n_eq hw rfl, Or.inl last⟩⟩
    | ret =>
      have last : v.n.val = 0xE := congrArg Fin.val (hv.n _ rfl)
      exact Or.inr ⟨family, Or.inl ⟨digit, hv.n_eq hw rfl, Or.inr last⟩⟩
    | skipIfSame x y =>
      exact Or.inr ⟨family, Or.inr (Or.inl ⟨Or.inl digit, hv.x_eq hw rfl, hv.y_eq hw rfl⟩)⟩
    | skipUnlessSame x y =>
      exact Or.inr ⟨family, Or.inr (Or.inl ⟨Or.inr digit, hv.x_eq hw rfl, hv.y_eq hw rfl⟩)⟩
    | shiftRight x =>
      have last : v.n.val = 0x6 := congrArg Fin.val (hv.n _ rfl)
      exact Or.inr ⟨family, Or.inr (Or.inr (Or.inl
        ⟨digit, hv.n_eq hw rfl, Or.inl last, hv.x_eq hw rfl⟩))⟩
    | shiftLeft x =>
      have last : v.n.val = 0xE := congrArg Fin.val (hv.n _ rfl)
      exact Or.inr ⟨family, Or.inr (Or.inr (Or.inl
        ⟨digit, hv.n_eq hw rfl, Or.inr last, hv.x_eq hw rfl⟩))⟩
    | skipUnlessPressed x =>
      have last : v.n.val = 0x1 := congrArg Fin.val (hv.n _ rfl)
      exact Or.inr ⟨family, Or.inr (Or.inr (Or.inr
        ⟨digit, hv.n_eq hw rfl, Or.inl last, hv.x_eq hw rfl⟩))⟩
    | skipIfPressed x =>
      have last : v.n.val = 0xE := congrArg Fin.val (hv.n _ rfl)
      exact Or.inr ⟨family, Or.inr (Or.inr (Or.inr
        ⟨digit, hv.n_eq hw rfl, Or.inr last, hv.x_eq hw rfl⟩))⟩
    | _ => exact Or.inl (hv.unique hw rfl rfl rfl)
  · rintro (rfl | ⟨family, ⟨digit, n, last⟩ | ⟨digit, x, y⟩ | ⟨digit, n, last, x⟩ |
      ⟨digit, n, last, x⟩⟩)
    · rfl
    · have digit' : w.family = 0x0 := family.symm.trans (Fin.ext digit)
      rw [decode_system (Fin.ext digit), decode_system digit', decodeSystem, decodeSystem, ← n]
      rcases last with last | last <;> simp only [last]
    · rcases digit with digit | digit <;> simp only [decode, ← family, digit, x, y]
    · have digit' : w.family = 0x8 := family.symm.trans (Fin.ext digit)
      rw [decode_arithmetic (Fin.ext digit), decode_arithmetic digit', decodeArithmetic,
        decodeArithmetic, ← n]
      rcases last with last | last <;> simp only [last, x]
    · have digit' : w.family = 0xE := family.symm.trans (Fin.ext digit)
      rw [decode_key (Fin.ext digit), decode_key digit', decodeKey, decodeKey, ← n]
      rcases last with last | last <;> simp only [last, x]

/-- Decoded instructions have operands that fit in a word, registers being digits by their type, and
a word kept as unknown is the word itself.  Conversely every instruction whose operands fit is
decoded from some word, unless it is a word kept as unknown, and such a word is decoded, from itself
alone, exactly if no operation is assigned to it.  Two words are decoded to the same instruction
exactly if they differ in ignored digits only.  The bytes of a program are decoded as the word with
the first of them as its high byte. -/
theorem decode_image_and_fibres :
    (∀ w, (decode w).OperandsFit ∧ ∀ v, decode w = unknown v → v = w) ∧
    (∀ i : Instruction, (∀ v, i ≠ unknown v) → i.OperandsFit → ∃ w, decode w = i) ∧
    (∀ v w, decode w = unknown v ↔ w = v ∧ v.Unassigned) ∧
    (∀ v w, decode v = decode w ↔ v.Synonymous w) ∧
    ∀ high low : UInt8,
      ofBytes high low = decode (UInt16.ofNat (256 * high.toNat + low.toNat)) := by
  refine ⟨?_, ?_, fun v w => decode_eq_unknown_iff, fun v w => decode_eq_decode_iff, ?_⟩
  · intro w
    refine ⟨operandsFit_decode w, ?_⟩
    intro v kept
    exact (decode_eq_unknown_iff.1 kept).1.symm
  · intro i known fits
    exact ⟨i.encode, decode_encode ⟨fits, fun v unknown => absurd unknown (known v)⟩⟩
  · intro high low
    have word : Word.ofBytes high low = UInt16.ofNat (256 * high.toNat + low.toNat) := by
      rw [← Word.toNat_ofBytes, UInt16.ofNat_toNat]
    rw [ofBytes, word]

/-- The highest sprite at `VA` and `VB` is drawn by some word, a shift of `VA` ignores the third
digit while a sum does not, and the word `E0E0` is kept, though `80E0` and `00E0` are operations. -/
theorem decode_image_and_fibres_of_ignored_digit :
    (draw 0xA 0xB 0xF).OperandsFit ∧ (∃ w, decode w = draw 0xA 0xB 0xF) ∧
    Word.Synonymous 0x8AB6 0x8A06 ∧ decode 0x8AB6 = decode 0x8A06 ∧
    decode 0x8AB4 ≠ decode 0x8A04 ∧
    Word.Unassigned 0xE0E0 ∧ decode 0xE0E0 = unknown 0xE0E0 ∧
    decode 0x80E0 ≠ unknown 0x80E0 ∧ decode 0x00E0 = decode 0x0FF0 := by
  obtain ⟨-, onto, kept, fibres, -⟩ := decode_image_and_fibres
  have fits : (draw 0xA 0xB 0xF).OperandsFit := show (0xF : UInt8).toNat < 16 by decide
  have synonymous : Word.Synonymous 0x8AB6 0x8A06 := by decide
  have unassigned : Word.Unassigned 0xE0E0 := by decide
  refine ⟨fits, onto _ nofun fits, synonymous, (fibres _ _).2 synonymous, ?_, unassigned,
    (kept _ _).2 ⟨rfl, unassigned⟩, ?_, (fibres _ _).2 (by decide)⟩
  · intro same
    have apart : ¬ Word.Synonymous 0x8AB4 0x8A04 := by decide
    exact apart ((fibres _ _).1 same)
  · intro same
    have assigned : ¬ Word.Unassigned 0x80E0 := by decide
    exact assigned ((kept _ _).1 same).2

end Instruction

end Chip8
