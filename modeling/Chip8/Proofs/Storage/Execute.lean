import Chip8.Proofs.Storage.Basic

/-!
# Checked execution

`Storage.execute` carries out one instruction on a stored machine, checking every index and every
unsigned sum, difference and product that is not meant to wrap around.  `Storage.cycle` fetches,
advances, executes, and puts the program counter back after a fault; `Storage.perform` does one
action and `Storage.after` a sequence of them, whose replies are listed by `Storage.history`.  A
computation that meets a trap ends there.

The last section says what the operations compute where no index and no number leaves its bounds,
one turn of a loop at a time (`dumpFrom_succ`, `loadFrom_succ`, `drawBits_succ`, `drawRows_succ`).
Statements about stored machines rest on these equations and do not look at the checks again.
-/

namespace Chip8.Storage

variable {ρ : Type}

/-- Draw the sprite of `height` rows at the index with its corner at the values of two registers,
then write the flag. -/
def drawAt (s : Storage ρ) (x y : Register) (height : UInt8) : Checked (Storage ρ) := do
  let vx ← s.reg x
  let vy ← s.reg y
  let drawn ← s.drawRows (vx.toNat % 64) (vy.toNat % 32) 0 height.toNat (s.screen, false)
  setReg { s with screen := drawn.1 } Register.flag drawn.2.toUInt8

/-- Store the hundreds, tens and units of a register at the index. -/
def storeDecimal (s : Storage ρ) (x : Register) : Checked (Storage ρ) := do
  let value ← s.reg x
  let hundreds ← s.write s.index.toNat (value / 100)
  let second ← Checked.add 64 s.index.toNat 1
  let tens ← hundreds.write second (value / 10 % 10)
  let third ← Checked.add 64 s.index.toNat 2
  tens.write third (value % 10)

/-- Let the index point at the glyph of the low digit of a register. -/
def pointGlyph (s : Storage ρ) (x : Register) : Checked (Storage ρ) := do
  let digit ← s.reg x
  let offset ← Checked.mul 16 5 (digit.toNat % 16)
  let address ← Checked.add 16 0x50 offset
  return { s with index := UInt16.ofNat address }

/-- Skip the next instruction if the values of two registers satisfy a condition. -/
def compare (s : Storage ρ) (x y : Register) (condition : UInt8 → UInt8 → Bool) :
    Checked (Storage ρ) := do
  let vx ← s.reg x
  let vy ← s.reg y
  return s.skipIf (condition vx vy)

/-- Skip the next instruction if the value of a register satisfies a condition. -/
def test (s : Storage ρ) (x : Register) (condition : UInt8 → Bool) : Checked (Storage ρ) := do
  let vx ← s.reg x
  return s.skipIf (condition vx)

/-- Store a combination of two registers in the first. -/
def combine (s : Storage ρ) (x y : Register) (result : UInt8 → UInt8 → UInt8) :
    Checked (Storage ρ) := do
  let vx ← s.reg x
  let vy ← s.reg y
  s.setReg x (result vx vy)

/-- Store a combination of two registers in the first, and then its flag. -/
def combineFlagged (s : Storage ρ) (x y : Register) (result : UInt8 → UInt8 → UInt8)
    (flag : UInt8 → UInt8 → Bool) : Checked (Storage ρ) := do
  let vx ← s.reg x
  let vy ← s.reg y
  s.setFlagged x (result vx vy) (flag vx vy)

/-- Add a byte to a register in sixteen bits, store the low byte and then the carry. -/
def addByte (s : Storage ρ) (x : Register) (value : UInt8) : Checked (Storage ρ) := do
  let vx ← s.reg x
  let sum ← Checked.add 16 vx.toNat value.toNat
  s.setFlagged x (UInt8.ofNat sum) (decide (255 < sum))

/-- Go back to the address on top of the call stack. -/
def ret (s : Storage ρ) : Checked (Reply ρ) :=
  if s.depth = 0 then
    return (s, some (.stackUnderflow (s.pc - 2)))
  else finish do
    let depth ← Checked.sub s.depth.toNat 1
    let address ← Checked.get s.slots depth
    return { s with pc := address, depth := UInt8.ofNat depth }

/-- Push the program counter, then continue at an address. -/
def call (s : Storage ρ) (target : UInt16) : Checked (Reply ρ) :=
  if s.depth.toNat = 16 then
    return (s, some (.stackOverflow (s.pc - 2)))
  else finish do
    let slots ← Checked.set s.slots s.depth.toNat s.pc
    let depth ← Checked.add 8 s.depth.toNat 1
    return { s with pc := target, slots := slots, depth := UInt8.ofNat depth }

/-- Carry out one instruction. -/
def execute [ByteSource ρ] (i : Instruction) (s : Storage ρ) : Checked (Reply ρ) :=
  match i with
  | .clear => finish (return { s with screen := Vector.replicate 2048 Frame.dark })
  | .ret => s.ret
  | .jump target => finish (return { s with pc := target })
  | .call target => s.call target
  | .skipIfConst x value => finish (s.test x fun vx => vx == value)
  | .skipUnlessConst x value => finish (s.test x fun vx => vx != value)
  | .skipIfSame x y => finish (s.compare x y fun vx vy => vx == vy)
  | .setConst x value => finish (s.setReg x value)
  | .addConst x value => finish (s.addByte x value)
  | .copy x y => finish (s.combine x y fun _ vy => vy)
  | .or x y => finish (s.combine x y fun vx vy => vx ||| vy)
  | .and x y => finish (s.combine x y fun vx vy => vx &&& vy)
  | .xor x y => finish (s.combine x y fun vx vy => vx ^^^ vy)
  | .add x y => finish do
    let vy ← s.reg y
    s.addByte x vy
  | .sub x y => finish
    (s.combineFlagged x y (fun vx vy => vx - vy) fun vx vy => decide (vy < vx))
  | .shiftRight x => finish
    (s.combineFlagged x x (fun vx _ => vx >>> 1) fun vx _ => vx &&& 1 != 0)
  | .subFrom x y => finish
    (s.combineFlagged x y (fun vx vy => vy - vx) fun vx vy => decide (vx < vy))
  | .shiftLeft x => finish
    (s.combineFlagged x x (fun vx _ => vx <<< 1) fun vx _ => vx >>> 7 != 0)
  | .skipUnlessSame x y => finish (s.compare x y fun vx vy => vx != vy)
  | .setIndex address => finish (return { s with index := address })
  | .jumpOffset base => finish do
    let v0 ← Checked.get s.registers 0
    let target ← Checked.add 16 v0.toNat base.toNat
    return { s with pc := UInt16.ofNat target }
  | .random x mask =>
    let drawn := ByteSource.next s.random
    finish (setReg { s with random := drawn.2 } x (drawn.1 &&& mask))
  | .draw x y height => finish (s.drawAt x y height)
  | .skipIfPressed x => finish (s.test x fun vx => s.isPressed vx)
  | .skipUnlessPressed x => finish (s.test x fun vx => !s.isPressed vx)
  | .readDelay x => finish (s.setReg x s.delay)
  | .awaitKey x => finish (s.awaitKey x)
  | .setDelay x => finish do
    let vx ← s.reg x
    return { s with delay := vx }
  | .setSound x => finish do
    let vx ← s.reg x
    return { s with sound := vx }
  | .addIndex x => finish do
    let vx ← s.reg x
    return { s with index := s.index + vx.toUInt16 }
  | .pointGlyph x => finish (s.pointGlyph x)
  | .storeDecimal x => finish (s.storeDecimal x)
  | .dump x => finish (s.dumpFrom s.index.toNat 0 (x.val + 1))
  | .load x => finish (s.loadFrom s.index.toNat 0 (x.val + 1))
  | .unknown _ => return (s, none)

/-- Fetch and execute one instruction; after a fault the program counter is put back. -/
def cycle [ByteSource ρ] (s : Storage ρ) : Checked (Reply ρ) := do
  let high ← s.read s.pc.toNat
  let second ← Checked.add 64 s.pc.toNat 1
  let low ← s.read second
  let reply ← Storage.execute (.ofBytes high low) { s with pc := s.pc + 2 }
  return if reply.2.isSome then ({ reply.1 with pc := s.pc }, reply.2) else reply

/-- Count both timers down `count` times. -/
def ticks (s : Storage ρ) : Nat → Checked (Storage ρ)
  | 0 => return s
  | count + 1 => do
    let t ← s.ticks count
    let delay ← Checked.countDown t.delay
    let sound ← Checked.countDown t.sound
    return { t with delay := delay, sound := sound }

/-- Do one action. -/
def perform [ByteSource ρ] (s : Storage ρ) : Action → Checked (Reply ρ)
  | .cycle => s.cycle
  | .execute i => s.execute i
  | .ticks count => finish (s.ticks count)
  | .setKeypad keys => finish (return { s with keypad := keys.entries })
  | .setKey k down => finish do
    let keypad ← Checked.set s.keypad k.val down
    return { s with keypad := keypad }
  | .setDelay value => finish (return { s with delay := value })
  | .setSound value => finish (return { s with sound := value })

/-- Do a sequence of actions. -/
def after [ByteSource ρ] (s : Storage ρ) : List Action → Checked (Storage ρ)
  | [] => return s
  | a :: rest => do
    let reply ← s.perform a
    reply.1.after rest

/-- The replies to a sequence of actions. -/
def history [ByteSource ρ] (s : Storage ρ) : List Action → Checked (List (Reply ρ))
  | [] => return []
  | a :: rest => do
    let reply ← s.perform a
    let later ← reply.1.history rest
    return reply :: later

/-! ### What the operations compute -/

/-- Two bytes have a sum in sixteen bits. -/
theorem addByte_eq (s : Storage ρ) (x : Register) (value : UInt8) :
    s.addByte x value = s.setFlagged x (s.registers.get x + value)
      (decide (255 < (s.registers.get x).toNat + value.toNat)) := by
  have left : (s.registers.get x).toNat < 256 := (s.registers.get x).toNat_lt
  have right : value.toNat < 256 := value.toNat_lt
  have sum : Checked.add 16 (s.registers.get x).toNat value.toNat =
      .ok ((s.registers.get x).toNat + value.toNat) := Checked.add_of_lt (by omega)
  simp only [addByte, reg_eq, sum, bind, Except.bind, UInt8.ofNat_add, UInt8.ofNat_toNat]

/-- The address of a glyph is small. -/
theorem pointGlyph_eq (s : Storage ρ) (x : Register) :
    s.pointGlyph x =
      .ok { s with index := UInt16.ofNat (0x50 + 5 * ((s.registers.get x).toNat % 16)) } := by
  have digit : (s.registers.get x).toNat % 16 < 16 := Nat.mod_lt _ (by decide)
  have offset : Checked.mul 16 5 ((s.registers.get x).toNat % 16) =
      .ok (5 * ((s.registers.get x).toNat % 16)) := Checked.mul_of_lt (by omega)
  have address : Checked.add 16 0x50 (5 * ((s.registers.get x).toNat % 16)) =
      .ok (0x50 + 5 * ((s.registers.get x).toNat % 16)) := Checked.add_of_lt (by omega)
  simp only [pointGlyph, reg_eq, offset, address, bind, Except.bind]
  rfl

theorem storeDecimal_eq (s : Storage ρ) (x : Register) :
    s.storeDecimal x =
      s.write s.index.toNat (s.registers.get x / 100) >>= fun hundreds =>
        hundreds.write (s.index.toNat + 1) (s.registers.get x / 10 % 10) >>= fun tens =>
          tens.write (s.index.toNat + 2) (s.registers.get x % 10) := by
  simp only [storeDecimal, reg_eq, Checked.add_word _ (show 1 < 256 by decide),
    Checked.add_word _ (show 2 < 256 by decide)]
  rfl

/-- A dump writes its first register and then the others. -/
theorem dumpFrom_succ (s : Storage ρ) (index : UInt16) {k : Nat} (hk : k < 16) (count : Nat) :
    s.dumpFrom index.toNat k (count + 1) =
      s.write (index.toNat + k) s.registers[k] >>= fun written =>
        written.dumpFrom index.toNat (k + 1) count := by
  simp only [dumpFrom, Checked.get_of_lt _ hk, Checked.add_word index (show k < 256 by omega)]
  rfl

/-- A load replaces its first register and then the others. -/
theorem loadFrom_succ (s : Storage ρ) (index : UInt16) {k : Nat} (hk : k < 16) (count : Nat) :
    s.loadFrom index.toNat k (count + 1) =
      s.setReg ⟨k, hk⟩ (Memory.read ⟨s.memory⟩ (index.toNat + k)) >>= fun loaded =>
        loaded.loadFrom index.toNat (k + 1) count := by
  simp only [loadFrom, setReg, read_eq, Checked.add_word index (show k < 256 by omega),
    Checked.set_of_lt _ hk, bind, Except.bind]
  rfl

/-- One turn of the loop over the bits of a byte: it ends behind the right edge, and else inverts the
cell of a bit that is set. -/
theorem drawBits_succ (byte : UInt8) {x y k : Nat} (hx : x < 64) (hy : y < 32) (hk : k < 8)
    (count : Nat) (drawn : Frame × Bool) :
    drawBits byte x y k (count + 1) drawn =
      if inside : x + k < 64 then
        drawBits byte x y (k + 1) count
          (if byte >>> UInt8.ofNat (7 - k) &&& 1 = 0 then drawn
          else
            (drawn.1.set (y * 64 + (x + k)) (drawn.1[y * 64 + (x + k)] ^^^ Frame.lit),
              drawn.2 || drawn.1[y * 64 + (x + k)] == Frame.lit))
      else .ok drawn := by
  have column : Checked.add 64 x k = .ok (x + k) := Checked.add_of_lt (by omega)
  have shift : Checked.sub 7 k = .ok (7 - k) := Checked.sub_of_le (by omega)
  have bit : Checked.shiftRight byte (7 - k) = .ok (byte >>> UInt8.ofNat (7 - k)) :=
    Checked.shiftRight_of_lt byte (by omega)
  have start : Checked.mul 64 y 64 = .ok (y * 64) := Checked.mul_of_lt (by omega)
  simp only [drawBits, column, shift, bit, bind, Except.bind]
  by_cases inside : x + k < 64
  · have place : Checked.add 64 (y * 64) (x + k) = .ok (y * 64 + (x + k)) :=
      Checked.add_of_lt (by omega)
    have frame : y * 64 + (x + k) < 2048 := by omega
    rw [if_neg (Nat.not_le.2 inside), dif_pos inside]
    split
    · rfl
    · simp only [start, place, Checked.get_of_lt _ frame, Checked.set_of_lt _ frame]
  · rw [if_pos (Nat.not_lt.1 inside), dif_neg inside]
    rfl

/-- One turn of the loop over the rows of a sprite: it ends below the lower edge, and else draws one
byte. -/
theorem drawRows_succ (s : Storage ρ) {x y k : Nat} (hy : y < 32) (hk : k < 256) (count : Nat)
    (drawn : Frame × Bool) :
    s.drawRows x y k (count + 1) drawn =
      if y + k < 32 then
        drawBits (Memory.read ⟨s.memory⟩ (s.index.toNat + k)) x (y + k) 0 8 drawn >>=
          s.drawRows x y (k + 1) count
      else .ok drawn := by
  have line : Checked.add 64 y k = .ok (y + k) := Checked.add_of_lt (by omega)
  simp only [drawRows, line, Checked.add_word s.index hk, read_eq, bind, Except.bind]
  by_cases above : y + k < 32
  · rw [if_neg (Nat.not_le.2 above), if_pos above]
  · rw [if_pos (Nat.not_lt.1 above), if_neg above]
    rfl

/-- A return goes to the address in the uppermost slot in use. -/
theorem ret_of_pos {s : Storage ρ} (used : 0 < s.depth.toNat) (shallow : s.depth.toNat ≤ 16) :
    s.ret = .ok ({ s with
      pc := s.slots[s.depth.toNat - 1]
      depth := UInt8.ofNat (s.depth.toNat - 1) }, none) := by
  have inside : s.depth ≠ 0 := by
    intro zero
    rw [zero] at used
    exact absurd used (by decide)
  have top : s.depth.toNat - 1 < 16 := by omega
  rw [ret, if_neg inside, Checked.sub_of_le used]
  simp only [Checked.get_of_lt _ top, bind, Except.bind]
  rfl

/-- A call uses the lowest slot that is not in use. -/
theorem call_of_lt {s : Storage ρ} (room : s.depth.toNat < 16) (target : UInt16) :
    s.call target = .ok ({ s with
      pc := target
      slots := s.slots.set s.depth.toNat s.pc
      depth := UInt8.ofNat (s.depth.toNat + 1) }, none) := by
  have depth : Checked.add 8 s.depth.toNat 1 = .ok (s.depth.toNat + 1) :=
    Checked.add_of_lt (by omega)
  rw [call, if_neg (Nat.ne_of_lt room), Checked.set_of_lt _ room, depth]
  rfl

/-- A jump with offset goes to a sum that fits in a word. -/
theorem execute_jumpOffset_of_lt [ByteSource ρ] {s : Storage ρ} {base : UInt16} {v0 : UInt8}
    (held : s.reg 0 = .ok v0) (fits : v0.toNat + base.toNat < 65536) :
    s.execute (.jumpOffset base) =
      .ok ({ s with pc := UInt16.ofNat (v0.toNat + base.toNat) }, none) := by
  have read : Checked.get s.registers 0 = .ok v0 := held
  have target : Checked.add 16 v0.toNat base.toNat = .ok (v0.toNat + base.toNat) :=
    Checked.add_of_lt fits
  simp only [execute, read, target, bind, Except.bind]
  rfl

/-- A jump with offset traps if the sum does not fit in a word. -/
theorem execute_jumpOffset_of_overflow [ByteSource ρ] {s : Storage ρ} {base : UInt16}
    {v0 : UInt8} (held : s.reg 0 = .ok v0) (beyond : 65535 < v0.toNat + base.toNat) :
    s.execute (.jumpOffset base) = .error .overflow := by
  have read : Checked.get s.registers 0 = .ok v0 := held
  have target : Checked.add 16 v0.toNat base.toNat = .error .overflow := if_neg (by omega)
  simp only [execute, read, target, bind, Except.bind]
  rfl

end Chip8.Storage
