import Chip8.DigitTable
/-!
# The keypad

`Keypad` says for each of the sixteen keys whether it is pressed. A program asks for a key by a
byte; a byte above fifteen names no key, and `isPressed` answers `false` for it. `lowest?` is the
pressed key with the smallest number, the one that a program waiting for a key receives.
-/

namespace Chip8

/-- The name of one of the sixteen keys. -/
abbrev Key := Fin 16

/-- The key with a number, if there is one. -/
def Key.ofNat? (n : Nat) : Option Key :=
  if h : n < 16 then some ⟨n, h⟩ else none

/-- A number names a key exactly if it is below sixteen. -/
theorem Key.ofNat?_eq_some_iff {n : Nat} {k : Key} : Key.ofNat? n = some k ↔ n = k.val := by
  simp only [Key.ofNat?]
  split
  · next h => simp [Fin.ext_iff]
  · next h =>
    have := k.isLt
    simp
    omega

/-- Which of the sixteen keys are pressed. -/
abbrev Keypad := DigitTable Bool

namespace Keypad

/-- No key is pressed. -/
def released : Keypad :=
  .const false

/-- The keypad on which exactly the given keys are pressed. -/
def ofKeys (keys : List Key) : Keypad :=
  .ofFn fun k => keys.contains k

/-- The pressed keys in ascending order. -/
def keys (p : Keypad) : List Key :=
  (List.finRange 16).filter p.get

/-- Whether the key named by a byte is pressed. -/
def isPressed (p : Keypad) (name : UInt8) : Bool :=
  match Key.ofNat? name.toNat with
  | some k => p.get k
  | none => false

/-- The pressed key with the smallest number. -/
def lowest? (p : Keypad) : Option Key :=
  (List.finRange 16).find? p.get

@[simp] theorem get_released (k : Key) : released.get k = false := by
  simp [released]

@[simp] theorem get_ofKeys (keys : List Key) (k : Key) :
    (ofKeys keys).get k = keys.contains k := by
  simp [ofKeys]

/-- The listed keys are the pressed ones. -/
theorem mem_keys {p : Keypad} {k : Key} : k ∈ p.keys ↔ p.get k = true := by
  simp [keys]

/-- A byte above fifteen names no key. -/
theorem isPressed_of_le {p : Keypad} {name : UInt8} (h : 16 ≤ name.toNat) :
    p.isPressed name = false := by
  simp [isPressed, Key.ofNat?, Nat.not_lt.2 h]

/-- There is no lowest key exactly when none is pressed. -/
theorem lowest?_eq_none_iff {p : Keypad} : p.lowest? = none ↔ ∀ k, p.get k = false := by
  simp [lowest?]

end Keypad

end Chip8
