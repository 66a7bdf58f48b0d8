import Chip8.Clock
import Chip8.Keypad
/-!
# Held keys

A terminal reports that a key was pressed, but not that it was let go. `HeldKeys` therefore counts a
key as held until a timeout has passed since it was last pressed. Only the last press of a key is
remembered, and `snapshot` is the keypad as it is at a given time. With the timeout zero no key is
ever held.
-/

namespace Chip8

/-- When each key was last pressed, and how long it counts as held after that. -/
structure HeldKeys where
  timeout : Nat
  pressedAt : DigitTable (Option Int)
deriving DecidableEq

namespace HeldKeys

/-- No key has been pressed yet. -/
def empty (timeout : Nat) : HeldKeys where
  timeout := timeout
  pressedAt := .const none

/-- Remember that a key was pressed at `time`. -/
def press (h : HeldKeys) (k : Key) (time : Int) : HeldKeys :=
  { h with pressedAt := h.pressedAt.set k (some time) }

/-- Whether a key counts as held at time `now`. -/
def isHeld (h : HeldKeys) (now : Int) (k : Key) : Bool :=
  match h.pressedAt.get k with
  | some time => elapsed time now < h.timeout
  | none => false

/-- The keypad on which the keys held at time `now` are pressed. -/
def snapshot (h : HeldKeys) (now : Int) : Keypad :=
  .ofFn (h.isHeld now)

@[simp] theorem timeout_press (h : HeldKeys) (k : Key) (time : Int) :
    (h.press k time).timeout = h.timeout := rfl

@[simp] theorem isHeld_empty (timeout : Nat) (now : Int) (k : Key) :
    (empty timeout).isHeld now k = false := by
  simp [isHeld, empty]

/-- A press decides whether its key is held and leaves the other keys as they are. -/
theorem isHeld_press (h : HeldKeys) (k l : Key) (time now : Int) :
    (h.press k time).isHeld now l =
      if k = l then decide (elapsed time now < h.timeout) else h.isHeld now l := by
  by_cases e : k = l
  · simp only [isHeld, press, DigitTable.get_set, if_pos e]
    rfl
  · simp only [isHeld, press, DigitTable.get_set, if_neg e]
    rfl

@[simp] theorem get_snapshot (h : HeldKeys) (now : Int) (k : Key) :
    (h.snapshot now).get k = h.isHeld now k := by
  simp [snapshot]

end HeldKeys

end Chip8
