/-!
# The call stack

`CallStack` has sixteen slots for return addresses and a depth, the number of slots in use.
Popping an address lowers the depth and leaves the slot as it is, so the slots above the depth may
hold addresses of earlier calls. `push?` and `pop?` refuse to leave the bounds, and the bound on
the depth is part of the type. The list `live` of the addresses in use, lowest first, is the view
through which the operations are understood: `live_push?` and `live_pop?`.
-/

namespace Chip8

/-- Sixteen slots for return addresses, of which the first `depth` are in use. -/
structure CallStack where
  slots : Vector UInt16 16
  depth : Nat
  depth_le : depth ≤ 16 := by decide
deriving DecidableEq

namespace CallStack

/-- The stack without a pending call. -/
def empty : CallStack where
  slots := Vector.replicate 16 0
  depth := 0

/-- Put an address on top, unless all slots are in use. -/
def push? (s : CallStack) (address : UInt16) : Option CallStack :=
  if h : s.depth < 16 then
    some { slots := s.slots.set s.depth address h, depth := s.depth + 1, depth_le := h }
  else none

/-- Take the address on top, unless no slot is in use. -/
def pop? (s : CallStack) : Option (UInt16 × CallStack) :=
  if h : 0 < s.depth then
    have top : s.depth - 1 < 16 := by have := s.depth_le; omega
    some (s.slots[s.depth - 1],
      { slots := s.slots, depth := s.depth - 1, depth_le := Nat.le_of_lt top })
  else none

/-- The addresses in use, the one on top last. -/
def live (s : CallStack) : List UInt16 :=
  s.slots.toList.take s.depth

@[simp] theorem length_live (s : CallStack) : s.live.length = s.depth := by
  have := s.depth_le
  simp [live]
  omega

/-- A push fails exactly when all slots are in use. -/
theorem push?_eq_none_iff {s : CallStack} {address : UInt16} :
    s.push? address = none ↔ s.depth = 16 := by
  have := s.depth_le
  simp only [push?]
  split <;> simp <;> omega

/-- A pop fails exactly when no slot is in use. -/
theorem pop?_eq_none_iff {s : CallStack} : s.pop? = none ↔ s.depth = 0 := by
  simp only [pop?]
  split <;> simp <;> omega

/-- A push puts the address behind those in use. -/
theorem live_push? {s t : CallStack} {address : UInt16} (h : s.push? address = some t) :
    t.live = s.live ++ [address] := by
  simp only [push?] at h
  split at h
  · next free =>
    obtain rfl := Option.some.inj h
    apply List.ext_getElem <;> simp only [live, Vector.toList_set]
    · simp
      omega
    · intro i h₁ h₂
      simp only [List.getElem_take, List.getElem_set, List.getElem_append]
      have : i < s.depth + 1 := by simp at h₁; omega
      split
      · next eq =>
        rw [dif_neg] <;> simp
        omega
      · next ne =>
        rw [dif_pos]
        simp
        omega
  · cases h

/-- A pop takes the last of the addresses in use. -/
theorem live_pop? {s t : CallStack} {address : UInt16} (h : s.pop? = some (address, t)) :
    s.live = t.live ++ [address] := by
  simp only [pop?] at h
  split at h
  · next pos =>
    obtain ⟨rfl, rfl⟩ := Prod.mk.inj (Option.some.inj h)
    have := s.depth_le
    simp only [live]
    rw [← Vector.getElem_toList, List.take_append_getElem, Nat.sub_add_cancel pos]
    simp
    omega
  · cases h

end CallStack

end Chip8
