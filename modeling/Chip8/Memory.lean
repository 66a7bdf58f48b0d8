/-!
# Memory

`Memory` is a store of 4096 bytes. An address is a natural number and is taken modulo 4096, so
every address names a cell and a block may run over the end of memory into its beginning. `read`
and `write` handle one byte, `readBlock` and `writeBlock` handle consecutive bytes.

The small lemmas say what a write does to a later read: `read_write` for one byte, and
`read_writeBlock_of_lt` and `read_writeBlock_of_forall_ne` inside and outside a block.
-/

namespace Chip8

/-- The 4096 bytes of the machine. -/
structure Memory where
  cells : Vector UInt8 4096
deriving DecidableEq

namespace Memory

/-- The number of cells. -/
def size : Nat := 4096

/-- The cell named by an address. -/
def cell (address : Nat) : Fin 4096 :=
  ⟨address % 4096, Nat.mod_lt _ (by decide)⟩

/-- The memory in which every byte is zero. -/
def zero : Memory where
  cells := Vector.replicate 4096 0

/-- The byte at an address. -/
def read (m : Memory) (address : Nat) : UInt8 :=
  m.cells[cell address]

/-- Replace the byte at an address. -/
def write (m : Memory) (address : Nat) (byte : UInt8) : Memory where
  cells := m.cells.set (cell address).val byte (cell address).isLt

/-- The `count` bytes from an address on. -/
def readBlock (m : Memory) (address count : Nat) : List UInt8 :=
  (List.range count).map fun offset => m.read (address + offset)

/-- Replace consecutive bytes, the first of them at `address`. -/
def writeBlock (m : Memory) (address : Nat) : List UInt8 → Memory
  | [] => m
  | byte :: rest => (m.write address byte).writeBlock (address + 1) rest

/-- An address counts modulo the size of memory. -/
theorem read_mod (m : Memory) (address : Nat) : m.read (address % 4096) = m.read address := by
  simp [read, cell]

@[simp] theorem read_zero (address : Nat) : zero.read address = 0 := by
  simp [zero, read]

/-- A write changes the addressed cell and no other. -/
theorem read_write (m : Memory) (address query : Nat) (byte : UInt8) :
    (m.write address byte).read query =
      if address % 4096 = query % 4096 then byte else m.read query := by
  simp [read, write, cell, Vector.getElem_set]

@[simp] theorem length_readBlock (m : Memory) (address count : Nat) :
    (m.readBlock address count).length = count := by
  simp [readBlock]

@[simp] theorem getElem_readBlock (m : Memory) (address count k : Nat)
    (h : k < (m.readBlock address count).length) :
    (m.readBlock address count)[k] = m.read (address + k) := by
  simp [readBlock]

@[simp] theorem writeBlock_nil (m : Memory) (address : Nat) : m.writeBlock address [] = m := rfl

theorem writeBlock_cons (m : Memory) (address : Nat) (byte : UInt8) (rest : List UInt8) :
    m.writeBlock address (byte :: rest) = (m.write address byte).writeBlock (address + 1) rest :=
  rfl

/-- A block leaves the cells that none of its addresses names. -/
theorem read_writeBlock_of_forall_ne (m : Memory) (address query : Nat) (bytes : List UInt8)
    (outside : ∀ k < bytes.length, (address + k) % 4096 ≠ query % 4096) :
    (m.writeBlock address bytes).read query = m.read query := by
  induction bytes generalizing m address with
  | nil => rfl
  | cons byte rest ih =>
    rw [writeBlock_cons, ih, read_write, if_neg]
    · simpa using outside 0 (by simp)
    · intro k hk
      have h := outside (k + 1) (by simpa using hk)
      rwa [Nat.add_right_comm, Nat.add_assoc] at *

/-- A block no longer than memory puts each of its bytes at its own address. -/
theorem read_writeBlock_of_lt (m : Memory) (address : Nat) (bytes : List UInt8)
    (fits : bytes.length ≤ 4096) (k : Nat) (hk : k < bytes.length) :
    (m.writeBlock address bytes).read (address + k) = bytes[k] := by
  induction bytes generalizing m address k with
  | nil => simp at hk
  | cons byte rest ih =>
    simp only [List.length_cons] at fits hk
    rw [writeBlock_cons]
    cases k with
    | zero =>
      rw [read_writeBlock_of_forall_ne, Nat.add_zero, read_write, if_pos rfl]
      · rfl
      · intro j hj
        omega
    | succ k =>
      rw [show address + (k + 1) = address + 1 + k by omega]
      exact ih _ _ (by omega) k (by omega)

end Memory

end Chip8
