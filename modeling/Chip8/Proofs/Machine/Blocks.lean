import Chip8.Proofs.Storage.Loosened

/-!
# Blocks of registers and decimal digits in memory

Three instructions move bytes between the registers and the block of memory at the index.  A dump
writes the registers up to a given one to consecutive addresses, a load replaces them by what it
finds there, and the decimal digits of a register take up three bytes.  The addresses run over the
end of memory, and a block is short enough not to meet itself there, so each byte lies at an address
of its own.

`dump_load_inverse` says that a load undoes a dump, whatever else happens in between, and that a
dump undoes a load.  `decimal_digits_read_back` says that loading the stored digits gives the number
that was stored.  Both hold for machines and for stored machines, whatever their depth and their
screen.
-/

namespace Chip8

namespace Memory

/-- Writing the byte that is already there changes nothing. -/
theorem write_read (m : Memory) (address : Nat) : m.write address (m.read address) = m := by
  simp [write, read]

/-- Writing back a block that was read changes nothing. -/
theorem writeBlock_readBlock (m : Memory) (address count : Nat) :
    m.writeBlock address (m.readBlock address count) = m := by
  induction count generalizing address with
  | zero => rfl
  | succ count ih => rw [readBlock_succ, writeBlock_cons, write_read, ih]

/-- Whether two memories agree outside the block of `count` bytes at an address. -/
def AgreesOutside (m n : Memory) (address count : Nat) : Prop :=
  ∀ query, (∀ k < count, query % 4096 ≠ (address + k) % 4096) → n.read query = m.read query

theorem agreesOutside_writeBlock (m : Memory) (address : Nat) (bytes : List UInt8) :
    m.AgreesOutside (m.writeBlock address bytes) address bytes.length := by
  intro query outside
  exact m.read_writeBlock_of_forall_ne address query bytes fun k hk => (outside k hk).symm

end Memory

/-- Whether three bytes are the hundreds, the tens and the units of a number. -/
def AreDigitsOf (hundreds tens units : UInt8) (value : Nat) : Prop :=
  hundreds.toNat ≤ 9 ∧ tens.toNat ≤ 9 ∧ units.toNat ≤ 9 ∧
    100 * hundreds.toNat + 10 * tens.toNat + units.toNat = value

namespace Machine

variable {ρ : Type}

/-! ### Dumping and loading registers -/

/-- Memory after the registers up to `x` have been dumped at the index. -/
def dumped (m : Machine ρ) (x : Register) : Memory :=
  m.memory.writeBlock m.index.toNat (m.registers.toList.take (x.val + 1))

/-- The registers after those up to `x` have been loaded from the index. -/
def loaded (m : Machine ρ) (x : Register) : RegisterFile :=
  m.registers.load (m.memory.readBlock m.index.toNat (x.val + 1))

/-- A dump writes as many bytes as there are registers up to `x`. -/
theorem length_dumped (m : Machine ρ) (x : Register) :
    (m.registers.toList.take (x.val + 1)).length = x.val + 1 := by
  have bound := x.isLt
  rw [List.length_take, DigitTable.length_toList]
  omega

/-- Each register that is dumped lies at an address of its own. -/
theorem read_dumped (m : Machine ρ) {x r : Register} (h : r ≤ x) :
    (m.dumped x).read (m.index.toNat + r.val) = m.reg r := by
  have order : r.val ≤ x.val := h
  have length : (m.registers.toList.take (x.val + 1)).length = x.val + 1 := length_dumped m x
  have inside : r.val < (m.registers.toList.take (x.val + 1)).length := by omega
  have fits : (m.registers.toList.take (x.val + 1)).length ≤ 4096 := by omega
  rw [dumped, Memory.read_writeBlock_of_lt _ _ _ fits _ inside, List.getElem_take,
    DigitTable.getElem_toList]
  rfl

/-- A load replaces the registers up to `x` and leaves the others. -/
theorem get_loaded (m : Machine ρ) (x r : Register) :
    (m.loaded x).get r = if r ≤ x then m.memory.read (m.index.toNat + r.val) else m.reg r := by
  rw [loaded, Storage.load_readBlock, DigitTable.get_ofFn]
  have below : 0 ≤ r.val ∧ r.val < 0 + (x.val + 1) ↔ r ≤ x := by
    rw [Fin.le_def]
    omega
  simp only [below]
  rfl

/-- Dumping registers that have just been loaded writes back what was read. -/
theorem dumped_loaded (m : Machine ρ) (x : Register) :
    { m with registers := m.loaded x }.dumped x = m.memory := by
  have block : (m.loaded x).toList.take (x.val + 1) =
      m.memory.readBlock m.index.toNat (x.val + 1) := by
    apply List.ext_getElem
    · rw [Memory.length_readBlock]
      exact length_dumped { m with registers := m.loaded x } x
    · intro k h₁ h₂
      have inside : k < x.val + 1 := by simpa using h₂
      rw [List.getElem_take, DigitTable.getElem_toList, get_loaded, Memory.getElem_readBlock]
      exact if_pos (Fin.le_def.2 (Nat.le_of_lt_succ inside))
  rw [dumped, block, Memory.writeBlock_readBlock]

/-- A load restores the registers that were dumped, if the index and the block at the index are
still the same. -/
theorem get_loaded_of_dumped {m n : Machine ρ} {x : Register} (index : n.index = m.index)
    (block : ∀ k ≤ x.val,
      n.memory.read ((m.index.toNat + k) % 4096) = (m.dumped x).read ((m.index.toNat + k) % 4096))
    (r : Register) : (n.loaded x).get r = if r ≤ x then m.reg r else n.reg r := by
  rw [get_loaded, index]
  by_cases h : r ≤ x
  · have same := block r.val h
    rw [Memory.read_mod, Memory.read_mod] at same
    rw [if_pos h, if_pos h, same, read_dumped m h]
  · rw [if_neg h, if_neg h]

/-! ### Decimal digits -/

/-- Memory after the decimal digits of a register have been stored at the index. -/
def decimalStored (m : Machine ρ) (x : Register) : Memory :=
  m.memory.writeBlock m.index.toNat (decimalDigits (m.reg x))

/-- Loading the stored digits of a register loads its decimal digits. -/
theorem areDigitsOf_loaded (m : Machine ρ) (x : Register) :
    let registers := { m with memory := m.decimalStored x }.loaded 2
    AreDigitsOf (registers.get 0) (registers.get 1) (registers.get 2) (m.reg x).toNat := by
  intro registers
  have digit (k : Nat) (hk : k < (decimalDigits (m.reg x)).length) :
      (m.decimalStored x).read (m.index.toNat + k) = (decimalDigits (m.reg x))[k] :=
    m.memory.read_writeBlock_of_lt m.index.toNat _ (by simp [decimalDigits]) k hk
  have hundreds : registers.get 0 = m.reg x / 100 :=
    (get_loaded _ 2 0).trans (digit 0 (by simp [decimalDigits]))
  have tens : registers.get 1 = m.reg x / 10 % 10 :=
    (get_loaded _ 2 1).trans (digit 1 (by simp [decimalDigits]))
  have units : registers.get 2 = m.reg x % 10 :=
    (get_loaded _ 2 2).trans (digit 2 (by simp [decimalDigits]))
  have byte : (m.reg x).toNat < 256 := (m.reg x).toNat_lt
  simp only [AreDigitsOf, hundreds, tens, units, UInt8.toNat_div, UInt8.toNat_mod,
    UInt8.reduceToNat]
  omega

end Machine

/-- A dump of the registers up to `x` changes memory only, and a load of them changes registers
only; neither moves the index or the program counter.  A dump after a load leaves memory as it was.
A load restores the dumped registers and leaves the others, on every machine with the same index
whose memory still holds the dumped block; all else may have changed in between.  The same is true
of stored machines, whatever their depth and their screen, and both instructions complete. -/
theorem dump_load_inverse {ρ : Type} [ByteSource ρ] (x : Register) :
    (∀ m : Machine ρ, ∃ (memory : Memory) (registers : RegisterFile),
      m.execute (.dump x) = { machine := { m with memory := memory } } ∧
      m.execute (.load x) = { machine := { m with registers := registers } } ∧
      { m with registers := registers }.execute (.dump x) =
        { machine := { m with registers := registers } } ∧
      ∀ n : Machine ρ, n.index = m.index →
        (∀ k ≤ x.val, n.memory.read ((m.index.toNat + k) % 4096) =
          memory.read ((m.index.toNat + k) % 4096)) →
        ∃ restored : RegisterFile,
          n.execute (.load x) = { machine := { n with registers := restored } } ∧
          ∀ r, restored.get r = if r ≤ x then m.reg r else n.reg r) ∧
    ∀ s : Storage ρ, ∃ (memory : Memory) (registers : RegisterFile),
      s.execute (.dump x) = .ok ({ s with memory := memory.cells }, none) ∧
      s.execute (.load x) = .ok ({ s with registers := registers.entries }, none) ∧
      Storage.execute (.dump x) { s with registers := registers.entries } =
        .ok ({ s with registers := registers.entries }, none) ∧
      ∀ t : Storage ρ, t.index = s.index →
        (∀ k ≤ x.val, Memory.read ⟨t.memory⟩ ((s.index.toNat + k) % 4096) =
          memory.read ((s.index.toNat + k) % 4096)) →
        ∃ restored : RegisterFile,
          t.execute (.load x) = .ok ({ t with registers := restored.entries }, none) ∧
          ∀ r, restored.get r =
            if r ≤ x then DigitTable.get ⟨s.registers⟩ r else DigitTable.get ⟨t.registers⟩ r := by
  have writtenBack (m : Machine ρ) :
      { m with registers := m.loaded x }.execute (.dump x) =
        { machine := { m with registers := m.loaded x } } := by
    show Outcome.mk { m with
      registers := m.loaded x
      memory := { m with registers := m.loaded x }.dumped x } none [] = _
    rw [m.dumped_loaded x]
  refine ⟨?_, ?_⟩
  · intro m
    refine ⟨m.dumped x, m.loaded x, rfl, rfl, writtenBack m, ?_⟩
    intro n index block
    exact ⟨n.loaded x, rfl, Machine.get_loaded_of_dumped index block⟩
  · intro s
    obtain ⟨m, depth, screen, rfl⟩ := s.exists_machine_loosened
    have completes (n : Machine ρ) (depth : UInt8) (screen : Frame) {i : Instruction}
        (h : i.transfers) := Storage.execute_storage_loosened n depth screen h
    refine ⟨m.dumped x, m.loaded x, completes m depth screen rfl, completes m depth screen rfl,
      ?_, ?_⟩
    · have back := completes { m with registers := m.loaded x } depth screen (i := .dump x) rfl
      rw [writtenBack m] at back
      exact back
    · intro t index block
      obtain ⟨n, depth', screen', rfl⟩ := t.exists_machine_loosened
      exact ⟨n.loaded x, completes n depth' screen' rfl,
        Machine.get_loaded_of_dumped index block⟩

/-- Three registers that were dumped from the last cell of memory on come back after `V0`, `V3`, the
delay timer and the cell behind the block have changed, while `V3` keeps its new value.  The same
happens on a stored machine whose depth is no depth of a call stack and whose screen holds cells
that are neither lit nor dark. -/
theorem dump_load_inverse_of_wrapped_block :
    let m : Machine CyclicSource :=
      { Machine.fresh [] (CyclicSource.ofPattern [7]) with
        index := 0xFFFF
        registers := (RegisterFile.zero.set 0 7).set 2 9 }
    let s := m.storage.loosened 200 (Vector.replicate 2048 5)
    ∃ memory : Memory,
      m.execute (.dump 2) = { machine := { m with memory := memory } } ∧
      let n : Machine CyclicSource :=
        { m with
          memory := memory.write 2 1
          registers := (RegisterFile.zero.set 0 1).set 3 5
          delay := 40 }
      let t := n.storage.loosened 100 (Vector.replicate 2048 6)
      n.index = m.index ∧
      (∀ k ≤ 2, n.memory.read ((m.index.toNat + k) % 4096) =
        memory.read ((m.index.toNat + k) % 4096)) ∧
      (∃ restored : RegisterFile,
        n.execute (.load 2) = { machine := { n with registers := restored } } ∧
        restored.get 0 = 7 ∧ restored.get 2 = 9 ∧ restored.get 3 = 5) ∧
      ∃ written : Memory, s.execute (.dump 2) = .ok ({ s with memory := written.cells }, none) ∧
        ∃ restored : RegisterFile,
          Storage.execute (.load 2) { t with memory := written.cells } =
            .ok ({ t with memory := written.cells, registers := restored.entries }, none) ∧
          restored.get 0 = 7 ∧ restored.get 3 = 5 := by
  intro m s
  obtain ⟨onMachine, onStorage⟩ := dump_load_inverse (ρ := CyclicSource) 2
  obtain ⟨memory, -, dumped, -, -, restores⟩ := onMachine m
  obtain ⟨written, -, dumped', -, -, restores'⟩ := onStorage s
  refine ⟨memory, dumped, ?_⟩
  intro n t
  have block : ∀ k ≤ 2, n.memory.read ((m.index.toNat + k) % 4096) =
      memory.read ((m.index.toNat + k) % 4096) := by
    intro k hk
    have index : m.index.toNat = 65535 := rfl
    show (memory.write 2 1).read _ = _
    rw [Memory.read_write, if_neg (by omega)]
  obtain ⟨restored, loaded, values⟩ := restores n rfl block
  obtain ⟨restored', loaded', values'⟩ :=
    restores' { t with memory := written.cells } rfl fun k hk => rfl
  exact ⟨rfl, block, ⟨restored, loaded, values 0, values 2, values 3⟩, written, dumped', restored',
    loaded', values' 0, values' 3⟩

/-- Storing the decimal digits of a register changes only the three cells at the index, and loading
three registers then changes only `V0`, `V1` and `V2`; they hold the digits of the value that the
register had, also if it is one of them.  Neither instruction moves the index or the program
counter.  The same is true of stored machines, whatever their depth and their screen, and both
instructions complete. -/
theorem decimal_digits_read_back {ρ : Type} [ByteSource ρ] (x : Register) :
    (∀ m : Machine ρ, ∃ (memory : Memory) (registers : RegisterFile),
      m.execute (.storeDecimal x) = { machine := { m with memory := memory } } ∧
      { m with memory := memory }.execute (.load 2) =
        { machine := { m with memory := memory, registers := registers } } ∧
      AreDigitsOf (registers.get 0) (registers.get 1) (registers.get 2) (m.reg x).toNat ∧
      m.memory.AgreesOutside memory m.index.toNat 3 ∧
      ∀ r, 2 < r → registers.get r = m.reg r) ∧
    ∀ s : Storage ρ, ∃ (memory : Memory) (registers : RegisterFile),
      s.execute (.storeDecimal x) = .ok ({ s with memory := memory.cells }, none) ∧
      Storage.execute (.load 2) { s with memory := memory.cells } =
        .ok ({ s with memory := memory.cells, registers := registers.entries }, none) ∧
      AreDigitsOf (registers.get 0) (registers.get 1) (registers.get 2)
        (DigitTable.get ⟨s.registers⟩ x).toNat ∧
      Memory.AgreesOutside ⟨s.memory⟩ memory s.index.toNat 3 ∧
      ∀ r, 2 < r → registers.get r = DigitTable.get ⟨s.registers⟩ r := by
  have above (m : Machine ρ) (r : Register) (h : 2 < r) :
      ({ m with memory := m.decimalStored x }.loaded 2).get r = m.reg r := by
    rw [Machine.get_loaded, if_neg (Fin.not_le.2 h)]
    rfl
  have outside (m : Machine ρ) :
      m.memory.AgreesOutside (m.decimalStored x) m.index.toNat 3 :=
    m.memory.agreesOutside_writeBlock m.index.toNat (Machine.decimalDigits (m.reg x))
  refine ⟨?_, ?_⟩
  · intro m
    exact ⟨m.decimalStored x, _, rfl, rfl, m.areDigitsOf_loaded x, outside m, above m⟩
  · intro s
    obtain ⟨m, depth, screen, rfl⟩ := s.exists_machine_loosened
    have value (r : Register) :
        DigitTable.get ⟨(m.storage.loosened depth screen).registers⟩ r = m.reg r := rfl
    let n : Machine ρ := { m with memory := m.decimalStored x }
    have stored : (m.storage.loosened depth screen).execute (.storeDecimal x) =
        .ok (n.storage.loosened depth screen, none) :=
      Storage.execute_storage_loosened m depth screen rfl
    have loaded : (n.storage.loosened depth screen).execute (.load 2) =
        .ok ({ n with registers := n.loaded 2 }.storage.loosened depth screen, none) :=
      Storage.execute_storage_loosened n depth screen rfl
    simp only [value]
    exact ⟨m.decimalStored x, n.loaded 2, stored, loaded, m.areDigitsOf_loaded x, outside m,
      above m⟩

/-- The digits of 254 in `V1` are stored in the last two cells of memory and the first, and loaded
to `V0`, `V1` and `V2`; the cell behind them and `V3` stay. -/
theorem decimal_digits_read_back_at_end_of_memory :
    let m : Machine CyclicSource :=
      { Machine.fresh [] (CyclicSource.ofPattern [7]) with
        index := 0xFFFE
        registers := (RegisterFile.zero.set 1 254).set 3 5 }
    ∃ (memory : Memory) (registers : RegisterFile),
      m.execute (.storeDecimal 1) = { machine := { m with memory := memory } } ∧
      { m with memory := memory }.execute (.load 2) =
        { machine := { m with memory := memory, registers := registers } } ∧
      (registers.get 0).toNat = 2 ∧ (registers.get 1).toNat = 5 ∧ (registers.get 2).toNat = 4 ∧
      memory.read 1 = m.memory.read 1 ∧ registers.get 3 = 5 := by
  intro m
  obtain ⟨onMachine, -⟩ := decimal_digits_read_back (ρ := CyclicSource) 1
  obtain ⟨memory, registers, stored, loaded, ⟨hundreds, tens, units, sum⟩, outside, above⟩ :=
    onMachine m
  have value : (m.reg 1).toNat = 254 := by decide
  have index : m.index.toNat = 65534 := rfl
  refine ⟨memory, registers, stored, loaded, by omega, by omega, by omega, outside 1 ?_,
    above 3 (by decide)⟩
  intro k hk
  omega

end Chip8
