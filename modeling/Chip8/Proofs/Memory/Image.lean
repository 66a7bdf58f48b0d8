import Chip8.Proofs.Storage.Agreement

/-!
# The image of a program and the bytes written over it

Memory begins as the image of a program: the font, the program, and zeros everywhere else.  Writes
to addresses of 64 bits go over it, each into the cell that its address names modulo 4096.

`read_writeBlock` describes a block that does not run over the end of memory byte by byte, and
`isImageByte_read_image` puts the two blocks of an image together.  `read_afterWrites_of_last` and
`read_afterWrites_of_not_hits` say what a succession of writes does to a later read: the last
write to the cell decides, and without one the cell keeps its byte.

The main statement is `Storage.reads_last_write_or_image`, about plain arrays with checked
operations: loading succeeds exactly for programs of at most 3584 bytes, no write and no read
leaves the memory, and every read gives the byte of the last write to its cell, or else the byte
of the image.
-/

namespace Chip8

namespace Memory

/-! ### The image of a program -/

/-- A block that does not run over the end of memory fills the cells from its address on and
leaves the others. -/
theorem read_writeBlock (m : Memory) {place : Nat} {bytes : List UInt8}
    (room : place + bytes.length ≤ 4096) (address : Nat) :
    (m.writeBlock place bytes).read address =
      if place ≤ address % 4096 then (bytes[address % 4096 - place]?).getD (m.read address)
      else m.read address := by
  have inside : address % 4096 < 4096 := Nat.mod_lt _ (by decide)
  by_cases covered : place ≤ address % 4096 ∧ address % 4096 - place < bytes.length
  · obtain ⟨behind, short⟩ := covered
    have stored := read_writeBlock_of_lt m place bytes (by omega) (address % 4096 - place) short
    rw [Nat.add_sub_cancel' behind, read_mod] at stored
    rw [if_pos behind, stored, List.getElem?_eq_getElem short, Option.getD_some]
  · have left : (m.writeBlock place bytes).read address = m.read address := by
      refine read_writeBlock_of_forall_ne m place address bytes fun k hk => ?_
      rw [Nat.mod_eq_of_lt (by omega)]
      omega
    rw [left]
    split
    · next behind =>
      rw [List.getElem?_eq_none (by omega), Option.getD_none]
    · rfl

/-- `IsImageByte program a byte` says that the image of a program holds a byte in the cell `a`. -/
structure IsImageByte (program : List UInt8) (a : Nat) (byte : UInt8) : Prop where
  glyph : 0x50 ≤ a → a < 0xA0 → font[a - 0x50]? = some byte
  code : 0x200 ≤ a → a < 0x200 + program.length → program[a - 0x200]? = some byte
  rest : a < 0x50 ∨ 0xA0 ≤ a ∧ a < 0x200 ∨ 0x200 + program.length ≤ a → byte = 0

/-- The image of a program that fits holds the font, the program, and zeros everywhere else. -/
theorem isImageByte_read_image {program : List UInt8} (fits : program.length ≤ 3584)
    (address : Nat) : IsImageByte program (address % 4096) ((image program).read address) := by
  have fontRoom : fontStart + font.length ≤ 4096 := by decide
  have programRoom : programStart + program.length ≤ 4096 := by
    unfold programStart
    omega
  unfold image
  rw [read_writeBlock _ programRoom, read_writeBlock _ fontRoom, read_zero]
  unfold programStart fontStart
  have size : font.length = 80 := length_font
  constructor
  · intro first last
    have short : address % 4096 - 0x50 < font.length := by omega
    rw [if_neg (by omega), if_pos first, List.getElem?_eq_getElem short, Option.getD_some]
  · intro first last
    have short : address % 4096 - 0x200 < program.length := by omega
    rw [if_pos first, List.getElem?_eq_getElem short, Option.getD_some]
  · rintro (low | between | high)
    · rw [if_neg (by omega), if_neg (by omega)]
    · rw [if_neg (by omega), if_pos (by omega), List.getElem?_eq_none (by omega), Option.getD_none]
    · rw [if_pos (by omega), List.getElem?_eq_none (by omega), if_pos (by omega),
        List.getElem?_eq_none (by omega), Option.getD_none, Option.getD_none]

/-! ### Successions of writes -/

/-- A byte and the address of 64 bits to which it is written. -/
structure Write where
  address : UInt64
  byte : UInt8
deriving DecidableEq

/-- Whether a write goes to the cell that an address names. -/
def Write.Hits (w : Write) (address : UInt64) : Prop :=
  w.address.toNat % 4096 = address.toNat % 4096

instance (w : Write) (address : UInt64) : Decidable (w.Hits address) :=
  inferInstanceAs (Decidable (_ = _))

/-- A write that misses the cell of an address leaves its byte. -/
theorem read_write_of_not_hits (m : Memory) {w : Write} {address : UInt64}
    (misses : ¬ w.Hits address) :
    (m.write w.address.toNat w.byte).read address.toNat = m.read address.toNat := by
  unfold Write.Hits at misses
  rw [read_write, if_neg misses]

/-- A write that hits the cell of an address stores its byte there. -/
theorem read_write_of_hits (m : Memory) {w : Write} {address : UInt64} (hits : w.Hits address) :
    (m.write w.address.toNat w.byte).read address.toNat = w.byte := by
  unfold Write.Hits at hits
  rw [read_write, if_pos hits]

/-- The memory after a succession of writes. -/
def afterWrites (m : Memory) (writes : List Write) : Memory :=
  writes.foldl (fun m w => m.write w.address.toNat w.byte) m

@[simp] theorem afterWrites_nil (m : Memory) : m.afterWrites [] = m := rfl

@[simp] theorem afterWrites_cons (m : Memory) (w : Write) (rest : List Write) :
    m.afterWrites (w :: rest) = (m.write w.address.toNat w.byte).afterWrites rest := rfl

theorem afterWrites_append (m : Memory) (earlier later : List Write) :
    m.afterWrites (earlier ++ later) = (m.afterWrites earlier).afterWrites later :=
  List.foldl_append

/-- A cell that no write hits keeps its byte. -/
theorem read_afterWrites_of_not_hits {m : Memory} {writes : List Write} {address : UInt64}
    (misses : ∀ w ∈ writes, ¬ w.Hits address) :
    (m.afterWrites writes).read address.toNat = m.read address.toNat := by
  induction writes generalizing m with
  | nil => rfl
  | cons w rest ih =>
    have later : ∀ v ∈ rest, ¬ v.Hits address := fun v hv => misses v (List.mem_cons_of_mem w hv)
    rw [afterWrites_cons, ih later, read_write_of_not_hits m (misses w List.mem_cons_self)]

/-- The last write that hits a cell decides which byte it holds. -/
theorem read_afterWrites_of_last {m : Memory} {earlier later : List Write} {w : Write}
    {address : UInt64} (hits : w.Hits address) (last : ∀ v ∈ later, ¬ v.Hits address) :
    (m.afterWrites (earlier ++ w :: later)).read address.toNat = w.byte := by
  rw [afterWrites_append, afterWrites_cons, read_afterWrites_of_not_hits last,
    read_write_of_hits _ hits]

end Memory

/-- Loading fails exactly for the programs that do not fit, with their size. -/
theorem Machine.boot_eq_error_iff {ρ : Type} {program : List UInt8} {random : ρ}
    {cause : Failure} :
    Machine.boot program random = .error cause ↔
      3584 < program.length ∧ cause = .programTooLarge program.length := by
  by_cases fits : program.length ≤ 3584
  · rw [Machine.boot_eq_ok_iff.2 ⟨fits, rfl⟩]
    simp [Nat.not_lt.2 fits]
  · have large : ¬ program.length ≤ Memory.capacity := fits
    rw [Machine.boot, if_neg large]
    simp [Nat.lt_of_not_le fits, eq_comm]

namespace Storage

variable {ρ : Type}

/-- Write a succession of bytes. -/
def afterWrites (s : Storage ρ) : List Memory.Write → Checked (Storage ρ)
  | [] => return s
  | w :: rest => do
    let written ← s.write w.address.toNat w.byte
    written.afterWrites rest

/-- Checked writes to a stored machine agree with the plain ones, and none of them traps. -/
theorem afterWrites_storage (m : Machine ρ) (writes : List Memory.Write) :
    m.storage.afterWrites writes =
      .ok { m with memory := m.memory.afterWrites writes }.storage := by
  induction writes generalizing m with
  | nil => rfl
  | cons w rest ih =>
    simp only [afterWrites, write_storage, bind, Except.bind]
    exact ih { m with memory := m.memory.write w.address.toNat w.byte }

/-- Checked loading succeeds exactly if plain loading does. -/
theorem boot_eq_ok_iff {program : List UInt8} {random : ρ} {s : Storage ρ} :
    boot program random = .ok (.ok s) ↔
      ∃ m, Machine.boot program random = .ok m ∧ s = m.storage := by
  constructor
  · exact exists_boot_of_boot
  · rintro ⟨m, loaded, rfl⟩
    rw [boot_eq, loaded]
    rfl

/-- Checked loading fails exactly if plain loading does, and for the same cause. -/
theorem boot_eq_error_iff {program : List UInt8} {random : ρ} {cause : Failure} :
    boot program random = .ok (.error cause) ↔ Machine.boot program random = .error cause := by
  rw [boot_eq]
  cases Machine.boot program random with
  | ok m => simp [Except.map]
  | error other => simp [Except.map]

/-- Loading succeeds exactly for the programs of at most 3584 bytes, and else fails with the size
of the program and that bound.  Over the image of a loaded program any bytes can be written to any
addresses, and every read completes: it gives the byte of the last write to the cell that its
address names, or, if there is none, the byte of the image.  The checked arrays hold what the plain
memory holds. -/
theorem reads_last_write_or_image (program : List UInt8) (random : ρ) :
    ((∃ s, boot program random = .ok (.ok s)) ↔ program.length ≤ 3584) ∧
    (∀ cause, boot program random = .ok (.error cause) ↔
      3584 < program.length ∧ cause = .programTooLarge program.length) ∧
    (Memory.capacity = 3584 ∧ ∀ size : Nat, (Failure.programTooLarge size).details =
      s!"RomTooLarge \x7b size: {size}, max: {Memory.capacity} \x7d") ∧
    ∀ s, boot program random = .ok (.ok s) → ∀ writes, ∃ m t,
      Machine.boot program random = .ok m ∧
      s.afterWrites writes = .ok t ∧
      t = { m with memory := m.memory.afterWrites writes }.storage ∧
      ∀ address : UInt64, ∃ byte,
        t.read address.toNat = .ok byte ∧
        (m.memory.afterWrites writes).read address.toNat = byte ∧
        (∀ earlier w later, writes = earlier ++ w :: later → w.Hits address →
          (∀ v ∈ later, ¬ v.Hits address) → byte = w.byte) ∧
        ((∀ w ∈ writes, ¬ w.Hits address) →
          Memory.IsImageByte program (address.toNat % 4096) byte) := by
  refine ⟨?_, ?_, ⟨rfl, fun _ => rfl⟩, ?_⟩
  · constructor
    · rintro ⟨s, booted⟩
      obtain ⟨m, loaded, -⟩ := boot_eq_ok_iff.1 booted
      exact (Machine.boot_eq_ok_iff.1 loaded).1
    · intro fits
      exact ⟨_, boot_eq_ok_iff.2 ⟨_, Machine.boot_eq_ok_iff.2 ⟨fits, rfl⟩, rfl⟩⟩
  · intro cause
    rw [boot_eq_error_iff, Machine.boot_eq_error_iff]
  · intro s booted writes
    obtain ⟨m, loaded, rfl⟩ := boot_eq_ok_iff.1 booted
    obtain ⟨fits, rfl⟩ := Machine.boot_eq_ok_iff.1 loaded
    refine ⟨Machine.fresh program random, _, loaded, afterWrites_storage _ writes, rfl, ?_⟩
    intro address
    refine ⟨_, read_storage _ _, rfl, ?_, ?_⟩
    · rintro earlier w later rfl hits last
      exact Memory.read_afterWrites_of_last hits last
    · intro misses
      have kept := Memory.read_afterWrites_of_not_hits (m := Memory.image program) misses
      have image := Memory.isImageByte_read_image fits address.toNat
      rwa [← kept] at image

/-- A program that fills memory to its end, with two writes to the last cell under different
addresses and one into the font. -/
theorem reads_last_write_or_image_of_full_program :
    let program := List.replicate 3584 (0xAB : UInt8)
    let writes : List Memory.Write := [⟨0x1050, 1⟩, ⟨0xFFFFFFFFFFFFFFFF, 2⟩, ⟨0x2FFF, 3⟩]
    ∃ s t, boot program () = .ok (.ok s) ∧ s.afterWrites writes = .ok t ∧
      t.read (0xFFF : UInt64).toNat = .ok 3 ∧
      t.read (0xFFFFFFFFFFFFF09F : UInt64).toNat = .ok 0x80 ∧
      t.read (0x3200 : UInt64).toNat = .ok 0xAB ∧
      t.read (0x1FF : UInt64).toNat = .ok 0 := by
  intro program writes
  have size : program.length = 3584 := List.length_replicate
  obtain ⟨succeeds, -, -, reads⟩ := reads_last_write_or_image program ()
  obtain ⟨s, booted⟩ := succeeds.2 (Nat.le_of_eq size)
  obtain ⟨m, t, -, written, -, answers⟩ := reads s booted writes
  refine ⟨s, t, booted, written, ?_, ?_, ?_, ?_⟩
  · obtain ⟨byte, read, -, last, -⟩ := answers 0xFFF
    rw [read, last [⟨0x1050, 1⟩, ⟨0xFFFFFFFFFFFFFFFF, 2⟩] ⟨0x2FFF, 3⟩ [] rfl (by decide) (by simp)]
  · obtain ⟨byte, read, -, -, image⟩ := answers 0xFFFFFFFFFFFFF09F
    have glyph := (image (by decide)).glyph (by decide) (by decide)
    rw [read, ← Option.some.inj glyph]
  · obtain ⟨byte, read, -, -, image⟩ := answers 0x3200
    have code := (image (by decide)).code (by decide) (by rw [size]; decide)
    rw [List.getElem?_replicate, if_pos (by decide)] at code
    rw [read, ← Option.some.inj code]
  · obtain ⟨byte, read, -, -, image⟩ := answers 0x1FF
    rw [read, (image (by decide)).rest (by decide)]

end Storage

end Chip8
