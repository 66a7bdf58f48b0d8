import Chip8.Proofs.Machine.Environment

/-!
# Bytes drawn in a run

The bytes drawn from a source are counted by a source that counts them itself: `Metered` wraps a
source and adds one to its meter with every byte.  A machine with a metered source,
`Machine.metered`, works like the machine without the meter.

`Instruction.drawsByte` singles out the one instruction that draws a byte.  An action moves the
meter by one if it carries out this instruction, and leaves it otherwise (`perform_metered`).  So
after a run the meter shows how many of the instructions carried out draw a byte
(`after_metered`), and the source stands behind as many bytes of its stream (`random_after`).  The
main statement is `bytes_drawn_in_order`.
-/

namespace Chip8

/-- Whether an instruction draws a random byte. -/
def Instruction.drawsByte : Instruction → Bool
  | .random _ _ => true
  | _ => false

/-- A source that counts the bytes drawn from it. -/
structure Metered (ρ : Type) where
  source : ρ
  drawn : Nat := 0
deriving DecidableEq

namespace Metered

variable {ρ : Type} [ByteSource ρ]

/-- Draw from the wrapped source and count the byte. -/
def draw (s : Metered ρ) : UInt8 × Metered ρ :=
  ((ByteSource.next s.source).1,
    { source := (ByteSource.next s.source).2, drawn := s.drawn + 1 })

instance : ByteSource (Metered ρ) := ⟨draw⟩

end Metered

namespace Environment

variable {ρ : Type}

/-- The environment in which the source of random bytes has a meter. -/
def metered (e : Environment ρ) (drawn : Nat) : Environment (Metered ρ) where
  delay := e.delay
  sound := e.sound
  keypad := e.keypad
  random := { source := e.random, drawn := drawn }

variable [ByteSource ρ]

/-- An instruction moves the meter by one if it draws a byte. -/
theorem follow_metered (e : Environment ρ) (drawn : Nat) (value : Register → UInt8)
    (i : Instruction) :
    (e.metered drawn).follow value i = (e.follow value i).metered (drawn + i.drawsByte.toNat) := by
  cases i <;> rfl

/-- An instruction moves the source by one byte if it draws one. -/
theorem random_follow (e : Environment ρ) (value : Register → UInt8) (i : Instruction) :
    (e.follow value i).random = ByteSource.drop e.random i.drawsByte.toNat := by
  cases i <;> rfl

end Environment

namespace Machine

variable {ρ : Type}

/-- The machine with a meter at its source of random bytes. -/
def metered (m : Machine ρ) (drawn : Nat) : Machine (Metered ρ) :=
  m.within (m.environment.metered drawn)

/-- A machine that is loaded with a metered source is a machine with a meter. -/
theorem boot_metered {program : List UInt8} {source : ρ} {m : Machine ρ}
    (booted : boot program source = .ok m) :
    boot program ({ source := source } : Metered ρ) = .ok (m.metered 0) := by
  obtain ⟨fits, rfl⟩ := boot_eq_ok_iff.1 booted
  exact boot_eq_ok_iff.2 ⟨fits, rfl⟩

variable [ByteSource ρ]

/-! ### One action -/

/-- A meter is nothing that an instruction samples. -/
theorem sample_metered (m : Machine ρ) (drawn : Nat) (i : Instruction) :
    m.sample i = (m.metered drawn).sample i := by
  cases i <;> rfl

/-- With a meter an instruction does the same, and moves the meter if it draws a byte. -/
theorem execute_metered (m : Machine ρ) (drawn : Nat) (i : Instruction) :
    ((m.metered drawn).execute i).machine =
      (m.execute i).machine.metered (drawn + i.drawsByte.toNat) := by
  rw [metered, machine_execute_within (m.sample_metered drawn i), Environment.follow_metered,
    ← environment_execute]
  rfl

/-- With a meter a cycle does the same, and moves the meter if its instruction draws a byte. -/
theorem cycle_metered (m : Machine ρ) (drawn : Nat) :
    (m.metered drawn).cycle.machine =
      m.cycle.machine.metered (drawn + m.fetch.drawsByte.toNat) := by
  rw [metered, (cycle_within (m.sample_metered drawn m.fetch)).2, Environment.follow_metered,
    ← environment_cycle]
  rfl

/-- How many bytes an action draws: one if it carries out an instruction that draws a byte. -/
def drawnBy (m : Machine ρ) (a : Action) : Nat :=
  (m.carriedOut a).toList.countP Instruction.drawsByte

/-- No instruction that meets a fault draws a byte, so an execution draws what its instruction
does. -/
theorem drawnBy_execute (m : Machine ρ) (i : Instruction) :
    m.drawnBy (.execute i) = i.drawsByte.toNat := by
  cases fault : (m.execute i).fault with
  | none =>
    have carried : m.carriedOut (.execute i) = some i := by
      simp only [carriedOut, fault, Option.isNone_none, if_true]
    cases draws : i.drawsByte <;> simp [drawnBy, carried, draws]
  | some f =>
    have carried : m.carriedOut (.execute i) = none := by
      simp only [carriedOut, fault, Option.isNone_some, Bool.false_eq_true, if_false]
    have other : i.drawsByte = false := by
      rcases execute_fault_eq_some_iff.1 fault with ⟨rfl, -⟩ | ⟨target, rfl, -⟩ | ⟨base, rfl, -⟩ <;>
        rfl
    rw [drawnBy, carried, other]
    rfl

/-- A cycle draws what its instruction does. -/
theorem drawnBy_cycle (m : Machine ρ) : m.drawnBy .cycle = m.fetch.drawsByte.toNat := by
  rw [← drawnBy_execute m.advance]
  rfl

/-- With a meter an action does the same, and moves the meter by the bytes it draws. -/
theorem perform_metered (m : Machine ρ) (drawn : Nat) (a : Action) :
    ((m.metered drawn).perform a).machine =
      (m.perform a).machine.metered (drawn + m.drawnBy a) := by
  cases a with
  | cycle =>
    rw [drawnBy_cycle]
    exact m.cycle_metered drawn
  | execute i =>
    rw [drawnBy_execute]
    exact m.execute_metered drawn i
  | _ => rfl

/-- An action moves the source by the bytes it draws. -/
theorem random_perform (m : Machine ρ) (a : Action) :
    (m.perform a).machine.random = ByteSource.drop m.random (m.drawnBy a) := by
  cases a with
  | cycle =>
    have environment := congrArg Environment.random m.environment_cycle
    rw [Environment.random_follow] at environment
    rw [drawnBy_cycle]
    exact environment
  | execute i =>
    have environment := congrArg Environment.random (m.environment_execute i)
    rw [Environment.random_follow] at environment
    rw [drawnBy_execute]
    exact environment
  | _ => rfl

/-- An action that carries out the instruction for a random byte keeps those bits of the next byte
that the mask has, in the register of the instruction alone. -/
theorem registers_perform_of_random {m : Machine ρ} {a : Action} {x : Register} {mask : UInt8}
    (carried : m.carriedOut a = some (.random x mask)) :
    (m.perform a).machine.registers =
      m.registers.set x ((ByteSource.next m.random).1 &&& mask) := by
  obtain ⟨n, before, -, executed⟩ := perform_of_carriedOut_eq_some carried
  rw [executed]
  rcases before with rfl | rfl <;> rfl

/-! ### Runs -/

/-- How many bytes a run draws: one for each of its instructions that draws a byte. -/
def drawnIn (m : Machine ρ) (actions : List Action) : Nat :=
  (m.instructions actions).countP Instruction.drawsByte

theorem drawnIn_cons (m : Machine ρ) (a : Action) (rest : List Action) :
    m.drawnIn (a :: rest) = m.drawnBy a + (m.perform a).machine.drawnIn rest := by
  rw [drawnIn, instructions_cons, List.countP_append]
  rfl

/-- With a meter a run does the same, and moves the meter by the bytes it draws. -/
theorem after_metered (m : Machine ρ) (drawn : Nat) (actions : List Action) :
    (m.metered drawn).after actions =
      (m.after actions).metered (drawn + m.drawnIn actions) := by
  induction actions generalizing m drawn with
  | nil => rfl
  | cons a rest ih =>
    rw [after_cons, after_cons, perform_metered, ih, drawnIn_cons, Nat.add_assoc]

/-- A run moves the source by the bytes it draws. -/
theorem random_after (m : Machine ρ) (actions : List Action) :
    (m.after actions).random = ByteSource.drop m.random (m.drawnIn actions) := by
  induction actions generalizing m with
  | nil => rfl
  | cons a rest ih =>
    rw [after_cons, ih, random_perform, drawnIn_cons, ByteSource.drop_add]

/-- Random bytes are drawn one for each instruction that asks for one, and in order.  In any run
from the beginning, of cycles, instructions given from outside and actions of the host, the meter of
a source shows at every point how many of the instructions carried out so far ask for a random byte,
and the source stands behind as many bytes of its stream.  The next such instruction, whatever its
mask, stores the byte at this position under its mask in its register, and moves the meter by one.
Every other action leaves the meter: another instruction, a word that is no instruction, one that
fails, and an action of the host. -/
theorem bytes_drawn_in_order {program : List UInt8} {source : ρ} {m : Machine ρ}
    (booted : boot program source = .ok m) (actions : List Action) :
    let now := m.after actions
    let drawn := (m.instructions actions).countP Instruction.drawsByte
    boot program ({ source := source } : Metered ρ) = .ok (m.metered 0) ∧
    (m.metered 0).after actions = now.metered drawn ∧
    now.random = ByteSource.drop source drawn ∧
    (∀ a x mask, now.carriedOut a = some (.random x mask) →
      (now.perform a).machine.registers =
        now.registers.set x (ByteSource.stream source drawn &&& mask) ∧
      ((now.metered drawn).perform a).machine = (now.perform a).machine.metered (drawn + 1)) ∧
    ∀ a, (∀ x mask, now.carriedOut a ≠ some (.random x mask)) →
      ((now.metered drawn).perform a).machine = (now.perform a).machine.metered drawn := by
  intro now drawn
  have start : m.random = source := by
    obtain ⟨-, rfl⟩ := boot_eq_ok_iff.1 booted
    rfl
  have position : now.random = ByteSource.drop source drawn := by
    rw [← start]
    exact m.random_after actions
  refine ⟨boot_metered booted, ?_, position, ?_, ?_⟩
  · rw [after_metered, Nat.zero_add]
    rfl
  · intro a x mask carried
    have one : now.drawnBy a = 1 := by
      rw [drawnBy, carried]
      rfl
    rw [registers_perform_of_random carried, position, perform_metered, one]
    exact ⟨rfl, rfl⟩
  · intro a other
    have none : now.drawnBy a = 0 := by
      rw [drawnBy, List.countP_eq_zero]
      intro i mem
      cases i with
      | random x mask => exact absurd (Option.mem_toList.1 mem) (other x mask)
      | _ => exact Bool.false_ne_true
    rw [perform_metered, none, Nat.add_zero]

/-- Two of these actions draw a byte, one of them under the mask zero; a word that is no
instruction, a return that fails, a count of the timers and a key do not.  The next random byte is
the third of the source. -/
theorem bytes_drawn_in_order_of_mixed_actions :
    let program : List UInt8 := [0xC3, 0x00, 0xE0, 0x00, 0x00, 0xEE]
    let source := CyclicSource.ofPattern [0x11, 0x22, 0x33, 0x44]
    let m := fresh program source
    let actions : List Action :=
      [.cycle, .cycle, .cycle, .ticks 2, .setKey 7 true, .execute (.random 5 0xF0)]
    let now := m.after actions
    boot program source = .ok m ∧ ((m.metered 0).after actions).random.drawn = 2 ∧
    now.carriedOut (.execute (.random 1 0x0F)) = some (.random 1 0x0F) ∧
    (now.perform (.execute (.random 1 0x0F))).machine.registers = now.registers.set 1 0x03 ∧
    now.carriedOut .cycle = none ∧
    ((now.metered 2).perform .cycle).machine = (now.perform .cycle).machine.metered 2 := by
  intro program source m actions now
  have booted : boot program source = .ok m := boot_eq_ok_iff.2 ⟨by decide, rfl⟩
  obtain ⟨-, metered, -, drawing, others⟩ := bytes_drawn_in_order booted actions
  have two : (m.instructions actions).countP Instruction.drawsByte = 2 := by decide +kernel
  have carried : now.carriedOut (.execute (.random 1 0x0F)) = some (.random 1 0x0F) := rfl
  have third : ByteSource.stream source 2 &&& 0x0F = 0x03 := by decide
  have failing : now.carriedOut .cycle = none := by decide +kernel
  have stored := (drawing _ _ _ carried).1
  have left := others .cycle fun x mask same => by
    have impossible := failing.symm.trans same
    cases impossible
  rw [two] at metered stored left
  rw [third] at stored
  exact ⟨booted, by rw [metered]; rfl, carried, stored, failing, left⟩

end Machine

end Chip8
