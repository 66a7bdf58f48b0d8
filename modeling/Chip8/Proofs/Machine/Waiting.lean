import Chip8.Proofs.Machine.ControlFlow
import Chip8.Proofs.Storage.Loosened

/-!
# Waiting for a key

The instruction that waits for a key has no loop.  A cycle moves the program counter behind it, and
if no key is pressed the instruction moves it back, so that the next cycle fetches it again.  The
two moves cancel wherever the program counter stands, and nothing else is written: such a cycle
leaves the whole machine as it was (`Machine.cycle_of_released`).

Hence a run in which no key is pressed at any cycle leads where the writes of the host alone lead
(`Machine.after_eq_after_fromHost`), however many cycles it makes.  The first cycle that finds a key
pressed stores the lowest pressed key and goes on.  The main statement is `waits_for_lowest_key`; it
covers every stored machine as well, whatever its depth and its screen.
-/

namespace Chip8

/-- Whether a key is the pressed one with the smallest number. -/
def Keypad.IsLowest (p : Keypad) (k : Key) : Prop :=
  p.get k = true ∧ ∀ j < k, p.get j = false

instance (p : Keypad) (k : Key) : Decidable (p.IsLowest k) :=
  inferInstanceAs (Decidable (p.get k = true ∧ ∀ j < k, p.get j = false))

theorem Keypad.lowest?_eq_some_iff {p : Keypad} {k : Key} :
    p.lowest? = some k ↔ p.IsLowest k := by
  rw [lowest?, List.find?_eq_some_iff_getElem]
  constructor
  · rintro ⟨pressed, place, inside, rfl, least⟩
    refine ⟨pressed, fun j below => ?_⟩
    have smaller : j.val < place := by simpa [Fin.lt_def] using below
    simpa using least j.val smaller
  · rintro ⟨pressed, least⟩
    refine ⟨pressed, k.val, by simp, by simp, fun j below => ?_⟩
    have released : p.get ⟨j, by omega⟩ = false := least ⟨j, by omega⟩ below
    simpa using released

/-- If any key is pressed, one of them is the lowest. -/
theorem Keypad.exists_isLowest {p : Keypad} (pressed : ∃ k, p.get k = true) :
    ∃ k, p.IsLowest k := by
  obtain ⟨k, down⟩ := pressed
  cases found : p.lowest? with
  | some lowest => exact ⟨lowest, lowest?_eq_some_iff.1 found⟩
  | none =>
    rw [lowest?_eq_none_iff.1 found k] at down
    cases down

namespace Machine

variable {ρ : Type} [ByteSource ρ]

/-- A cycle that finds a key pressed stores the lowest and goes on behind the instruction. -/
theorem cycle_of_isLowest {m : Machine ρ} {x : Register} {k : Key}
    (fetched : m.fetch = .awaitKey x) (lowest : m.keypad.IsLowest k) :
    m.cycle =
      { machine := { m with registers := m.registers.set x (UInt8.ofNat k), pc := m.pc + 2 }
        log := [.executing m.pc (.awaitKey x)] } := by
  have found : m.advance.keypad.lowest? = some k := Keypad.lowest?_eq_some_iff.2 lowest
  have executed : m.advance.execute (.awaitKey x) =
      { machine := m.advance.setReg x (UInt8.ofNat k) } := by
    simp only [execute, awaitKey, found]
  rw [cycle, fetched, executed]
  rfl

/-! ### Runs that wait -/

/-- Whether no key is pressed at any cycle of a run. -/
def ReleasedAtCycles (m : Machine ρ) (actions : List Action) : Prop :=
  ∀ before rest, actions = before ++ .cycle :: rest → ∀ k, (m.after before).keypad.get k = false

theorem releasedAtCycles_nil (m : Machine ρ) : m.ReleasedAtCycles [] := by
  intro before rest split
  simp at split

theorem releasedAtCycles_cons_iff {m : Machine ρ} {a : Action} {rest : List Action} :
    m.ReleasedAtCycles (a :: rest) ↔
      (a = .cycle → ∀ k, m.keypad.get k = false) ∧ (m.perform a).machine.ReleasedAtCycles rest := by
  constructor
  · intro released
    refine ⟨?_, ?_⟩
    · rintro rfl
      exact released [] rest rfl
    · rintro before later rfl
      exact released (a :: before) later rfl
  · rintro ⟨now, soon⟩ before later split
    cases before with
    | nil => exact now (List.cons.inj split).1
    | cons first before =>
      obtain ⟨rfl, behind⟩ := List.cons.inj split
      exact soon before later behind

theorem ReleasedAtCycles.of_append {m : Machine ρ} {before rest : List Action}
    (h : m.ReleasedAtCycles (before ++ rest)) : m.ReleasedAtCycles before := by
  rintro first later rfl
  exact h first (later ++ rest) (by simp)

section

variable {m : Machine ρ} {x : Register} (fetched : m.fetch = .awaitKey x)

include fetched

/-- An action of a run that waits keeps it waiting; a cycle does not even change the machine. -/
theorem perform_of_waiting {a : Action} (ordinary : a.ordinary)
    (released : a = .cycle → ∀ k, m.keypad.get k = false) :
    (m.perform a).machine.fetch = .awaitKey x ∧
      (a.fromHost ∨ a = .cycle ∧ (m.perform a).machine = m) := by
  cases a with
  | cycle =>
    have unchanged : (m.perform .cycle).machine = m :=
      congrArg Outcome.machine (cycle_of_released fetched (released rfl))
    exact ⟨unchanged.symm ▸ fetched, Or.inr ⟨rfl, unchanged⟩⟩
  | execute i => cases ordinary
  | _ => exact ⟨fetched, Or.inl rfl⟩

variable {actions : List Action} (ordinary : ∀ a ∈ actions, a.ordinary)
  (released : m.ReleasedAtCycles actions)

include ordinary released

/-- A run that waits leads where the writes of the host alone lead. -/
theorem after_eq_after_fromHost :
    m.after actions = m.after (actions.filter Action.fromHost) := by
  induction actions generalizing m with
  | nil => rfl
  | cons a rest ih =>
    obtain ⟨now, soon⟩ := releasedAtCycles_cons_iff.1 released
    obtain ⟨waiting, step⟩ := perform_of_waiting fetched (ordinary a List.mem_cons_self) now
    have later := ih waiting (fun b hb => ordinary b (List.mem_cons_of_mem a hb)) soon
    rcases step with fromHost | ⟨rfl, unchanged⟩
    · rw [List.filter_cons_of_pos fromHost, after_cons, after_cons, later]
    · rw [List.filter_cons_of_neg (by decide), after_cons, later, unchanged]

/-- A run that waits changes the timers and the keypad only. -/
theorem after_of_waiting :
    ∃ delay sound keypad,
      m.after actions = { m with delay := delay, sound := sound, keypad := keypad } := by
  rw [after_eq_after_fromHost fetched ordinary released]
  exact m.after_of_fromHost fun a ha => (List.mem_filter.1 ha).2

/-- After a run that waits the machine still waits, for the same register and at the same place. -/
theorem fetch_after_of_waiting :
    (m.after actions).fetch = .awaitKey x ∧ (m.after actions).pc = m.pc ∧
      (m.after actions).registers = m.registers := by
  obtain ⟨delay, sound, keypad, reached⟩ := after_of_waiting fetched ordinary released
  rw [reached]
  exact ⟨fetched, rfl, rfl⟩

/-- Up to each of its cycles a run that waits is such a run as well, and the cycle changes
nothing. -/
theorem cycle_within_waiting {before rest : List Action}
    (split : actions = before ++ .cycle :: rest) :
    (∀ a ∈ before, a.ordinary) ∧ m.ReleasedAtCycles before ∧
      (m.after before).cycle =
        { machine := m.after before, log := [.executing m.pc (.awaitKey x)] } := by
  subst split
  have first : ∀ a ∈ before, a.ordinary := fun a ha => ordinary a (List.mem_append_left _ ha)
  obtain ⟨waiting, pc, -⟩ := fetch_after_of_waiting fetched first released.of_append
  have nothing := cycle_of_released waiting (released before rest rfl)
  rw [pc] at nothing
  exact ⟨first, released.of_append, nothing⟩

/-- A cycle after a run that waits stores the lowest pressed key. -/
theorem cycle_after_of_isLowest {k : Key} (lowest : (m.after actions).keypad.IsLowest k) :
    (m.after actions).cycle =
      { machine :=
          { m.after actions with
            registers := m.registers.set x (UInt8.ofNat k)
            pc := m.pc + 2 }
        log := [.executing m.pc (.awaitKey x)] } := by
  obtain ⟨waiting, pc, registers⟩ := fetch_after_of_waiting fetched ordinary released
  rw [cycle_of_isLowest waiting lowest, pc, registers]

end

end Machine

/-! ### Stored machines -/

namespace Storage

variable {ρ : Type}

/-- The instruction at the program counter. -/
def fetch (s : Storage ρ) : Instruction :=
  .ofBytes (Memory.read ⟨s.memory⟩ s.pc.toNat) (Memory.read ⟨s.memory⟩ (s.pc.toNat + 1))

variable [ByteSource ρ]

/-- Whether no key is pressed at any cycle of a run. -/
def ReleasedAtCycles (s : Storage ρ) (actions : List Action) : Prop :=
  ∀ before rest t, actions = before ++ .cycle :: rest → s.after before = .ok t →
    ∀ k, DigitTable.get ⟨t.keypad⟩ k = false

section

variable {m : Machine ρ} (depth : UInt8) (screen : Frame) {x : Register} {actions : List Action}
  (fetched : m.fetch = .awaitKey x) (ordinary : ∀ a ∈ actions, a.ordinary)

include fetched ordinary

/-- Where a run that waits leads a machine it leads every stored machine. -/
theorem after_storage_loosened_of_waiting (released : m.ReleasedAtCycles actions) :
    (m.storage.loosened depth screen).after actions =
      .ok ((m.after actions).storage.loosened depth screen) := by
  induction actions generalizing m with
  | nil => rfl
  | cons a rest ih =>
    obtain ⟨now, soon⟩ := Machine.releasedAtCycles_cons_iff.1 released
    obtain ⟨waiting, step⟩ :=
      Machine.perform_of_waiting fetched (ordinary a List.mem_cons_self) now
    have performed : (m.storage.loosened depth screen).perform a =
        .ok ((m.perform a).machine.storage.loosened depth screen, none) := by
      rcases step with fromHost | ⟨rfl, -⟩
      · exact perform_storage_loosened m depth screen fromHost
      · exact cycle_storage_loosened m depth screen (by rw [fetched]; rfl)
    rw [after, performed]
    exact ih waiting (fun b hb => ordinary b (List.mem_cons_of_mem a hb)) soon

/-- No key is pressed at any cycle of a stored machine exactly if none is at those of the machine,
as long as it waits. -/
theorem releasedAtCycles_storage_loosened_iff :
    (m.storage.loosened depth screen).ReleasedAtCycles actions ↔ m.ReleasedAtCycles actions := by
  constructor
  · intro released before rest split
    -- by induction on the length: at the earlier cycles no key is pressed, so the run gets here
    induction length : before.length using Nat.strongRecOn generalizing before rest with
    | ind n ih =>
      subst split
      have earlier : m.ReleasedAtCycles before := by
        rintro first later rfl
        exact ih first.length (by simp [← length]) first (later ++ .cycle :: rest) (by simp) rfl
      have led := after_storage_loosened_of_waiting depth screen fetched
        (fun a ha => ordinary a (List.mem_append_left _ ha)) earlier
      exact released before rest _ rfl led
  · rintro released before rest t rfl reached
    have led := after_storage_loosened_of_waiting depth screen fetched
      (fun a ha => ordinary a (List.mem_append_left _ ha)) released.of_append
    obtain rfl := Except.ok.inj (led.symm.trans reached)
    exact released before rest rfl

/-- A cycle after a run that waits does the same to every stored machine. -/
theorem cycle_storage_loosened_of_waiting (released : m.ReleasedAtCycles actions) :
    ((m.after actions).storage.loosened depth screen).cycle =
      .ok ((m.after actions).cycle.machine.storage.loosened depth screen, none) := by
  obtain ⟨waiting, -⟩ := Machine.fetch_after_of_waiting fetched ordinary released
  exact cycle_storage_loosened _ depth screen (by rw [waiting]; rfl)

end

end Storage

/-- While a program waits for a key, a run of cycles and of any writes of the host goes on waiting
as long as each cycle finds no key pressed.  Each of these cycles succeeds and leaves the whole
machine as it was, so that the run changes the timers and the keypad only and leads where the writes
of the host alone lead.  A cycle after such a run that finds keys pressed succeeds too, stores the
lowest of them, moves the program counter behind the instruction and changes nothing else.  This
holds wherever the program counter stands, also where it wraps around, and it is true of stored
machines as well, whatever their depth and their screen. -/
theorem waits_for_lowest_key {ρ : Type} [ByteSource ρ] (x : Register) {actions : List Action}
    (ordinary : ∀ a ∈ actions, a.ordinary) :
    (∀ m : Machine ρ, m.fetch = .awaitKey x → m.ReleasedAtCycles actions →
      (∀ before rest, actions = before ++ .cycle :: rest →
        (m.after before).cycle =
          { machine := m.after before, log := [.executing m.pc (.awaitKey x)] }) ∧
      (∃ delay sound keypad,
        m.after actions = { m with delay := delay, sound := sound, keypad := keypad }) ∧
      m.after actions = m.after (actions.filter Action.fromHost) ∧
      ((∃ k, (m.after actions).keypad.get k = true) →
        ∃ k, (m.after actions).keypad.IsLowest k ∧
          (m.after actions).cycle =
            { machine :=
                { m.after actions with
                  registers := m.registers.set x (UInt8.ofNat k)
                  pc := m.pc + 2 }
              log := [.executing m.pc (.awaitKey x)] })) ∧
    ∀ s : Storage ρ, s.fetch = .awaitKey x → s.ReleasedAtCycles actions →
      ∃ t, s.after actions = .ok t ∧
        (∀ before rest, actions = before ++ .cycle :: rest →
          ∃ u, s.after before = .ok u ∧ u.cycle = .ok (u, none)) ∧
        (∃ delay sound keypad, t = { s with delay := delay, sound := sound, keypad := keypad }) ∧
        s.after (actions.filter Action.fromHost) = .ok t ∧
        ((∃ k, DigitTable.get ⟨t.keypad⟩ k = true) →
          ∃ k, Keypad.IsLowest ⟨t.keypad⟩ k ∧
            t.cycle =
              .ok ({ t with
                registers := (DigitTable.set ⟨s.registers⟩ x (UInt8.ofNat k)).entries
                pc := s.pc + 2 }, none)) := by
  refine ⟨?_, ?_⟩
  · intro m fetched released
    refine ⟨fun before rest split =>
        (Machine.cycle_within_waiting fetched ordinary released split).2.2,
      Machine.after_of_waiting fetched ordinary released,
      Machine.after_eq_after_fromHost fetched ordinary released, ?_⟩
    intro pressed
    obtain ⟨k, lowest⟩ := Keypad.exists_isLowest pressed
    exact ⟨k, lowest, Machine.cycle_after_of_isLowest fetched ordinary released lowest⟩
  · intro s fetched released
    obtain ⟨m, depth, screen, rfl⟩ := s.exists_machine_loosened
    have quiet : m.ReleasedAtCycles actions :=
      (Storage.releasedAtCycles_storage_loosened_iff depth screen fetched ordinary).1 released
    refine ⟨(m.after actions).storage.loosened depth screen,
      Storage.after_storage_loosened_of_waiting depth screen fetched ordinary quiet, ?_, ?_, ?_, ?_⟩
    · intro before rest split
      obtain ⟨first, earlier, nothing⟩ :=
        Machine.cycle_within_waiting fetched ordinary quiet split
      refine ⟨_, Storage.after_storage_loosened_of_waiting depth screen fetched first earlier, ?_⟩
      rw [Storage.cycle_storage_loosened_of_waiting depth screen fetched first earlier, nothing]
    · obtain ⟨delay, sound, keypad, reached⟩ := Machine.after_of_waiting fetched ordinary quiet
      exact ⟨delay, sound, keypad.entries, by rw [reached]; rfl⟩
    · rw [Machine.after_eq_after_fromHost fetched ordinary quiet]
      exact Storage.after_storage_loosened_of_fromHost fun a ha => (List.mem_filter.1 ha).2
    · intro pressed
      obtain ⟨k, lowest⟩ := Keypad.exists_isLowest pressed
      refine ⟨k, lowest, ?_⟩
      rw [Storage.cycle_storage_loosened_of_waiting depth screen fetched ordinary quiet,
        Machine.cycle_after_of_isLowest fetched ordinary quiet lowest]
      rfl

/-- At the highest even address a program waits through two cycles, with a key pressed and released
in between and the timers counted down.  When two keys are pressed it receives the lower one, and
the program counter wraps around.  The same happens on a stored machine whose depth is no depth of a
call stack and whose screen holds cells that are neither lit nor dark. -/
theorem waits_for_lowest_key_at_wrap :
    let m : Machine CyclicSource :=
      { Machine.fresh [] (CyclicSource.ofPattern [7]) with
        pc := 0xFFFE
        memory := (Memory.zero.write 4094 0xF5).write 4095 0x0A
        delay := 3 }
    let s := m.storage.loosened 200 (Vector.replicate 2048 5)
    let writes : List Action := [.setKey 7 true, .setKey 7 false, .ticks 2]
    let actions : List Action := .cycle :: writes ++ [.cycle, .setKey 11 true, .setKey 4 true]
    (∃ delay sound keypad,
      m.after actions = { m with delay := delay, sound := sound, keypad := keypad }) ∧
    (m.after actions).delay = 1 ∧
    (m.after actions).cycle =
      { machine := { m.after actions with registers := RegisterFile.zero.set 5 4, pc := 0 }
        log := [.executing 0xFFFE (.awaitKey 5)] } ∧
    ∃ t, s.after actions = .ok t ∧
      t.cycle =
        .ok ({ t with registers := (RegisterFile.zero.set 5 4).entries, pc := 0 }, none) := by
  intro m s writes actions
  have word : m.fetch = .ofBytes 0xF5 0x0A := Machine.fetch_of_last_cells rfl rfl
  have fetched : m.fetch = .awaitKey 5 := word
  have ordinary : ∀ a ∈ actions, a.ordinary := by decide
  have start : ∀ k, m.keypad.get k = false := Keypad.get_released
  have unchanged : (m.perform .cycle).machine = m :=
    congrArg Outcome.machine (Machine.cycle_of_released fetched start)
  have quiet : m.ReleasedAtCycles actions := by
    simp only [actions, writes, List.cons_append, List.nil_append,
      Machine.releasedAtCycles_cons_iff, Machine.releasedAtCycles_nil, unchanged, reduceCtorEq,
      false_imp_iff, true_imp_iff, true_and, and_true]
    refine ⟨start, ?_⟩
    show ∀ k, ((Keypad.released.set 7 true).set 7 false).get k = false
    decide
  obtain ⟨onMachine, onStorage⟩ := waits_for_lowest_key (ρ := CyclicSource) 5 ordinary
  obtain ⟨-, kept, host, served⟩ := onMachine m fetched quiet
  have quiet' : s.ReleasedAtCycles actions :=
    (Storage.releasedAtCycles_storage_loosened_iff _ _ fetched ordinary).2 quiet
  obtain ⟨t, led, -, -, -, served'⟩ := onStorage s fetched quiet'
  have alike := Storage.after_storage_loosened_of_waiting 200 (Vector.replicate 2048 5) fetched
    ordinary quiet
  obtain rfl : t = (m.after actions).storage.loosened 200 (Vector.replicate 2048 5) :=
    Except.ok.inj (led.symm.trans alike)
  have keypad : (m.after actions).keypad = .ofKeys [4, 11] := by
    rw [host]
    decide
  have lowest : ∀ k, Keypad.IsLowest (.ofKeys [4, 11]) k → k = 4 := by decide
  have pressed : ∃ k, (m.after actions).keypad.get k = true := by
    rw [keypad]
    exact ⟨4, by decide⟩
  have delay : (m.after actions).delay = 1 := by
    rw [host]
    rfl
  have number : UInt8.ofNat (4 : Key).val = 4 := by decide
  have behind : m.pc + 2 = 0 := by decide
  have behind' : s.pc + 2 = 0 := behind
  refine ⟨kept, delay, ?_, _, led, ?_⟩
  · obtain ⟨k, least, cycled⟩ := served pressed
    rw [keypad] at least
    obtain rfl := lowest k least
    rw [number, behind] at cycled
    exact cycled
  · obtain ⟨k, least, cycled⟩ := served' pressed
    obtain rfl := lowest k (keypad ▸ least)
    rw [number, behind'] at cycled
    exact cycled

end Chip8
