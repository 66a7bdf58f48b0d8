import Chip8.Proofs.Storage.Agreement

/-!
# Stored machines with any depth and any screen

The depth and the screen are the components in which a stored machine may fail to be the stored form
of a machine: the depth may exceed the number of slots, and a cell of the screen may hold any value.
`Storage.loosened` replaces both, and every stored machine is a loosened stored form of a machine
(`exists_machine_loosened`).

Some instructions look at neither of the two: waiting for a key, storing decimal digits, and dumping
and loading registers.  Neither do the writes of the host between cycles.  What they do to a machine
they do to every stored machine, and they leave the depth and the screen as they are.  Drawing looks
at the screen but not at the depth, and needs cells that are lit or dark
(`exists_machine_of_binary`): what it does to a machine it does to a stored machine with the same
screen and any depth (`execute_draw_loosened`).
-/

namespace Chip8

/-- Whether an instruction moves data between registers, memory and the keypad, looking at neither
the call stack nor the screen. -/
def Instruction.transfers : Instruction → Bool
  | awaitKey _ | storeDecimal _ | dump _ | load _ => true
  | _ => false

namespace Storage

variable {ρ : Type}

/-- The stored machine with another depth and another screen. -/
def loosened (s : Storage ρ) (depth : UInt8) (screen : Frame) : Storage ρ :=
  { s with depth := depth, screen := screen }

/-- Up to its depth and its screen every stored machine is the stored form of a machine. -/
theorem exists_machine_loosened (s : Storage ρ) :
    ∃ (m : Machine ρ) (depth : UInt8) (screen : Frame), s = m.storage.loosened depth screen := by
  let m : Machine ρ :=
    { memory := ⟨s.memory⟩
      registers := ⟨s.registers⟩
      index := s.index
      pc := s.pc
      stack := { slots := s.slots, depth := 0, depth_le := Nat.zero_le 16 }
      delay := s.delay
      sound := s.sound
      keypad := ⟨s.keypad⟩
      screen := .blank
      random := s.random }
  exact ⟨m, s.depth, s.screen, rfl⟩

/-! ### Operations that look at neither the depth nor the screen -/

section

variable (s : Storage ρ) (depth : UInt8) (screen : Frame)

theorem bind_loosened {α : Type} (computed : Checked α) {f g : α → Checked (Storage ρ)}
    (same : ∀ a, g a = (f a).map (loosened · depth screen)) :
    computed >>= g = (computed >>= f).map (loosened · depth screen) := by
  cases computed with
  | error trap => rfl
  | ok a => exact same a

theorem map_bind_loosened (computed : Checked (Storage ρ)) {f g : Storage ρ → Checked (Storage ρ)}
    (same : ∀ t, g (t.loosened depth screen) = (f t).map (loosened · depth screen)) :
    computed.map (loosened · depth screen) >>= g =
      (computed >>= f).map (loosened · depth screen) := by
  cases computed with
  | error trap => rfl
  | ok t => exact same t

theorem setReg_loosened (x : Register) (value : UInt8) :
    (s.loosened depth screen).setReg x value =
      (s.setReg x value).map (loosened · depth screen) :=
  bind_loosened depth screen (Checked.set s.registers x.val value) fun _ => rfl

theorem write_loosened (address : Nat) (byte : UInt8) :
    (s.loosened depth screen).write address byte =
      (s.write address byte).map (loosened · depth screen) :=
  bind_loosened depth screen (Checked.set s.memory (address % 4096) byte) fun _ => rfl

theorem awaitKey_loosened (x : Register) :
    (s.loosened depth screen).awaitKey x = (s.awaitKey x).map (loosened · depth screen) := by
  have keypad : (s.loosened depth screen).keypad = s.keypad := rfl
  rw [awaitKey, awaitKey, keypad]
  split
  · exact s.setReg_loosened depth screen x _
  · rfl

theorem storeDecimal_loosened (x : Register) :
    (s.loosened depth screen).storeDecimal x =
      (s.storeDecimal x).map (loosened · depth screen) := by
  refine bind_loosened depth screen (s.reg x) fun value => ?_
  rw [write_loosened]
  refine map_bind_loosened depth screen _ fun hundreds => bind_loosened depth screen _ fun _ => ?_
  rw [write_loosened]
  refine map_bind_loosened depth screen _ fun tens => bind_loosened depth screen _ fun _ => ?_
  exact tens.write_loosened depth screen _ _

theorem dumpFrom_loosened (base k count : Nat) :
    (s.loosened depth screen).dumpFrom base k count =
      (s.dumpFrom base k count).map (loosened · depth screen) := by
  induction count generalizing s k with
  | zero => rfl
  | succ count ih =>
    refine bind_loosened depth screen (Checked.get s.registers k) fun value => ?_
    refine bind_loosened depth screen _ fun address => ?_
    rw [write_loosened]
    exact map_bind_loosened depth screen _ fun written => ih written (k + 1)

theorem loadFrom_loosened (base k count : Nat) :
    (s.loosened depth screen).loadFrom base k count =
      (s.loadFrom base k count).map (loosened · depth screen) := by
  induction count generalizing s k with
  | zero => rfl
  | succ count ih =>
    refine bind_loosened depth screen (Checked.add 64 base k) fun address => ?_
    refine bind_loosened depth screen (s.read address) fun value => ?_
    refine bind_loosened depth screen (Checked.set s.registers k value) fun registers => ?_
    exact ih { s with registers := registers } (k + 1)

theorem ticks_loosened (count : Nat) :
    (s.loosened depth screen).ticks count = (s.ticks count).map (loosened · depth screen) := by
  induction count with
  | zero => rfl
  | succ count ih =>
    rw [ticks, ticks, ih]
    refine map_bind_loosened depth screen _ fun t => ?_
    refine bind_loosened depth screen (Checked.countDown t.delay) fun delay => ?_
    exact bind_loosened depth screen (Checked.countDown t.sound) fun sound => rfl

/-- The loop over the rows of a sprite reads memory and the index only. -/
theorem drawRows_loosened (x y k count : Nat) (drawn : Frame × Bool) :
    (s.loosened depth screen).drawRows x y k count drawn = s.drawRows x y k count drawn := by
  induction count generalizing k drawn with
  | zero => rfl
  | succ count ih =>
    simp only [drawRows, ih]
    rfl

end

/-! ### Drawing -/

/-- A stored machine whose cells are lit or dark is the stored form of a machine, up to its
depth. -/
theorem exists_machine_of_binary {s : Storage ρ}
    (binary : ∀ k (h : k < 2048), s.screen[k] = Frame.lit ∨ s.screen[k] = Frame.dark) :
    ∃ (m : Machine ρ) (depth : UInt8), s = m.storage.loosened depth m.screen.toFrame := by
  have shallow : (0 : UInt8).toNat ≤ 16 := by decide
  have wellFormed : (s.loosened 0 s.screen).WellFormed := { depth_le := shallow, binary := binary }
  obtain ⟨m, same⟩ := wellFormed_iff_exists_machine.1 wellFormed
  have screen : m.storage.screen = s.screen := by rw [same]; rfl
  refine ⟨m, s.depth, ?_⟩
  show s = m.storage.loosened s.depth m.storage.screen
  rw [screen, same]
  rfl

/-- Drawing does to a machine what it does to a stored machine with the same screen, whatever the
depth. -/
theorem execute_draw_loosened [ByteSource ρ] (m : Machine ρ) (depth : UInt8) (x y : Register)
    (height : UInt8) :
    (m.storage.loosened depth m.screen.toFrame).execute (.draw x y height) =
      .ok ((m.drawAt x y height).storage.loosened depth (m.drawAt x y height).screen.toFrame,
        none) := by
  have rows : 0 + height.toNat < 256 := by
    have byte : height.toNat < 256 := height.toNat_lt
    omega
  have drawn := drawRows_toFrame m (Nat.mod_lt (m.reg x).toNat (show 0 < 64 by decide))
    (Nat.mod_lt (m.reg y).toNat (show 0 < 32 by decide)) m.screen false rows
  have vx : (m.storage.loosened depth m.screen.toFrame).reg x = .ok (m.reg x) := reg_storage m x
  have vy : (m.storage.loosened depth m.screen.toFrame).reg y = .ok (m.reg y) := reg_storage m y
  have screen : (m.storage.loosened depth m.screen.toFrame).screen = m.screen.toFrame := rfl
  refine congrArg finish (?_ : drawAt _ x y height = .ok _)
  simp only [drawAt, vx, vy, drawRows_loosened, screen, drawn, bind, Except.bind, Bool.false_or,
    Nat.add_zero]
  exact setReg_eq _ _ _

/-! ### Instructions and actions that look at neither -/

theorem finish_loosened (depth : UInt8) (screen : Frame) {computed moved : Checked (Storage ρ)}
    (same : moved = computed.map (loosened · depth screen)) :
    finish moved = (finish computed).map (Prod.map (loosened · depth screen) id) := by
  rw [same]
  cases computed <;> rfl

variable [ByteSource ρ]

theorem execute_loosened (s : Storage ρ) (depth : UInt8) (screen : Frame) {i : Instruction}
    (h : i.transfers) :
    (s.loosened depth screen).execute i =
      (s.execute i).map (Prod.map (loosened · depth screen) id) := by
  cases i with
  | awaitKey x => exact finish_loosened depth screen (s.awaitKey_loosened depth screen x)
  | storeDecimal x => exact finish_loosened depth screen (s.storeDecimal_loosened depth screen x)
  | dump x => exact finish_loosened depth screen (s.dumpFrom_loosened depth screen _ _ _)
  | load x => exact finish_loosened depth screen (s.loadFrom_loosened depth screen _ _ _)
  | _ => cases h

theorem fault_execute_of_transfers (m : Machine ρ) {i : Instruction} (h : i.transfers) :
    (m.execute i).fault = none := by
  cases i <;> first | rfl | cases h

/-- What such an instruction does to a machine it does to every stored machine, and it completes. -/
theorem execute_storage_loosened (m : Machine ρ) (depth : UInt8) (screen : Frame)
    {i : Instruction} (h : i.transfers) :
    (m.storage.loosened depth screen).execute i =
      .ok ((m.execute i).machine.storage.loosened depth screen, none) := by
  have clean : (m.execute i).fault = none := fault_execute_of_transfers m h
  have completed : m.storage.execute i = .ok (m.execute i).stored :=
    execute_storage m i (by rintro base rfl; cases h)
  rw [execute_loosened _ _ _ h, completed, Outcome.stored, clean]
  rfl

/-- A cycle at such an instruction does the same to every stored machine. -/
theorem cycle_storage_loosened (m : Machine ρ) (depth : UInt8) (screen : Frame)
    (h : m.fetch.transfers) :
    (m.storage.loosened depth screen).cycle =
      .ok (m.cycle.machine.storage.loosened depth screen, none) := by
  let s : Storage ρ := m.storage.loosened depth screen
  have machine : m.cycle.machine = (m.advance.execute m.fetch).machine :=
    Machine.cycle_machine_of_fault_eq_none (fault_execute_of_transfers m.advance h)
  have pc : s.pc = m.pc := rfl
  have second : Checked.add 64 m.pc.toNat 1 = .ok (m.pc.toNat + 1) :=
    Checked.add_word m.pc (by decide)
  have high : s.read m.pc.toNat = .ok (m.memory.read m.pc.toNat) := read_storage m _
  have low : s.read (m.pc.toNat + 1) = .ok (m.memory.read (m.pc.toNat + 1)) := read_storage m _
  have executed : Storage.execute m.fetch { s with pc := m.pc + 2 } =
      .ok ((m.advance.execute m.fetch).machine.storage.loosened depth screen, none) :=
    execute_storage_loosened m.advance depth screen h
  show s.cycle = _
  simp only [cycle, pc, high, second, low, bind, Except.bind]
  rw [machine, show Instruction.ofBytes _ _ = m.fetch from rfl, executed]
  rfl

/-- What the host does to a machine it does to every stored machine, and it completes. -/
theorem perform_storage_loosened (m : Machine ρ) (depth : UInt8) (screen : Frame) {a : Action}
    (fromHost : a.fromHost) :
    (m.storage.loosened depth screen).perform a =
      .ok ((m.perform a).machine.storage.loosened depth screen, none) := by
  let s : Storage ρ := m.storage
  have same : (s.loosened depth screen).perform a =
      (s.perform a).map (Prod.map (loosened · depth screen) id) := by
    cases a with
    | cycle => cases fromHost
    | execute i => cases fromHost
    | ticks count => exact finish_loosened depth screen (s.ticks_loosened depth screen count)
    | setKeypad keys => rfl
    | setKey k down =>
      exact finish_loosened depth screen
        (bind_loosened depth screen (Checked.set s.keypad k.val down) fun keypad => rfl)
    | setDelay value => rfl
    | setSound value => rfl
  have completed : s.perform a = .ok (m.perform a).stored :=
    perform_storage m a (by rintro base rfl; cases fromHost)
  obtain ⟨delay, sound, keypad, written⟩ := m.perform_of_fromHost fromHost
  rw [same, completed, Outcome.stored, written]
  rfl

/-- Where the writes of the host lead a machine they lead every stored machine. -/
theorem after_storage_loosened_of_fromHost {m : Machine ρ} {depth : UInt8} {screen : Frame}
    {actions : List Action} (fromHost : ∀ a ∈ actions, a.fromHost) :
    (m.storage.loosened depth screen).after actions =
      .ok ((m.after actions).storage.loosened depth screen) := by
  induction actions generalizing m with
  | nil => rfl
  | cons a rest ih =>
    rw [after, perform_storage_loosened m depth screen (fromHost a List.mem_cons_self)]
    exact ih fun b hb => fromHost b (List.mem_cons_of_mem a hb)

end Storage

end Chip8
