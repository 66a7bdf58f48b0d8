import Chip8.Proofs.Machine.Faults
import Chip8.Proofs.Storage.Drawing

/-!
# Agreement of checked and plain execution

Checked execution of a stored machine gives the stored outcome of plain execution: no index leaves
its array and no number its word.  `execute_storage` says so for every instruction but a jump with
offset whose sum does not fit in sixteen bits, where checked execution traps
(`execute_storage_of_overflow`), and `cycle_storage` for every cycle.

`Storage.WellFormed` is the invariant behind this: the depth is at most sixteen and every cell of
the screen is lit or dark.  The well-formed stored machines are exactly the stored forms of
machines (`wellFormed_iff_exists_machine`).
-/

namespace Chip8

/-- An outcome with its machine in stored form. -/
def Outcome.stored {ρ : Type} (o : Outcome ρ) : Storage.Reply ρ :=
  (o.machine.storage, o.fault)

namespace Storage

variable {ρ : Type}

/-- The invariant of stored machines: what the operations rely on beyond the widths of words. -/
structure WellFormed (s : Storage ρ) : Prop where
  depth_le : s.depth.toNat ≤ 16
  binary : ∀ k (h : k < 2048), s.screen[k] = Frame.lit ∨ s.screen[k] = Frame.dark

/-! ### Well-formed stored machines -/

theorem toNat_depth_storage (m : Machine ρ) : m.storage.depth.toNat = m.stack.depth := by
  have bound := m.stack.depth_le
  rw [Machine.storage, UInt8.toNat_ofNat']
  omega

/-- The stored form of a machine is well-formed. -/
theorem wellFormed_storage (m : Machine ρ) : m.storage.WellFormed where
  depth_le := by
    rw [toNat_depth_storage]
    exact m.stack.depth_le
  binary := by
    intro k hk
    have cell : m.storage.screen[k] = Screen.cellOf (m.screen.pixel (k % 64) (k / 64)) :=
      m.screen.getElem_toFrame k hk
    rw [cell]
    cases m.screen.pixel (k % 64) (k / 64) with
    | true => exact Or.inl rfl
    | false => exact Or.inr rfl

/-- A frame of lit and dark cells shows a screen. -/
theorem toFrame_ofFrame {f : Frame}
    (binary : ∀ k (h : k < 2048), f[k] = Frame.lit ∨ f[k] = Frame.dark) :
    (Screen.ofFrame f).toFrame = f := by
  apply Vector.ext
  intro k hk
  have place : 64 * (k / 64) + k % 64 = k := Nat.div_add_mod k 64
  rw [Screen.getElem_toFrame, Screen.pixel_ofFrame f (by omega) (by omega)]
  simp only [place]
  rcases binary k hk with lit | dark
  · rw [lit]
    rfl
  · rw [dark]
    rfl

/-- The well-formed stored machines are the stored forms of machines. -/
theorem wellFormed_iff_exists_machine {s : Storage ρ} :
    s.WellFormed ↔ ∃ m : Machine ρ, m.storage = s := by
  constructor
  · intro h
    let m : Machine ρ :=
      { memory := ⟨s.memory⟩
        registers := ⟨s.registers⟩
        index := s.index
        pc := s.pc
        stack := { slots := s.slots, depth := s.depth.toNat, depth_le := h.depth_le }
        delay := s.delay
        sound := s.sound
        keypad := ⟨s.keypad⟩
        screen := Screen.ofFrame s.screen
        random := s.random }
    refine ⟨m, ?_⟩
    have depth : UInt8.ofNat s.depth.toNat = s.depth := UInt8.ofNat_toNat
    have screen : (Screen.ofFrame s.screen).toFrame = s.screen := toFrame_ofFrame h.binary
    simp only [m, Machine.storage, depth, screen]
  · rintro ⟨m, rfl⟩
    exact wellFormed_storage m

/-! ### Loading -/

theorem toFrame_blank : Screen.blank.toFrame = Vector.replicate 2048 Frame.dark := by
  apply Vector.ext
  intro k hk
  simp [Screen.getElem_toFrame, Screen.cellOf]

/-- Copying bytes to a place where there is room for them writes a block. -/
theorem copy_cells (memory : Memory) {place : Nat} {bytes : List UInt8}
    (room : place + bytes.length ≤ 4096) :
    Checked.copy memory.cells place bytes = .ok (memory.writeBlock place bytes).cells := by
  induction bytes generalizing memory place with
  | nil => rfl
  | cons byte rest ih =>
    rw [List.length_cons] at room
    have inside : place < 4096 := by omega
    have written : Checked.set memory.cells place byte = .ok (memory.write place byte).cells := by
      rw [Checked.set_of_lt _ inside]
      simp only [Memory.write, Memory.cell, Nat.mod_eq_of_lt inside]
    simp only [Checked.copy, written, bind, Except.bind]
    exact ih (memory.write place byte) (by omega)

/-- Checked loading agrees with plain loading, and does not trap. -/
theorem boot_eq (program : List UInt8) (random : ρ) :
    boot program random = .ok ((Machine.boot program random).map Machine.storage) := by
  by_cases large : Memory.capacity < program.length
  · rw [boot, if_pos large, Machine.boot, if_neg (Nat.not_le.2 large)]
    rfl
  · have room : Memory.programStart + program.length ≤ 4096 := by
      simp only [Memory.capacity, Memory.programStart] at large ⊢
      omega
    have font : Checked.copy (Vector.replicate 4096 0) Memory.fontStart Memory.font =
        .ok (Memory.zero.writeBlock Memory.fontStart Memory.font).cells :=
      copy_cells Memory.zero (by decide)
    have memory := copy_cells (Memory.zero.writeBlock Memory.fontStart Memory.font) room
    rw [boot, if_neg large, Machine.boot, if_pos (Nat.not_lt.1 large), font]
    simp only [memory, bind, Except.bind, ← toFrame_blank]
    rfl

/-- A stored machine that was loaded is the stored form of a machine that was loaded. -/
theorem exists_boot_of_boot {program : List UInt8} {random : ρ} {s : Storage ρ}
    (booted : boot program random = .ok (.ok s)) :
    ∃ m, Machine.boot program random = .ok m ∧ s = m.storage := by
  rw [boot_eq] at booted
  cases loaded : Machine.boot program random with
  | error cause =>
    rw [loaded] at booted
    cases booted
  | ok m =>
    rw [loaded] at booted
    cases booted
    exact ⟨m, rfl, rfl⟩

/-! ### Families of instructions -/

theorem test_storage (m : Machine ρ) (x : Register) (condition : UInt8 → Bool) :
    m.storage.test x condition = .ok (m.skipIf (condition (m.reg x))).storage := by
  simp only [test, reg_storage, skipIf_storage, bind, Except.bind]
  rfl

theorem compare_storage (m : Machine ρ) (x y : Register) (condition : UInt8 → UInt8 → Bool) :
    m.storage.compare x y condition =
      .ok (m.skipIf (condition (m.reg x) (m.reg y))).storage := by
  simp only [compare, reg_storage, skipIf_storage, bind, Except.bind]
  rfl

theorem combine_storage (m : Machine ρ) (x y : Register) (result : UInt8 → UInt8 → UInt8) :
    m.storage.combine x y result = .ok (m.setReg x (result (m.reg x) (m.reg y))).storage := by
  simp only [combine, reg_storage, setReg_storage, bind, Except.bind]

theorem combineFlagged_storage (m : Machine ρ) (x y : Register)
    (result : UInt8 → UInt8 → UInt8) (flag : UInt8 → UInt8 → Bool) :
    m.storage.combineFlagged x y result flag =
      .ok (m.setFlagged x (result (m.reg x) (m.reg y)) (flag (m.reg x) (m.reg y))).storage := by
  simp only [combineFlagged, reg_storage, setFlagged_storage, bind, Except.bind]

/-- Two bytes never overflow a sum of sixteen bits, and its low byte is their sum modulo 256. -/
theorem addByte_storage (m : Machine ρ) (x : Register) (value : UInt8) :
    m.storage.addByte x value =
      .ok (m.setFlagged x (m.reg x + value)
        (decide (255 < (m.reg x).toNat + value.toNat))).storage := by
  rw [addByte_eq]
  exact setFlagged_storage m x _ _

/-! ### Keys -/

/-- Asking a stored keypad for a key is asking the keypad. -/
theorem isPressed_storage (m : Machine ρ) (name : UInt8) :
    m.storage.isPressed name = m.keypad.isPressed name := by
  by_cases key : name.toNat < 16
  · simp [isPressed, Keypad.isPressed, Key.ofNat?, key, Machine.storage, DigitTable.get]
  · simp [isPressed, Keypad.isPressed, Key.ofNat?, key]

/-- The place of the first pressed key in the list of all keys is the number of the lowest. -/
theorem findIdx?_keypad (p : Keypad) :
    p.entries.toList.findIdx? id = p.lowest?.map Fin.val := by
  have listed : p.entries.toList = (List.finRange 16).map p.get := by
    apply List.ext_getElem
    · simp
    · intro k h₁ h₂
      simp [DigitTable.get]
  rw [listed, List.findIdx?_map, Keypad.lowest?]
  apply Option.ext
  intro k
  rw [List.findIdx?_eq_some_iff_getElem, Option.map_eq_some_iff]
  constructor
  · rintro ⟨inside, pressed, least⟩
    refine ⟨(List.finRange 16)[k], ?_, by simp⟩
    exact List.find?_eq_some_iff_getElem.2 ⟨pressed, k, inside, rfl, by simpa using least⟩
  · rintro ⟨key, found, rfl⟩
    obtain ⟨pressed, k, inside, place, least⟩ := List.find?_eq_some_iff_getElem.1 found
    obtain rfl : k = key.val := by simpa [Fin.ext_iff] using place
    exact ⟨by simp, by simpa using pressed, by simpa using least⟩

/-- Waiting for a key stores the number of a key that exists. -/
theorem awaitKey_storage (m : Machine ρ) (x : Register) :
    m.storage.awaitKey x = .ok (m.awaitKey x).storage := by
  have place : m.storage.keypad.toList.findIdx? id = m.keypad.lowest?.map Fin.val :=
    findIdx?_keypad m.keypad
  rw [awaitKey, Machine.awaitKey, place]
  cases m.keypad.lowest? with
  | none => rfl
  | some key => exact setReg_storage m x _

/-! ### The index and blocks in memory -/

theorem pointGlyph_storage (m : Machine ρ) (x : Register) :
    m.storage.pointGlyph x =
      .ok { m with index := Memory.glyphAddress (m.reg x) }.storage :=
  m.storage.pointGlyph_eq x

theorem storeDecimal_storage (m : Machine ρ) (x : Register) :
    m.storage.storeDecimal x =
      .ok { m with
        memory := m.memory.writeBlock m.index.toNat
          (Machine.decimalDigits (m.reg x)) }.storage := by
  simp only [storeDecimal_eq, write_storage, bind, Except.bind]
  rfl

/-- The loop that dumps registers writes them as one block. -/
theorem dumpFrom_storage (m : Machine ρ) {k count : Nat} (fits : k + count ≤ 16) :
    m.storage.dumpFrom m.index.toNat k count =
      .ok { m with
        memory := m.memory.writeBlock (m.index.toNat + k)
          ((m.registers.toList.drop k).take count) }.storage := by
  induction count generalizing m k with
  | zero => simp [dumpFrom, pure, Except.pure]
  | succ count ih =>
    have hk : k < 16 := by omega
    have rest : (m.registers.toList.drop k).take (count + 1) =
        m.reg ⟨k, hk⟩ :: (m.registers.toList.drop (k + 1)).take count := by
      rw [List.drop_eq_getElem_cons (by simpa using hk), List.take_succ_cons,
        DigitTable.getElem_toList]
      rfl
    rw [dumpFrom_succ _ _ hk, write_storage, rest, Memory.writeBlock_cons]
    exact ih { m with memory := m.memory.write (m.index.toNat + k) (m.reg ⟨k, hk⟩) } (by omega)

/-- The loop that loads registers replaces those that it comes to. -/
theorem loadFrom_storage (m : Machine ρ) {k count : Nat} (fits : k + count ≤ 16) :
    m.storage.loadFrom m.index.toNat k count =
      .ok { m with
        registers := .ofFn fun x =>
          if k ≤ x.val ∧ x.val < k + count then m.memory.read (m.index.toNat + x.val)
          else m.registers.get x }.storage := by
  induction count generalizing m k with
  | zero =>
    have kept : (DigitTable.ofFn fun x : Register =>
        if k ≤ x.val ∧ x.val < k + 0 then m.memory.read (m.index.toNat + x.val)
        else m.registers.get x) = m.registers := by
      apply DigitTable.ext_get
      intro x
      rw [DigitTable.get_ofFn, if_neg (by omega)]
    rw [kept]
    rfl
  | succ count ih =>
    have hk : k < 16 := by omega
    let n : Machine ρ := m.setReg ⟨k, hk⟩ (m.memory.read (m.index.toNat + k))
    rw [loadFrom_succ _ _ hk, setReg_storage]
    -- the rest of the loop reads from the same memory, since only register `k` has changed
    have later := @ih n (k + 1) (by omega)
    have same : (DigitTable.ofFn fun x : Register =>
        if k + 1 ≤ x.val ∧ x.val < k + 1 + count then n.memory.read (n.index.toNat + x.val)
        else n.registers.get x) = .ofFn fun x : Register =>
        if k ≤ x.val ∧ x.val < k + (count + 1) then m.memory.read (m.index.toNat + x.val)
        else m.registers.get x := by
      apply DigitTable.ext_get
      intro x
      rw [DigitTable.get_ofFn, DigitTable.get_ofFn]
      have written : n.registers.get x =
          if k = x.val then m.memory.read (m.index.toNat + k) else m.registers.get x := by
        simp [n, Machine.setReg, DigitTable.get_set, Fin.ext_iff]
      by_cases here : k = x.val
      · rw [if_neg (by omega), written, if_pos here, if_pos (by omega), here]
      · have behind : k + 1 ≤ x.val ∧ x.val < k + 1 + count ↔
            k ≤ x.val ∧ x.val < k + (count + 1) := by omega
        rw [written, if_neg here]
        simp only [behind]
        rfl
    rw [same] at later
    exact later

/-- Loading a block at once is loading its registers one by one. -/
theorem load_readBlock (m : Machine ρ) (x : Register) :
    m.registers.load (m.memory.readBlock m.index.toNat (x.val + 1)) = .ofFn fun y =>
      if 0 ≤ y.val ∧ y.val < 0 + (x.val + 1) then m.memory.read (m.index.toNat + y.val)
      else m.registers.get y := by
  apply DigitTable.ext_get
  intro y
  rw [RegisterFile.get_load, DigitTable.get_ofFn]
  by_cases inside : y.val < x.val + 1
  · rw [if_pos (by omega), List.getElem?_eq_getElem (by simpa using inside),
      Memory.getElem_readBlock]
    rfl
  · rw [if_neg (by omega), List.getElem?_eq_none (by simpa using Nat.not_lt.1 inside)]
    rfl

theorem drawAt_storage (m : Machine ρ) (x y : Register) (height : UInt8) :
    m.storage.drawAt x y height = .ok (m.drawAt x y height).storage := by
  have rows : 0 + height.toNat < 256 := by
    have := height.toNat_lt
    omega
  have drawn := drawRows_toFrame m (Nat.mod_lt (m.reg x).toNat (show 0 < 64 by decide))
    (Nat.mod_lt (m.reg y).toNat (show 0 < 32 by decide)) m.screen false rows
  simp only [drawAt, reg_storage, bind, Except.bind]
  rw [show m.storage.screen = m.screen.toFrame from rfl, drawn]
  simp only [Bool.false_or, Nat.add_zero]
  exact setReg_storage
    { m with
      screen := (m.screen.drawSprite ((m.reg x).toNat % 64) ((m.reg y).toNat % 32)
        (m.memory.readBlock m.index.toNat height.toNat)).1 } Register.flag _

/-! ### Timers -/

theorem countDown_eq_ok (timer : UInt8) :
    Checked.countDown timer = .ok (Chip8.countDown timer 1) := by
  by_cases running : 0 < timer
  · have positive : 1 ≤ timer.toNat := UInt8.lt_iff_toNat_lt.1 running
    rw [Checked.countDown, if_pos running, Checked.sub_of_le positive]
    rfl
  · have stopped : timer = 0 := by
      simpa [UInt8.lt_iff_toNat_lt, ← UInt8.toNat_inj] using running
    rw [Checked.countDown, if_neg running, stopped]
    rfl

/-- Checked ticks agree with plain ones. -/
theorem ticks_storage (m : Machine ρ) (count : Nat) :
    m.storage.ticks count = .ok (m.ticks count).storage := by
  induction count with
  | zero => simp [ticks, pure, Except.pure]
  | succ count ih =>
    have delay := countDown_eq_ok (m.ticks count).storage.delay
    have sound := countDown_eq_ok (m.ticks count).storage.sound
    simp only [ticks, ih, delay, sound, bind, Except.bind]
    rw [Machine.ticks_succ]
    rfl

/-! ### The call stack -/

theorem depth_storage_eq_zero_iff (m : Machine ρ) :
    m.storage.depth = 0 ↔ m.stack.depth = 0 := by
  rw [← toNat_depth_storage, ← UInt8.toNat_inj]
  rfl

variable [ByteSource ρ]

/-- A checked return reads a slot in use. -/
theorem ret_storage (m : Machine ρ) : m.storage.ret = .ok (m.execute .ret).stored := by
  by_cases empty : m.stack.depth = 0
  · have refused : m.stack.pop? = none := CallStack.pop?_eq_none_iff.2 empty
    rw [ret, if_pos ((depth_storage_eq_zero_iff m).2 empty)]
    simp only [Machine.execute, refused]
    rfl
  · have used : 0 < m.stack.depth := Nat.pos_of_ne_zero empty
    have depth : m.storage.depth.toNat = m.stack.depth := toNat_depth_storage m
    rw [ret_of_pos (depth.symm ▸ used) (depth.symm ▸ m.stack.depth_le)]
    simp only [depth, Machine.execute, CallStack.pop?, dif_pos used]
    rfl

/-- A checked call writes a slot that exists. -/
theorem call_storage (m : Machine ρ) (target : UInt16) :
    m.storage.call target = .ok (m.execute (.call target)).stored := by
  have depth : m.storage.depth.toNat = m.stack.depth := toNat_depth_storage m
  by_cases full : m.stack.depth = 16
  · have refused : m.stack.push? m.pc = none := CallStack.push?_eq_none_iff.2 full
    rw [call, if_pos (depth.trans full)]
    simp only [Machine.execute, refused]
    rfl
  · have room : m.stack.depth < 16 := Nat.lt_of_le_of_ne m.stack.depth_le full
    rw [call_of_lt (depth.symm ▸ room)]
    simp only [depth, Machine.execute, CallStack.push?, dif_pos room]
    rfl

/-! ### One instruction -/

/-- A checked jump with offset agrees with the plain one as long as the sum fits in a word. -/
theorem execute_jumpOffset_storage (m : Machine ρ) {base : UInt16}
    (fits : (m.reg 0).toNat + base.toNat < 65536) :
    m.storage.execute (.jumpOffset base) = .ok (m.execute (.jumpOffset base)).stored := by
  have word : UInt16.ofNat ((m.reg 0).toNat + base.toNat) = (m.reg 0).toUInt16 + base := by
    apply UInt16.toNat_inj.1
    simp [UInt16.toNat_add]
  rw [execute_jumpOffset_of_lt (reg_storage m 0) fits, word]
  simp only [Machine.execute, if_pos fits]
  rfl

/-- A checked jump with offset traps if the sum does not fit in a word. -/
theorem execute_storage_of_overflow (m : Machine ρ) {base : UInt16}
    (large : 65536 ≤ (m.reg 0).toNat + base.toNat) :
    m.storage.execute (.jumpOffset base) = .error .overflow :=
  execute_jumpOffset_of_overflow (reg_storage m 0) large

/-- Checked execution of an instruction agrees with plain execution, unless it is a jump with
offset beyond sixteen bits. -/
theorem execute_storage (m : Machine ρ) (i : Instruction)
    (fits : ∀ base, i = .jumpOffset base → (m.reg 0).toNat + base.toNat < 65536) :
    m.storage.execute i = .ok (m.execute i).stored := by
  cases i with
  | clear =>
    simp only [execute, ← toFrame_blank]
    rfl
  | ret => exact ret_storage m
  | jump target => rfl
  | call target => exact call_storage m target
  | skipIfConst x value => exact congrArg finish (test_storage m x _)
  | skipUnlessConst x value => exact congrArg finish (test_storage m x _)
  | skipIfSame x y => exact congrArg finish (compare_storage m x y _)
  | setConst x value => exact congrArg finish (setReg_storage m x value)
  | addConst x value => exact congrArg finish (addByte_storage m x value)
  | copy x y => exact congrArg finish (combine_storage m x y _)
  | or x y => exact congrArg finish (combine_storage m x y _)
  | and x y => exact congrArg finish (combine_storage m x y _)
  | xor x y => exact congrArg finish (combine_storage m x y _)
  | add x y =>
    simp only [execute, reg_storage, bind, Except.bind]
    exact congrArg finish (addByte_storage m x (m.reg y))
  | sub x y => exact congrArg finish (combineFlagged_storage m x y _ _)
  | shiftRight x => exact congrArg finish (combineFlagged_storage m x x _ _)
  | subFrom x y => exact congrArg finish (combineFlagged_storage m x y _ _)
  | shiftLeft x => exact congrArg finish (combineFlagged_storage m x x _ _)
  | skipUnlessSame x y => exact congrArg finish (compare_storage m x y _)
  | setIndex address => rfl
  | jumpOffset base => exact execute_jumpOffset_storage m (fits base rfl)
  | random x mask =>
    exact congrArg finish
      (setReg_storage { m with random := (ByteSource.next m.random).2 } x _)
  | draw x y height => exact congrArg finish (drawAt_storage m x y height)
  | skipIfPressed x =>
    simp only [execute, isPressed_storage]
    exact congrArg finish (test_storage m x _)
  | skipUnlessPressed x =>
    simp only [execute, isPressed_storage]
    exact congrArg finish (test_storage m x _)
  | readDelay x => exact congrArg finish (setReg_storage m x m.delay)
  | awaitKey x => exact congrArg finish (awaitKey_storage m x)
  | setDelay x =>
    simp only [execute, reg_storage, bind, Except.bind]
    rfl
  | setSound x =>
    simp only [execute, reg_storage, bind, Except.bind]
    rfl
  | addIndex x =>
    simp only [execute, reg_storage, bind, Except.bind]
    rfl
  | pointGlyph x => exact congrArg finish (pointGlyph_storage m x)
  | storeDecimal x => exact congrArg finish (storeDecimal_storage m x)
  | dump x =>
    have fits : 0 + (x.val + 1) ≤ 16 := by omega
    exact congrArg finish (dumpFrom_storage m fits)
  | load x =>
    have fits : 0 + (x.val + 1) ≤ 16 := by omega
    simp only [Machine.execute, load_readBlock]
    exact congrArg finish (loadFrom_storage m fits)
  | unknown word => rfl

/-- Checked execution traps exactly at a jump with offset beyond sixteen bits. -/
theorem execute_storage_eq_error_iff (m : Machine ρ) (i : Instruction) (trap : Trap) :
    m.storage.execute i = .error trap ↔
      trap = .overflow ∧
        ∃ base, i = .jumpOffset base ∧ 65535 < (m.reg 0).toNat + base.toNat := by
  constructor
  · intro trapped
    by_cases large : ∃ base, i = .jumpOffset base ∧ 65535 < (m.reg 0).toNat + base.toNat
    · obtain ⟨base, rfl, beyond⟩ := large
      rw [execute_storage_of_overflow m beyond] at trapped
      cases trapped
      exact ⟨rfl, base, rfl, beyond⟩
    · have fits : ∀ base, i = .jumpOffset base → (m.reg 0).toNat + base.toNat < 65536 :=
        fun base jump => Nat.not_le.1 fun beyond => large ⟨base, jump, beyond⟩
      rw [execute_storage m i fits] at trapped
      cases trapped
  · rintro ⟨rfl, base, rfl, large⟩
    exact execute_storage_of_overflow m large

/-! ### One action -/

/-- A checked cycle agrees with the plain one in every machine. -/
theorem cycle_storage (m : Machine ρ) : m.storage.cycle = .ok m.cycle.stored := by
  have second : Checked.add 64 m.storage.pc.toNat 1 = .ok (m.pc.toNat + 1) :=
    Checked.add_word m.pc (by decide)
  have fits : ∀ base, m.fetch = .jumpOffset base →
      (m.advance.reg 0).toNat + base.toNat < 65536 := fun base fetched =>
    Machine.offset_add_lt_of_fetch (m := m) fetched
  have executed : m.advance.storage.execute m.fetch = .ok (m.advance.execute m.fetch).stored :=
    execute_storage m.advance m.fetch fits
  have moved : { m.storage with pc := m.storage.pc + 2 } = m.advance.storage := rfl
  have fetched : Instruction.ofBytes (m.memory.read m.storage.pc.toNat)
      (m.memory.read (m.pc.toNat + 1)) = m.fetch := rfl
  simp only [cycle, read_storage, second, bind, Except.bind]
  rw [moved, fetched, executed]
  simp only [Machine.cycle, Outcome.stored]
  -- what the instruction did no longer matters, only whether there is a fault
  generalize m.advance.execute m.fetch = outcome
  obtain ⟨machine, fault, log⟩ := outcome
  cases fault with
  | none => rfl
  | some f => rfl

/-- A checked action agrees with the plain one, unless it executes a jump with offset beyond
sixteen bits. -/
theorem perform_storage (m : Machine ρ) (a : Action)
    (fits : ∀ base, a = .execute (.jumpOffset base) →
      (m.reg 0).toNat + base.toNat < 65536) :
    m.storage.perform a = .ok (m.perform a).stored := by
  cases a with
  | cycle => exact cycle_storage m
  | execute i => exact execute_storage m i fun base jump => fits base (congrArg _ jump)
  | ticks count => exact congrArg finish (ticks_storage m count)
  | setKeypad keys => rfl
  | setKey k down =>
    have keypad : Checked.set m.storage.keypad k.val down =
        .ok (m.keypad.set k down).entries := Checked.set_of_lt _ k.isLt _
    simp only [perform, keypad, bind, Except.bind]
    rfl
  | setDelay value => rfl
  | setSound value => rfl

/-- A checked action that does not trap agrees with the plain one. -/
theorem perform_storage_of_ok {m : Machine ρ} {a : Action} {reply : Reply ρ}
    (completed : m.storage.perform a = .ok reply) : reply = (m.perform a).stored := by
  have fits : ∀ base, a = .execute (.jumpOffset base) →
      (m.reg 0).toNat + base.toNat < 65536 := by
    rintro base rfl
    refine Nat.lt_of_not_le fun large => ?_
    have trapped : m.storage.perform (.execute (.jumpOffset base)) = .error .overflow :=
      execute_storage_of_overflow m large
    rw [trapped] at completed
    cases completed
  rw [perform_storage m a fits] at completed
  exact (Except.ok.inj completed).symm

/-- A checked run that does not trap ends in the stored form of the machine that the plain run
leads to. -/
theorem eq_storage_of_after_storage {m : Machine ρ} {actions : List Action} {s : Storage ρ}
    (completed : m.storage.after actions = .ok s) : s = (m.after actions).storage := by
  induction actions generalizing m with
  | nil => exact (Except.ok.inj completed).symm
  | cons a rest ih =>
    cases first : m.storage.perform a with
    | error trap =>
      simp only [after, first, bind, Except.bind] at completed
      cases completed
    | ok reply =>
      simp only [after, first, bind, Except.bind] at completed
      rw [perform_storage_of_ok first] at completed
      exact ih completed

end Storage

end Chip8
