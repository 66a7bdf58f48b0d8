import Chip8.Proofs.Machine.Drawing
import Chip8.Proofs.Machine.Runs

/-!
# Drawing several sprites

An instruction that draws writes to the screen and to the flag.  If neither of its coordinates comes
from the flag, as `Instruction.drawsSteadily` demands, then drawing does not move its sprite: after
any number of such instructions it still covers the same pixels (`Redrawn.covers`).

Hence a list of such instructions inverts a pixel once for every sprite that covers it, and the
drawn screen depends only on whether this number is odd, `Machine.coversOddly` (`redrawn_after`).
The order of the list does not matter, and two equal instructions cancel.  The main statement,
`sprites_permute_and_cancel`, says so for machines and, cell by cell, for stored machines with any
depth; it also says what the flag shows when one sprite is drawn twice.
-/

namespace Chip8

/-- Whether an instruction draws a sprite whose coordinates do not come from the flag. -/
def Instruction.drawsSteadily : Instruction → Bool
  | draw x y _ => x != Register.flag && y != Register.flag
  | _ => false

theorem Instruction.exists_draw_of_drawsSteadily {i : Instruction} (steady : i.drawsSteadily) :
    ∃ x y height, i = .draw x y height ∧ x ≠ Register.flag ∧ y ≠ Register.flag := by
  cases i with
  | draw x y height =>
    have apart : x ≠ Register.flag ∧ y ≠ Register.flag := by
      simpa [drawsSteadily] using steady
    exact ⟨x, y, height, rfl, apart⟩
  | _ => cases steady

namespace Machine

variable {ρ : Type}

/-! ### Pixels covered by a list of sprites -/

/-- Whether the sprite that an instruction draws covers a pixel. -/
def covers (m : Machine ρ) (px py : Nat) : Instruction → Bool
  | .draw x y height =>
    Screen.covered (m.memory.readBlock m.index.toNat height.toNat)
      ((m.reg x).toNat % 64) ((m.reg y).toNat % 32) px py
  | _ => false

/-- On the screen an instruction covers the pixels under the set bits of its sprite. -/
theorem covers_draw_iff (m : Machine ρ) (x y : Register) (height : UInt8) {px py : Nat}
    (hx : px < 64) (hy : py < 32) :
    m.covers px py (.draw x y height) = true ↔ m.spriteCovers x y height px py :=
  Screen.covered_readBlock_iff m.memory _ _ _ _ hx hy

/-- Whether an odd number of the instructions in a list cover a pixel. -/
def coversOddly (m : Machine ρ) (px py : Nat) (draws : List Instruction) : Bool :=
  decide (draws.countP (m.covers px py) % 2 = 1)

@[simp] theorem coversOddly_nil (m : Machine ρ) (px py : Nat) : m.coversOddly px py [] = false :=
  rfl

theorem coversOddly_cons (m : Machine ρ) (px py : Nat) (i : Instruction)
    (rest : List Instruction) :
    m.coversOddly px py (i :: rest) = (m.covers px py i ^^ m.coversOddly px py rest) := by
  rw [coversOddly, coversOddly, List.countP_cons]
  cases m.covers px py i with
  | false => simp
  | true =>
    rcases Nat.mod_two_eq_zero_or_one (rest.countP (m.covers px py)) with even | odd
    · simp [even, Nat.add_mod]
    · simp [odd, Nat.add_mod]

/-- Rearranging a list does not change which pixels it covers oddly. -/
theorem coversOddly_of_perm (m : Machine ρ) (px py : Nat) {first second : List Instruction}
    (same : first.Perm second) : m.coversOddly px py first = m.coversOddly px py second := by
  rw [coversOddly, coversOddly, same.countP_eq]

/-- Two equal instructions cover each pixel an even number of times. -/
theorem coversOddly_pair (m : Machine ρ) (px py : Nat) (d : Instruction)
    (rest : List Instruction) :
    m.coversOddly px py (d :: d :: rest) = m.coversOddly px py rest := by
  rw [coversOddly_cons, coversOddly_cons, ← Bool.xor_assoc, Bool.xor_self, Bool.false_xor]

/-! ### Redrawn machines -/

/-- Whether a machine differs from another in the screen and the flag only. -/
def Redrawn (m n : Machine ρ) : Prop :=
  ∃ screen value,
    n = { m with screen := screen, registers := m.registers.set Register.flag value }

theorem Redrawn.refl (m : Machine ρ) : Redrawn m m := by
  refine ⟨m.screen, m.registers.get Register.flag, ?_⟩
  have same : m.registers.set Register.flag (m.registers.get Register.flag) = m.registers := by
    apply DigitTable.ext_get
    intro x
    rw [DigitTable.get_set]
    split
    · next here => rw [here]
    · rfl
  rw [same]

theorem Redrawn.trans {l m n : Machine ρ} (first : Redrawn l m) (second : Redrawn m n) :
    Redrawn l n := by
  obtain ⟨screen, value, rfl⟩ := first
  obtain ⟨screen', value', rfl⟩ := second
  refine ⟨screen', value', ?_⟩
  have last : (l.registers.set Register.flag value).set Register.flag value' =
      l.registers.set Register.flag value' := by
    apply DigitTable.ext_get
    intro x
    simp only [DigitTable.get_set]
    split <;> rfl
  rw [last]

/-- Registers other than the flag are not redrawn. -/
theorem Redrawn.reg {m n : Machine ρ} (h : Redrawn m n) {x : Register}
    (other : x ≠ Register.flag) : n.reg x = m.reg x := by
  obtain ⟨screen, value, rfl⟩ := h
  show (m.registers.set Register.flag value).get x = m.registers.get x
  rw [DigitTable.get_set, if_neg (Ne.symm other)]

/-- An instruction that draws steadily covers the same pixels after any drawing. -/
theorem Redrawn.covers {m n : Machine ρ} (h : Redrawn m n) {i : Instruction}
    (steady : i.drawsSteadily) (px py : Nat) : n.covers px py i = m.covers px py i := by
  obtain ⟨x, y, height, rfl, hx, hy⟩ := Instruction.exists_draw_of_drawsSteadily steady
  have vx : n.reg x = m.reg x := h.reg hx
  have vy : n.reg y = m.reg y := h.reg hy
  obtain ⟨screen, value, rfl⟩ := h
  simp only [Machine.covers, vx, vy]

/-- Instructions that draw steadily cover the same pixels oddly after any drawing. -/
theorem Redrawn.coversOddly {m n : Machine ρ} (h : Redrawn m n) {draws : List Instruction}
    (steady : ∀ i ∈ draws, i.drawsSteadily) (px py : Nat) :
    n.coversOddly px py draws = m.coversOddly px py draws := by
  have counts : draws.countP (n.covers px py) = draws.countP (m.covers px py) := by
    apply List.countP_congr
    intro i hi
    rw [h.covers (steady i hi)]
  rw [Machine.coversOddly, Machine.coversOddly, counts]

/-! ### Execution of a list of sprites -/

variable [ByteSource ρ]

/-- An instruction that draws meets no fault, redraws the machine and inverts the pixels that it
covers. -/
theorem execute_of_drawsSteadily (m : Machine ρ) {i : Instruction} (steady : i.drawsSteadily) :
    (m.execute i).fault = none ∧ Redrawn m (m.execute i).machine ∧
      ∀ px py, (m.execute i).machine.screen.pixel px py =
        (m.screen.pixel px py ^^ m.covers px py i) := by
  obtain ⟨x, y, height, rfl, -, -⟩ := Instruction.exists_draw_of_drawsSteadily steady
  refine ⟨rfl, ⟨_, _, rfl⟩, ?_⟩
  intro px py
  exact Screen.pixel_drawSprite m.screen _ _ _ px py

/-- Instructions that draw steadily are all carried out; they redraw the machine and invert the
pixels that they cover oddly. -/
theorem redrawn_after (m : Machine ρ) {draws : List Instruction}
    (steady : ∀ i ∈ draws, i.drawsSteadily) :
    m.instructions (draws.map .execute) = draws ∧ Redrawn m (m.after (draws.map .execute)) ∧
      ∀ px py, (m.after (draws.map .execute)).screen.pixel px py =
        (m.screen.pixel px py ^^ m.coversOddly px py draws) := by
  induction draws generalizing m with
  | nil => exact ⟨rfl, Redrawn.refl m, fun px py => by simp⟩
  | cons i rest ih =>
    have later : ∀ j ∈ rest, j.drawsSteadily := fun j hj => steady j (List.mem_cons_of_mem i hj)
    obtain ⟨clean, redrawn, pixel⟩ := m.execute_of_drawsSteadily (steady i List.mem_cons_self)
    obtain ⟨carried, redrawn', pixel'⟩ := ih (m.execute i).machine later
    have executed : m.carriedOut (.execute i) = some i := by
      simp only [carriedOut, clean, Option.isNone_none, if_true]
    rw [List.map_cons, after_cons, instructions_cons, executed]
    refine ⟨congrArg (i :: ·) carried, redrawn.trans redrawn', ?_⟩
    intro px py
    calc ((m.execute i).machine.after (rest.map .execute)).screen.pixel px py
        = (m.screen.pixel px py ^^ m.covers px py i ^^
            (m.execute i).machine.coversOddly px py rest) := by rw [pixel', pixel]
      -- the later sprites cover what they would have covered before the first was drawn
      _ = (m.screen.pixel px py ^^ m.covers px py i ^^ m.coversOddly px py rest) := by
          rw [redrawn.coversOddly later]
      _ = (m.screen.pixel px py ^^ m.coversOddly px py (i :: rest)) := by
          rw [coversOddly_cons, Bool.xor_assoc]

/-- Lists of instructions that cover the same pixels oddly draw the same screen. -/
theorem screen_after_congr (m : Machine ρ) (first second : List Instruction)
    (steady : ∀ i ∈ first, i.drawsSteadily) (steady' : ∀ i ∈ second, i.drawsSteadily)
    (same : ∀ px py, m.coversOddly px py first = m.coversOddly px py second) :
    (m.after (first.map .execute)).screen = (m.after (second.map .execute)).screen := by
  obtain ⟨-, -, pixel⟩ := m.redrawn_after steady
  obtain ⟨-, -, pixel'⟩ := m.redrawn_after steady'
  apply Screen.ext_pixel
  intro px _ py _
  rw [pixel, pixel', same]

/-! ### One sprite drawn twice -/

omit [ByteSource ρ] in
/-- The flag after drawing says whether a pixel under the sprite was lit. -/
theorem flag_drawAt_eq_one_iff (m : Machine ρ) (x y : Register) (height : UInt8) :
    (m.drawAt x y height).reg Register.flag = 1 ↔
      ∃ px < 64, ∃ py < 32, m.screen.pixel px py = true ∧ m.spriteCovers x y height px py := by
  obtain ⟨hit, drawn, lit⟩ := m.exists_hit_drawAt x y height
  have flag : (m.drawAt x y height).reg Register.flag = if hit then 1 else 0 := by
    rw [drawn]
    exact DigitTable.get_set_self m.registers Register.flag _
  rw [flag, ← lit]
  cases hit <;> decide

/-- Drawing a sprite a second time restores the screen, and the flag then says whether a pixel under
the sprite was dark at first. -/
theorem drawAt_drawAt (m : Machine ρ) {x y : Register} (hx : x ≠ Register.flag)
    (hy : y ≠ Register.flag) (height : UInt8) :
    ((m.drawAt x y height).drawAt x y height).screen = m.screen ∧
      (((m.drawAt x y height).drawAt x y height).reg Register.flag = 1 ↔
        ∃ px < 64, ∃ py < 32, m.screen.pixel px py = false ∧
          m.spriteCovers x y height px py) := by
  have steady : (Instruction.draw x y height).drawsSteadily := by
    simp [Instruction.drawsSteadily, hx, hy]
  obtain ⟨-, redrawn, pixel⟩ := m.execute_of_drawsSteadily steady
  constructor
  · refine m.screen_after_congr [.draw x y height, .draw x y height] [] ?_ ?_
      fun px py => m.coversOddly_pair px py (.draw x y height) []
    · simpa using steady
    · simp
  · have vx : (m.drawAt x y height).reg x = m.reg x := redrawn.reg hx
    have vy : (m.drawAt x y height).reg y = m.reg y := redrawn.reg hy
    have under : (m.drawAt x y height).spriteCovers x y height = m.spriteCovers x y height := by
      rw [spriteCovers, spriteCovers, vx, vy]
      rfl
    rw [flag_drawAt_eq_one_iff, under]
    refine exists_congr fun px => and_congr_right fun hpx => exists_congr fun py =>
      and_congr_right fun hpy => and_congr_left fun here => ?_
    have inverted : (m.drawAt x y height).screen.pixel px py = !m.screen.pixel px py := by
      have set : m.covers px py (.draw x y height) = true :=
        (m.covers_draw_iff x y height hpx hpy).2 here
      have drawn := pixel px py
      rwa [set, Bool.xor_true] at drawn
    rw [inverted, Bool.not_eq_true']

end Machine

/-! ### Stored machines -/

/-- Drawing a list of sprites does to a machine what it does to a stored machine with the same
screen, whatever the depth. -/
theorem Storage.after_draws_loosened {ρ : Type} [ByteSource ρ] (m : Machine ρ) (depth : UInt8)
    {draws : List Instruction} (steady : ∀ i ∈ draws, i.drawsSteadily) :
    (m.storage.loosened depth m.screen.toFrame).after (draws.map .execute) =
      .ok ((m.after (draws.map .execute)).storage.loosened depth
        (m.after (draws.map .execute)).screen.toFrame) := by
  induction draws generalizing m with
  | nil => rfl
  | cons i rest ih =>
    obtain ⟨x, y, height, rfl, -, -⟩ :=
      Instruction.exists_draw_of_drawsSteadily (steady i List.mem_cons_self)
    have first : (m.storage.loosened depth m.screen.toFrame).perform
        (.execute (.draw x y height)) =
        .ok ((m.drawAt x y height).storage.loosened depth (m.drawAt x y height).screen.toFrame,
          none) := execute_draw_loosened m depth x y height
    simp only [List.map_cons, after, first, bind, Except.bind]
    exact ih (m.drawAt x y height) fun j hj => steady j (List.mem_cons_of_mem _ hj)

/-- Some cell of a frame has a colour and a property exactly if some pixel of the screen has. -/
theorem Screen.exists_toFrame_iff (s : Screen) (on : Bool) {P : Nat → Nat → Prop} :
    (∃ (k : Nat) (h : k < 2048), s.toFrame[k] = cellOf on ∧ P (k % 64) (k / 64)) ↔
      ∃ x < 64, ∃ y < 32, s.pixel x y = on ∧ P x y := by
  have injective : ∀ a b : Bool, cellOf a = cellOf b ↔ a = b := by decide
  rw [← exists_cell_iff (P := fun x y => s.pixel x y = on ∧ P x y)]
  refine exists_congr fun k => ?_
  constructor
  · rintro ⟨hk, on, here⟩
    rw [s.getElem_toFrame k hk, injective] at on
    exact ⟨hk, on, here⟩
  · rintro ⟨hk, on, here⟩
    exact ⟨hk, by rw [s.getElem_toFrame k hk, on], here⟩

/-- Sprites may be drawn in any order, and two equal ones cancel.  Two lists of instructions that
draw at registers other than the flag lead from every machine to the same screen if one is a
rearrangement of the other, or of the other together with two equal instructions; none of them meets
a fault.  A sprite that is drawn twice at such registers leaves the screen as it was; the flag
becomes one at first exactly if a pixel under the sprite was lit, and then exactly if one was dark.
The same is true, cell by cell, of a stored machine in which every cell of the screen is lit or
dark, whatever else it holds, and the drawing completes. -/
theorem sprites_permute_and_cancel {ρ : Type} [ByteSource ρ] :
    (∀ first second : List Instruction, (∀ i ∈ first, i.drawsSteadily) →
      (first.Perm second ∨ ∃ d, first.Perm (d :: d :: second)) →
      (∀ m : Machine ρ,
        m.instructions (first.map .execute) = first ∧
        m.instructions (second.map .execute) = second ∧
        (m.after (first.map .execute)).screen = (m.after (second.map .execute)).screen) ∧
      ∀ s : Storage ρ,
        (∀ k (h : k < 2048), s.screen[k] = Frame.lit ∨ s.screen[k] = Frame.dark) →
        ∃ t u, s.after (first.map .execute) = .ok t ∧ s.after (second.map .execute) = .ok u ∧
          t.screen = u.screen) ∧
    ∀ (x y : Register) (height : UInt8), x ≠ Register.flag → y ≠ Register.flag →
      (∀ m : Machine ρ,
        let covers := m.memory.SpriteCovers m.index.toNat height.toNat
          ((m.reg x).toNat % 64) ((m.reg y).toNat % 32)
        let once := (m.execute (.draw x y height)).machine
        let twice := (once.execute (.draw x y height)).machine
        twice.screen = m.screen ∧
        (once.reg Register.flag = 1 ↔
          ∃ px < 64, ∃ py < 32, m.screen.pixel px py = true ∧ covers px py) ∧
        (twice.reg Register.flag = 1 ↔
          ∃ px < 64, ∃ py < 32, m.screen.pixel px py = false ∧ covers px py)) ∧
      ∀ s : Storage ρ,
        (∀ k (h : k < 2048), s.screen[k] = Frame.lit ∨ s.screen[k] = Frame.dark) →
        let memory : Memory := ⟨s.memory⟩
        let registers : RegisterFile := ⟨s.registers⟩
        let covers := memory.SpriteCovers s.index.toNat height.toNat
          ((registers.get x).toNat % 64) ((registers.get y).toNat % 32)
        ∃ once twice : Storage ρ,
          s.execute (.draw x y height) = .ok (once, none) ∧
          once.execute (.draw x y height) = .ok (twice, none) ∧
          twice.screen = s.screen ∧
          (once.reg Register.flag = .ok 1 ↔
            ∃ (k : Nat) (h : k < 2048), s.screen[k] = Frame.lit ∧ covers (k % 64) (k / 64)) ∧
          (twice.reg Register.flag = .ok 1 ↔
            ∃ (k : Nat) (h : k < 2048), s.screen[k] = Frame.dark ∧ covers (k % 64) (k / 64)) := by
  refine ⟨?_, ?_⟩
  · intro first second steady related
    have steady' : ∀ i ∈ second, i.drawsSteadily := by
      intro i hi
      rcases related with perm | ⟨d, perm⟩
      · exact steady i (perm.mem_iff.2 hi)
      · exact steady i (perm.mem_iff.2 (List.mem_cons_of_mem d (List.mem_cons_of_mem d hi)))
    have screen : ∀ m : Machine ρ,
        (m.after (first.map .execute)).screen = (m.after (second.map .execute)).screen := by
      intro m
      refine m.screen_after_congr first second steady steady' fun px py => ?_
      rcases related with perm | ⟨d, perm⟩
      · exact m.coversOddly_of_perm px py perm
      · rw [m.coversOddly_of_perm px py perm, Machine.coversOddly_pair]
    refine ⟨fun m => ⟨(m.redrawn_after steady).1, (m.redrawn_after steady').1, screen m⟩, ?_⟩
    intro s binary
    obtain ⟨m, depth, rfl⟩ := Storage.exists_machine_of_binary binary
    exact ⟨_, _, Storage.after_draws_loosened m depth steady,
      Storage.after_draws_loosened m depth steady', congrArg Screen.toFrame (screen m)⟩
  · intro x y height hx hy
    refine ⟨?_, ?_⟩
    · intro m covers once twice
      obtain ⟨restored, dark⟩ := m.drawAt_drawAt hx hy height
      exact ⟨restored, m.flag_drawAt_eq_one_iff x y height, dark⟩
    · intro s binary memory registers covers
      obtain ⟨m, depth, rfl⟩ := Storage.exists_machine_of_binary binary
      obtain ⟨restored, dark⟩ := m.drawAt_drawAt hx hy height
      have flag : ∀ n : Machine ρ,
          (n.storage.loosened depth n.screen.toFrame).reg Register.flag = .ok 1 ↔
            n.reg Register.flag = 1 := by
        intro n
        have read : (n.storage.loosened depth n.screen.toFrame).reg Register.flag =
            .ok (n.reg Register.flag) := Storage.reg_storage n Register.flag
        rw [read, Except.ok.injEq]
      refine ⟨_, _, Storage.execute_draw_loosened m depth x y height,
        Storage.execute_draw_loosened (m.drawAt x y height) depth x y height,
        congrArg Screen.toFrame restored, ?_, ?_⟩
      · rw [flag, m.flag_drawAt_eq_one_iff]
        exact (m.screen.exists_toFrame_iff true).symm
      · rw [flag, dark]
        exact (m.screen.exists_toFrame_iff false).symm

/-- A sprite of three rows from the last cell of memory on, drawn in the lower right corner before
and after one of two hundred rows that overlaps it: the second drawing takes the first one back.
Drawn twice without the other it meets the lit pixel in the corner at first and a pixel that was
dark then, also on a stored machine whose depth is no depth of a call stack. -/
theorem sprites_permute_and_cancel_in_corner :
    let m : Machine CyclicSource :=
      { Machine.fresh [] (CyclicSource.ofPattern [7]) with
        memory := (Memory.zero.write 4095 0x81).write 0 0xC0
        registers := ((RegisterFile.zero.set 0 254).set 1 62).set 2 61
        index := 0xFFFF
        screen := .ofPixels fun px py => px == 63 && py == 31 }
    let s := m.storage.loosened 200 m.screen.toFrame
    let first : List Instruction := [.draw 0 1 3, .draw 2 1 200, .draw 0 1 3]
    let second : List Instruction := [.draw 2 1 200]
    (∀ i ∈ first, i.drawsSteadily) ∧ first.Perm (.draw 0 1 3 :: .draw 0 1 3 :: second) ∧
    (m.after (first.map .execute)).screen = (m.after (second.map .execute)).screen ∧
    (∃ t u, s.after (first.map .execute) = .ok t ∧ s.after (second.map .execute) = .ok u ∧
      t.screen = u.screen) ∧
    ((m.drawAt 0 1 3).drawAt 0 1 3).screen = m.screen ∧
    (m.drawAt 0 1 3).reg Register.flag = 1 ∧
    ((m.drawAt 0 1 3).drawAt 0 1 3).reg Register.flag = 1 ∧
    ∃ once twice, s.execute (.draw 0 1 3) = .ok (once, none) ∧
      once.execute (.draw 0 1 3) = .ok (twice, none) ∧ twice.screen = s.screen := by
  intro m s first second
  obtain ⟨lists, pairs⟩ := sprites_permute_and_cancel (ρ := CyclicSource)
  have steady : ∀ i ∈ first, i.drawsSteadily := by decide
  have perm : first.Perm (.draw 0 1 3 :: .draw 0 1 3 :: second) := (List.Perm.swap _ _ _).cons _
  have binary : ∀ k (h : k < 2048), s.screen[k] = Frame.lit ∨ s.screen[k] = Frame.dark :=
    (Storage.wellFormed_storage m).binary
  obtain ⟨onMachines, onStorages⟩ := lists first second steady (Or.inr ⟨_, perm⟩)
  obtain ⟨twiceOnMachines, twiceOnStorages⟩ := pairs 0 1 3 (by decide) (by decide)
  obtain ⟨restored, lit, dark⟩ := twiceOnMachines m
  have corner : m.spriteCovers 0 1 3 63 31 :=
    ⟨1, by decide, 1, by decide, by decide, by decide, by decide +kernel⟩
  have start : m.spriteCovers 0 1 3 62 30 :=
    ⟨0, by decide, 0, by decide, by decide, by decide, by decide +kernel⟩
  obtain ⟨once, twice, drawn, drawn', same, -⟩ := twiceOnStorages s binary
  refine ⟨steady, perm, (onMachines m).2.2, onStorages s binary, restored,
    lit.2 ⟨63, by decide, 31, by decide, by decide +kernel, corner⟩,
    dark.2 ⟨62, by decide, 30, by decide, by decide +kernel, start⟩,
    once, twice, drawn, drawn', same⟩

end Chip8
