import Chip8.Proofs.Screen.Sprite
import Chip8.Proofs.Storage.Loosened

/-!
# Drawing a sprite

`Memory.SpriteCovers` describes a sprite by the bits that lie in memory: the pixels under its set
bits, row by row from its upper left corner on, with addresses that run over the end of memory.
The main statement is `draw_inverts_covered`: the instruction that draws inverts those of these
pixels that lie on the screen and no others, writes to the flag whether one of them was lit, and
changes nothing else.

It holds for machines and for stored machines, where the sprite is drawn cell by cell.  There it
needs of the state only that every cell of the screen is lit or dark; since drawing does not look
at the call stack, the depth may have any value (`Storage.execute_draw_loosened`).
-/

namespace Chip8

/-- Whether a pixel lies under a set bit of the sprite of `height` rows at an address, whose upper
left corner is in column `x` of row `y`.  The leftmost pixel of a row is the highest bit of its
byte. -/
def Memory.SpriteCovers (m : Memory) (address height x y px py : Nat) : Prop :=
  ∃ r < height, ∃ c < 8, py = y + r ∧ px = x + c ∧
    (m.read ((address + r) % 4096)).toNat.testBit (7 - c) = true

/-- A byte of a block of memory, zero behind the block. -/
theorem Memory.getD_readBlock (m : Memory) (address count k : Nat) :
    (m.readBlock address count).getD k 0 = if k < count then m.read (address + k) else 0 := by
  by_cases inside : k < count
  · rw [if_pos inside, List.getD, List.getElem?_eq_getElem (by simpa using inside),
      getElem_readBlock]
    rfl
  · rw [if_neg inside, List.getD, List.getElem?_eq_none (by simpa using Nat.not_lt.1 inside)]
    rfl

namespace Screen

/-- On the screen the block of memory that holds a sprite covers the pixels under its set bits. -/
theorem covered_readBlock_iff (m : Memory) (address height x y : Nat) {px py : Nat}
    (hx : px < 64) (hy : py < 32) :
    covered (m.readBlock address height) x y px py = true ↔
      m.SpriteCovers address height x y px py := by
  simp only [covered, Bool.and_eq_true, decide_eq_true_iff, getMsbD_stripe, Memory.getD_readBlock]
  constructor
  · rintro ⟨⟨lower, -⟩, ⟨-, right, near⟩, set⟩
    have column : px - x < 8 := by omega
    by_cases row : py - y < height
    · rw [if_pos row, getMsbD_toBitVec column] at set
      refine ⟨py - y, row, px - x, column, by omega, by omega, ?_⟩
      rwa [Memory.read_mod]
    · rw [if_neg row, getMsbD_toBitVec column] at set
      simp at set
  · rintro ⟨r, hr, c, hc, rfl, rfl, set⟩
    have row : y + r - y = r := Nat.add_sub_cancel_left y r
    have column : x + c - x = c := Nat.add_sub_cancel_left x c
    rw [row, column, if_pos hr, getMsbD_toBitVec hc, ← Memory.read_mod]
    exact ⟨⟨Nat.le_add_right y r, hy⟩, ⟨hx, Nat.le_add_right x c, by omega⟩, set⟩

/-- A covered pixel lies on the screen. -/
theorem lt_of_covered {sprite : List UInt8} {x y c r : Nat}
    (here : covered sprite x y c r = true) : c < 64 ∧ r < 32 := by
  simp only [covered, Bool.and_eq_true, decide_eq_true_iff] at here
  exact ⟨lt_of_getMsbD_stripe here.2, here.1.2⟩

end Screen

namespace Machine

variable {ρ : Type}

/-- The pixels under the sprite that a machine draws at the values of two registers. -/
def spriteCovers (m : Machine ρ) (x y : Register) (height : UInt8) : Nat → Nat → Prop :=
  m.memory.SpriteCovers m.index.toNat height.toNat ((m.reg x).toNat % 64) ((m.reg y).toNat % 32)

/-- Drawing inverts the pixels under the sprite. -/
theorem pixel_drawAt (m : Machine ρ) (x y : Register) (height : UInt8) {px py : Nat}
    (hx : px < 64) (hy : py < 32) :
    (m.drawAt x y height).screen.pixel px py ≠ m.screen.pixel px py ↔
      m.spriteCovers x y height px py := by
  rw [spriteCovers, ← Screen.covered_readBlock_iff m.memory _ _ _ _ hx hy]
  simp only [drawAt, Screen.pixel_drawSprite]
  cases m.screen.pixel px py <;> simp

/-- Drawing changes the screen and the flag, which says whether a pixel under the sprite was lit. -/
theorem exists_hit_drawAt (m : Machine ρ) (x y : Register) (height : UInt8) :
    ∃ hit : Bool,
      m.drawAt x y height =
        { m with
          screen := (m.drawAt x y height).screen
          registers := m.registers.set Register.flag (if hit then 1 else 0) } ∧
      (hit = true ↔
        ∃ px < 64, ∃ py < 32, m.screen.pixel px py = true ∧ m.spriteCovers x y height px py) := by
  refine ⟨_, rfl, ?_⟩
  rw [Screen.drawSprite_hit_iff]
  constructor
  · rintro ⟨px, py, lit, here⟩
    obtain ⟨hx, hy⟩ := Screen.lt_of_covered here
    exact ⟨px, hx, py, hy, lit, (Screen.covered_readBlock_iff _ _ _ _ _ hx hy).1 here⟩
  · rintro ⟨px, hx, py, hy, lit, here⟩
    exact ⟨px, py, lit, (Screen.covered_readBlock_iff _ _ _ _ _ hx hy).2 here⟩

end Machine

/-! ### Cells -/

theorem Screen.cellOf_eq_lit_iff {on : Bool} : cellOf on = Frame.lit ↔ on = true := by
  cases on <;> decide

theorem Screen.cellOf_eq_lit_or_dark (on : Bool) :
    cellOf on = Frame.lit ∨ cellOf on = Frame.dark := by
  cases on <;> decide

theorem Screen.cellOf_ne_iff {on on' : Bool} : cellOf on ≠ cellOf on' ↔ on ≠ on' := by
  cases on <;> cases on' <;> decide

/-- Some pixel of the screen has a property exactly if some cell of its frame has it. -/
theorem Screen.exists_cell_iff {P : Nat → Nat → Prop} :
    (∃ k < 2048, P (k % 64) (k / 64)) ↔ ∃ x < 64, ∃ y < 32, P x y := by
  constructor
  · rintro ⟨k, hk, here⟩
    exact ⟨k % 64, by omega, k / 64, by omega, here⟩
  · rintro ⟨x, hx, y, hy, here⟩
    have column : (y * 64 + x) % 64 = x := by omega
    have row : (y * 64 + x) / 64 = y := by omega
    exact ⟨y * 64 + x, by omega, by rwa [column, row]⟩

/-- Drawing is the clipped exclusive disjunction with the sprite in memory.  The pixels that it
inverts are those on the screen that lie under a set bit of the sprite, with its corner at the
values of the two registers modulo the size of the screen; the flag becomes one if one of them was
lit and zero otherwise; there is no fault and nothing else changes.  The same is true, cell by cell,
of a stored machine in which every cell of the screen is lit or dark, whatever else it holds, and
the drawing completes. -/
theorem draw_inverts_covered {ρ : Type} [ByteSource ρ] (x y : Register) (height : UInt8) :
    (∀ m : Machine ρ,
      let covers := m.memory.SpriteCovers m.index.toNat height.toNat
        ((m.reg x).toNat % 64) ((m.reg y).toNat % 32)
      ∃ (screen : Screen) (hit : Bool),
        m.execute (.draw x y height) =
          { machine :=
              { m with
                screen := screen
                registers := m.registers.set Register.flag (if hit then 1 else 0) } } ∧
        (∀ px < 64, ∀ py < 32, screen.pixel px py ≠ m.screen.pixel px py ↔ covers px py) ∧
        (hit = true ↔ ∃ px < 64, ∃ py < 32, m.screen.pixel px py = true ∧ covers px py)) ∧
    ∀ s : Storage ρ,
      (∀ k (h : k < 2048), s.screen[k] = Frame.lit ∨ s.screen[k] = Frame.dark) →
      let memory : Memory := ⟨s.memory⟩
      let registers : RegisterFile := ⟨s.registers⟩
      let covers := memory.SpriteCovers s.index.toNat height.toNat
        ((registers.get x).toNat % 64) ((registers.get y).toNat % 32)
      ∃ (frame : Frame) (hit : Bool),
        s.execute (.draw x y height) =
          .ok ({ s with
            screen := frame
            registers := (registers.set Register.flag (if hit then 1 else 0)).entries }, none) ∧
        (∀ k (h : k < 2048), (frame[k] = Frame.lit ∨ frame[k] = Frame.dark) ∧
          (frame[k] ≠ s.screen[k] ↔ covers (k % 64) (k / 64))) ∧
        (hit = true ↔
          ∃ (k : Nat) (h : k < 2048), s.screen[k] = Frame.lit ∧ covers (k % 64) (k / 64)) := by
  refine ⟨?_, ?_⟩
  · intro m covers
    obtain ⟨hit, drawn, lit⟩ := m.exists_hit_drawAt x y height
    refine ⟨(m.drawAt x y height).screen, hit, ?_,
      fun px hx py hy => m.pixel_drawAt x y height hx hy, lit⟩
    rw [← drawn]
    rfl
  · intro s binary memory registers covers
    obtain ⟨m, depth, rfl⟩ := Storage.exists_machine_of_binary binary
    obtain ⟨hit, drawn, lit⟩ := m.exists_hit_drawAt x y height
    have under : covers = m.spriteCovers x y height := rfl
    have cell : ∀ k (h : k < 2048), (m.storage.loosened depth m.screen.toFrame).screen[k] =
        Screen.cellOf (m.screen.pixel (k % 64) (k / 64)) := m.screen.getElem_toFrame
    refine ⟨(m.drawAt x y height).screen.toFrame, hit, ?_, ?_, ?_⟩
    · rw [Storage.execute_draw_loosened, drawn]
      rfl
    · intro k hk
      have inverted := m.pixel_drawAt x y height
        (show k % 64 < 64 by omega) (show k / 64 < 32 by omega)
      rw [Screen.getElem_toFrame, cell k hk, under, ← inverted]
      exact ⟨Screen.cellOf_eq_lit_or_dark _, Screen.cellOf_ne_iff⟩
    · rw [lit, ← Screen.exists_cell_iff]
      refine exists_congr fun k => ?_
      constructor
      · rintro ⟨hk, on, here⟩
        exact ⟨hk, by rwa [cell k hk, Screen.cellOf_eq_lit_iff], here⟩
      · rintro ⟨hk, on, here⟩
        exact ⟨hk, by rwa [cell k hk, Screen.cellOf_eq_lit_iff] at on, here⟩

/-- A sprite of three rows from the last cell of memory on, drawn two columns and two rows before
the lower right corner with `VF` for its column: the part beyond the edges is cut off, the second
row comes from the first cell of memory, and the lit pixel in the corner is switched off.  The same
happens on a stored machine whose depth is no depth of a call stack. -/
theorem draw_inverts_covered_in_corner :
    let m : Machine CyclicSource :=
      { Machine.fresh [] (CyclicSource.ofPattern [7]) with
        memory := (Memory.zero.write 4095 0x81).write 0 0xC0
        registers := (RegisterFile.zero.set Register.flag 254).set 1 62
        index := 0xFFFF
        screen := .ofPixels fun px py => px == 63 && py == 31 }
    let s := m.storage.loosened 200 m.screen.toFrame
    (∃ (screen : Screen) (hit : Bool),
      m.execute (.draw Register.flag 1 3) =
        { machine :=
            { m with
              screen := screen
              registers := m.registers.set Register.flag (if hit then 1 else 0) } } ∧
      screen.pixel 62 30 = true ∧ screen.pixel 63 31 = false ∧ hit = true) ∧
    (∀ k (h : k < 2048), s.screen[k] = Frame.lit ∨ s.screen[k] = Frame.dark) ∧
    ∃ (frame : Frame) (hit : Bool),
      s.execute (.draw Register.flag 1 3) =
        .ok ({ s with
          screen := frame
          registers := (m.registers.set Register.flag (if hit then 1 else 0)).entries }, none) ∧
      hit = true := by
  intro m s
  obtain ⟨onMachine, onStorage⟩ := draw_inverts_covered (ρ := CyclicSource) Register.flag 1 3
  have binary : ∀ k (h : k < 2048), s.screen[k] = Frame.lit ∨ s.screen[k] = Frame.dark :=
    (Storage.wellFormed_storage m).binary
  have corner : m.spriteCovers Register.flag 1 3 63 31 :=
    ⟨1, by decide, 1, by decide, by decide, by decide, by decide +kernel⟩
  have start : m.spriteCovers Register.flag 1 3 62 30 :=
    ⟨0, by decide, 0, by decide, by decide, by decide, by decide +kernel⟩
  have lit : m.screen.pixel 63 31 = true := by decide +kernel
  have dark : m.screen.pixel 62 30 = false := by decide +kernel
  obtain ⟨screen, hit, executed, inverted, hits⟩ := onMachine m
  have switchedOn := (inverted 62 (by decide) 30 (by decide)).2 start
  have switchedOff := (inverted 63 (by decide) 31 (by decide)).2 corner
  rw [dark] at switchedOn
  rw [lit] at switchedOff
  refine ⟨⟨screen, hit, executed, by simpa using switchedOn, by simpa using switchedOff,
    hits.2 ⟨63, by decide, 31, by decide, lit, corner⟩⟩, binary, ?_⟩
  obtain ⟨frame, hit', completed, -, hits'⟩ := onStorage s binary
  have cell : m.screen.toFrame[31 * 64 + 63] = Screen.cellOf (m.screen.pixel 63 31) :=
    m.screen.getElem_toFrame_of_lt (by decide) (by decide)
  have litCell : m.screen.toFrame[31 * 64 + 63] = Frame.lit := by
    rw [cell, lit]
    rfl
  exact ⟨frame, hit', completed, hits'.2 ⟨31 * 64 + 63, by decide, litCell, corner⟩⟩

end Chip8
