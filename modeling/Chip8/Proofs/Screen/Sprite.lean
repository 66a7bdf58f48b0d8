import Chip8.Proofs.Storage.Drawing

/-!
# Pixels under a sprite

`Screen.drawSprite` inverts the rows of a screen one after the other.  This file describes the
drawn screen pixel by pixel.  `Screen.covered` says whether a pixel lies under a set bit of a
sprite; bits beyond the right and the lower edge cover nothing.  Drawing inverts exactly the
covered pixels (`pixel_drawSprite`), and it reports a hit exactly if one of them was lit before
(`drawSprite_hit_iff`), although the rows are compared with screens that are partly drawn.

The rows of a sprite lie in different rows of the screen, so a pixel is covered by the first row or
by the others and never by both (`covered_cons`).
-/

namespace Chip8.Screen

/-- Whether the pixel in column `c` of row `r` lies under a set bit of a sprite whose upper left
corner is in column `x` of row `y`. -/
def covered (sprite : List UInt8) (x y c r : Nat) : Bool :=
  decide (y ≤ r ∧ r < 32) && (stripe (sprite.getD (r - y) 0) x).getMsbD c

/-- A sprite covers nothing above its first row. -/
theorem covered_of_lt (sprite : List UInt8) (x c : Nat) {y r : Nat} (above : r < y) :
    covered sprite x y c r = false := by
  simp [covered, Nat.not_le.2 above]

@[simp] theorem covered_nil (x y c r : Nat) : covered [] x y c r = false := by
  simp [covered, getMsbD_stripe]

/-- The first row of a sprite covers pixels of its own row, and the others cover pixels below. -/
theorem covered_cons (byte : UInt8) (rest : List UInt8) (x y c r : Nat) :
    covered (byte :: rest) x y c r =
      ((decide (r = y ∧ r < 32) && (stripe byte x).getMsbD c) ^^ covered rest x (y + 1) c r) := by
  rcases Nat.lt_trichotomy r y with above | here | below
  · have other : ¬ (r = y ∧ r < 32) := by omega
    rw [covered_of_lt _ _ _ above, covered_of_lt _ _ _ (Nat.lt_succ_of_lt above),
      decide_eq_false other]
    rfl
  · subst here
    rw [covered_of_lt rest _ _ (Nat.lt_succ_self r)]
    simp [covered]
  · have other : ¬ (r = y ∧ r < 32) := by omega
    have next : r - y = r - (y + 1) + 1 := by omega
    have lower : y ≤ r ∧ r < 32 ↔ y + 1 ≤ r ∧ r < 32 := by omega
    simp only [covered, decide_eq_false other, next, List.getD_cons_succ, lower, Bool.false_and,
      Bool.false_xor]

/-- Drawing a sprite inverts the covered pixels and no others. -/
theorem pixel_drawSprite (s : Screen) (sprite : List UInt8) (x y c r : Nat) :
    (s.drawSprite x y sprite).1.pixel c r = (s.pixel c r ^^ covered sprite x y c r) := by
  induction sprite generalizing s y with
  | nil => simp
  | cons byte rest ih =>
    rw [drawSprite_cons, ih, pixel_xorRow, covered_cons, Bool.xor_assoc]

/-- Inverting a row leaves the pixels that the later rows of a sprite cover. -/
theorem pixel_xorRow_of_covered {s : Screen} {rest : List UInt8} {x y c r : Nat} (mask : BitVec 64)
    (later : covered rest x (y + 1) c r = true) :
    (s.xorRow y mask).pixel c r = s.pixel c r := by
  have below : ¬ r < y + 1 := by
    intro above
    rw [covered_of_lt rest x c above] at later
    cases later
  have other : ¬ (r = y ∧ r < 32) := by omega
  rw [pixel_xorRow, decide_eq_false other, Bool.false_and, Bool.xor_false]

/-- A pixel covered by a sprite is covered by its first row or by the others. -/
theorem covered_cons_eq_true_iff {byte : UInt8} {rest : List UInt8} {x y c r : Nat} :
    covered (byte :: rest) x y c r = true ↔
      (r = y ∧ r < 32 ∧ (stripe byte x).getMsbD c = true) ∨
        covered rest x (y + 1) c r = true := by
  rw [covered_cons]
  cases later : covered rest x (y + 1) c r with
  | false => simp [and_assoc]
  | true =>
    have other : ¬ (r = y ∧ r < 32) := by
      rintro ⟨rfl, -⟩
      rw [covered_of_lt rest x c (Nat.lt_succ_self r)] at later
      cases later
    simp [other]

/-- Drawing a sprite reports a hit exactly if a covered pixel was lit. -/
theorem drawSprite_hit_iff {s : Screen} {sprite : List UInt8} {x y : Nat} :
    (s.drawSprite x y sprite).2 = true ↔
      ∃ c r, s.pixel c r = true ∧ covered sprite x y c r = true := by
  induction sprite generalizing s y with
  | nil => simp
  | cons byte rest ih =>
    rw [drawSprite_cons, Bool.or_eq_true, hits_eq_true_iff, ih]
    constructor
    · rintro (⟨c, lit, set⟩ | ⟨c, r, lit, later⟩)
      · have inside : y < 32 := by
          apply Nat.lt_of_not_le
          intro below
          rw [pixel_of_le_right below] at lit
          cases lit
        exact ⟨c, y, lit, covered_cons_eq_true_iff.2 (Or.inl ⟨rfl, inside, set⟩)⟩
      · rw [pixel_xorRow_of_covered _ later] at lit
        exact ⟨c, r, lit, covered_cons_eq_true_iff.2 (Or.inr later)⟩
    · rintro ⟨c, r, lit, here⟩
      rcases covered_cons_eq_true_iff.1 here with ⟨rfl, -, set⟩ | later
      · exact Or.inl ⟨c, lit, set⟩
      · refine Or.inr ⟨c, r, ?_, later⟩
        rwa [pixel_xorRow_of_covered _ later]

end Chip8.Screen
