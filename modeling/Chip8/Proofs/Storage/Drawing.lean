import Chip8.Proofs.Storage.Execute

/-!
# Checked drawing

The checked loops of `Storage.drawBits` and `Storage.drawRows` invert single cells of a frame, while
`Screen.drawSprite` inverts whole rows of pixels by a mask.  This file proves that the loops never
leave the frame and draw the same sprite: `drawBits_toFrame` for one row and `drawRows_toFrame`
for a sprite.  On a frame that shows no screen, since some of its cells are neither lit nor dark,
they still complete (`exists_drawRows`).

The row of bits that are still to be drawn when the loop has come to bit `k` is the mask
`Screen.stripeFrom byte x k`; inverting its first bit alone is `Screen.flip`.
-/

namespace Chip8

namespace Screen

/-! ### Single pixels -/

/-- Invert one pixel. -/
def flip (s : Screen) (x y : Nat) : Screen :=
  ofPixels fun c r => s.pixel c r ^^ decide (c = x ∧ r = y)

theorem pixel_flip (s : Screen) (x y : Nat) {c r : Nat} (hc : c < 64) (hr : r < 32) :
    (s.flip x y).pixel c r = (s.pixel c r ^^ decide (c = x ∧ r = y)) :=
  pixel_ofPixels _ hc hr

theorem cellOf_xor_lit (on : Bool) : cellOf on ^^^ Frame.lit = cellOf (!on) := by
  cases on <;> rfl

theorem cellOf_beq_lit (on : Bool) : (cellOf on == Frame.lit) = on := by
  cases on <;> rfl

/-- Inverting the cell of a pixel gives the frame of the screen with this pixel inverted. -/
theorem set_toFrame (s : Screen) {x y : Nat} (hx : x < 64) (hy : y < 32) :
    s.toFrame.set (y * 64 + x) (cellOf (s.pixel x y) ^^^ Frame.lit) (by omega) =
      (s.flip x y).toFrame := by
  apply Vector.ext
  intro k hk
  rw [Vector.getElem_set, getElem_toFrame, getElem_toFrame,
    pixel_flip s x y (by omega) (by omega)]
  by_cases place : y * 64 + x = k
  · have column : k % 64 = x := by omega
    have row : k / 64 = y := by omega
    rw [if_pos place, cellOf_xor_lit, column, row]
    simp
  · have other : ¬ (k % 64 = x ∧ k / 64 = y) := by omega
    rw [if_neg place, decide_eq_false other, Bool.xor_false]

/-- The cell of a pixel. -/
theorem getElem_toFrame_of_lt (s : Screen) {x y : Nat} (hx : x < 64)
    (place : y * 64 + x < 2048) : s.toFrame[y * 64 + x] = cellOf (s.pixel x y) := by
  have column : (y * 64 + x) % 64 = x := by omega
  have row : (y * 64 + x) / 64 = y := by omega
  rw [getElem_toFrame, column, row]

/-! ### Masks -/

theorem lt_of_getMsbD_stripe {byte : UInt8} {x c : Nat}
    (set : (stripe byte x).getMsbD c = true) : c < 64 := by
  rw [getMsbD_stripe, Bool.and_eq_true, decide_eq_true_iff] at set
  exact set.1.1

/-- The pixels of a stripe from the bit `k` of its byte on. -/
def stripeFrom (byte : UInt8) (x k : Nat) : BitVec 64 :=
  stripe byte x &&& BitVec.allOnes 64 >>> (x + k)

theorem getMsbD_stripeFrom (byte : UInt8) (x k c : Nat) :
    (stripeFrom byte x k).getMsbD c =
      (decide (x + k ≤ c) && (stripe byte x).getMsbD c) := by
  rw [stripeFrom, BitVec.getMsbD_and, BitVec.getMsbD_ushiftRight, BitVec.getMsbD_allOnes]
  by_cases inside : c < 64
  · by_cases right : x + k ≤ c
    · have low : c - (x + k) < 64 := by omega
      simp [inside, right, low, Nat.not_lt.2 right]
    · simp [right, Nat.not_le.1 right]
  · simp [BitVec.getMsbD_of_ge _ _ (Nat.not_lt.1 inside)]

/-- The stripe from its first bit on is the whole stripe. -/
theorem stripeFrom_zero (byte : UInt8) (x : Nat) : stripeFrom byte x 0 = stripe byte x := by
  apply BitVec.eq_of_getMsbD_eq
  intro c hc
  rw [getMsbD_stripeFrom, getMsbD_stripe]
  by_cases right : x ≤ c <;> simp [right]

/-- Nothing is left of a stripe behind its last bit. -/
theorem stripeFrom_eight (byte : UInt8) (x : Nat) : stripeFrom byte x 8 = 0 := by
  apply BitVec.eq_of_getMsbD_eq
  intro c hc
  rw [getMsbD_stripeFrom, getMsbD_stripe]
  by_cases right : x + 8 ≤ c
  · simp [Nat.not_lt.2 right]
  · simp [right]

/-- Nothing is left of a stripe behind the right edge of the screen. -/
theorem stripeFrom_of_le (byte : UInt8) {x k : Nat} (edge : 64 ≤ x + k) :
    stripeFrom byte x k = 0 := by
  apply BitVec.eq_of_getMsbD_eq
  intro c hc
  rw [getMsbD_stripeFrom, decide_eq_false (by omega)]
  simp

/-! ### Hits -/

/-- A mask hits a row if one of its pixels is lit. -/
theorem hits_eq_true_iff {s : Screen} {y : Nat} {mask : BitVec 64} :
    s.hits y mask = true ↔ ∃ c, s.pixel c y = true ∧ mask.getMsbD c = true := by
  have hit : s.hits y mask = true ↔ s.row y &&& mask ≠ 0 := by
    simp [hits]
  rw [hit]
  constructor
  · intro some
    apply Classical.byContradiction
    intro none
    apply some
    apply BitVec.eq_of_getMsbD_eq
    intro c hc
    have dark : ¬ (s.pixel c y = true ∧ mask.getMsbD c = true) := fun h => none ⟨c, h⟩
    simpa [pixel] using dark
  · rintro ⟨c, lit, set⟩ none
    have both : (s.row y &&& mask).getMsbD c = true := by
      rw [BitVec.getMsbD_and, set, Bool.and_true]
      exact lit
    rw [none] at both
    simp at both

theorem hits_zero (s : Screen) (y : Nat) : s.hits y 0 = false := by
  simp [hits]

theorem xorRow_zero (s : Screen) (y : Nat) : s.xorRow y 0 = s := by
  apply ext_pixel
  intro c hc r hr
  simp [pixel_xorRow]

/-! ### One bit of a stripe -/

/-- A bit that is not set adds nothing to the bits behind it. -/
theorem stripeFrom_of_not_getMsbD {byte : UInt8} {x k : Nat}
    (dark : byte.toBitVec.getMsbD k = false) : stripeFrom byte x k = stripeFrom byte x (k + 1) := by
  apply BitVec.eq_of_getMsbD_eq
  intro c hc
  rw [getMsbD_stripeFrom, getMsbD_stripeFrom, getMsbD_stripe]
  by_cases here : c = x + k
  · subst here
    simp [dark]
  · have behind : x + k ≤ c ↔ x + (k + 1) ≤ c := by omega
    simp only [behind]

/-- Inverting the pixel of a set bit, and then those behind it, inverts the pixels from this bit
on. -/
theorem xorRow_flip {s : Screen} {byte : UInt8} {x y k : Nat} (hk : k < 8) (edge : x + k < 64)
    (set : byte.toBitVec.getMsbD k = true) :
    (s.flip (x + k) y).xorRow y (stripeFrom byte x (k + 1)) =
      s.xorRow y (stripeFrom byte x k) := by
  apply ext_pixel
  intro c hc r hr
  rw [pixel_xorRow, pixel_xorRow, pixel_flip s _ _ hc hr, getMsbD_stripeFrom, getMsbD_stripeFrom,
    getMsbD_stripe, Bool.xor_assoc]
  congr 1
  by_cases here : c = x + k
  · subst here
    have column : x + k < x + 8 := by omega
    have passed : ¬ k + 1 ≤ k := by omega
    simp [set, hr, hc, column, passed]
  · have behind : x + k ≤ c ↔ x + (k + 1) ≤ c := by omega
    simp [here, behind]

/-- The stripe from a set bit on hits a lit pixel at this bit or behind it. -/
theorem hits_flip {s : Screen} {byte : UInt8} {x y k : Nat} (hk : k < 8) (edge : x + k < 64)
    (hy : y < 32) (set : byte.toBitVec.getMsbD k = true) :
    (s.pixel (x + k) y || (s.flip (x + k) y).hits y (stripeFrom byte x (k + 1))) =
      s.hits y (stripeFrom byte x k) := by
  rw [Bool.eq_iff_iff, Bool.or_eq_true, hits_eq_true_iff, hits_eq_true_iff]
  constructor
  · rintro (lit | ⟨c, lit, behind⟩)
    -- the pixel at the bit itself was lit
    · refine ⟨x + k, lit, ?_⟩
      rw [getMsbD_stripeFrom, getMsbD_stripe]
      have column : x + k < x + 8 := by omega
      simp [set, edge, column]
    -- a pixel behind the bit was lit, and inverting the pixel at the bit left it alone
    · rw [getMsbD_stripeFrom, Bool.and_eq_true, decide_eq_true_iff] at behind
      have inside : c < 64 := lt_of_getMsbD_stripe behind.2
      have other : ¬ (c = x + k ∧ y = y) := by omega
      rw [pixel_flip s _ _ inside hy, decide_eq_false other, Bool.xor_false] at lit
      refine ⟨c, lit, ?_⟩
      rw [getMsbD_stripeFrom, behind.2, Bool.and_true, decide_eq_true_iff]
      omega
  · rintro ⟨c, lit, from_k⟩
    by_cases here : c = x + k
    · exact Or.inl (here ▸ lit)
    · rw [getMsbD_stripeFrom, Bool.and_eq_true, decide_eq_true_iff] at from_k
      have inside : c < 64 := lt_of_getMsbD_stripe from_k.2
      have other : ¬ (c = x + k ∧ y = y) := fun h => here h.1
      refine Or.inr ⟨c, ?_, ?_⟩
      · rwa [pixel_flip s _ _ inside hy, decide_eq_false other, Bool.xor_false]
      · rw [getMsbD_stripeFrom, from_k.2, Bool.and_true, decide_eq_true_iff]
        omega

end Screen

/-- The bit `k` of a byte from the left is its bit `7 - k` from the right. -/
theorem getMsbD_toBitVec {byte : UInt8} {k : Nat} (hk : k < 8) :
    byte.toBitVec.getMsbD k = byte.toNat.testBit (7 - k) := by
  simp [BitVec.getMsbD_eq_getLsbD, hk, BitVec.getLsbD]

/-- The lowest bit of a byte shifted right by `7 - k` is its bit `k` from the left. -/
theorem shiftRight_and_one_eq_zero_iff {byte : UInt8} {k : Nat} (hk : k < 8) :
    byte >>> UInt8.ofNat (7 - k) &&& 1 = 0 ↔ byte.toBitVec.getMsbD k = false := by
  have shift : (7 - k) % 256 % 8 = 7 - k := by omega
  rw [getMsbD_toBitVec hk, ← UInt8.toNat_inj, UInt8.toNat_and, UInt8.toNat_shiftRight,
    UInt8.toNat_ofNat', shift, Nat.testBit, Nat.and_comm]
  simp

namespace Screen

/-- A sprite below the screen changes nothing. -/
theorem drawSprite_of_le (s : Screen) (x : Nat) {y : Nat} (below : 32 ≤ y) (sprite : List UInt8) :
    s.drawSprite x y sprite = (s, false) := by
  induction sprite generalizing y with
  | nil => rfl
  | cons byte rest ih =>
    have row : ¬ y < 32 := Nat.not_lt.2 below
    have kept : s.xorRow y (stripe byte x) = s := dif_neg row
    have missed : s.hits y (stripe byte x) = false := by
      simp [hits, Screen.row, row]
    rw [drawSprite_cons, kept, missed, ih (Nat.le_succ_of_le below)]
    rfl

end Screen

/-- A block of bytes begins with the byte at its address. -/
theorem Memory.readBlock_succ (m : Memory) (address count : Nat) :
    m.readBlock address (count + 1) = m.read address :: m.readBlock (address + 1) count := by
  rw [readBlock, List.range_succ_eq_map, List.map_cons, List.map_map, readBlock]
  congr 1
  apply List.map_congr_left
  intro offset _
  rw [Function.comp_apply, Nat.succ_eq_add_one, Nat.add_assoc, Nat.add_comm 1 offset]

namespace Storage

/-! ### The drawing loops -/

/-- The loop over the bits of a byte inverts the pixels of its stripe from the bit `k` on. -/
theorem drawBits_toFrame {byte : UInt8} {x y : Nat} (hx : x < 64) (hy : y < 32) (s : Screen)
    (hit : Bool) {k count : Nat} (bits : k + count = 8) :
    drawBits byte x y k count (s.toFrame, hit) =
      .ok ((s.xorRow y (Screen.stripeFrom byte x k)).toFrame,
        hit || s.hits y (Screen.stripeFrom byte x k)) := by
  induction count generalizing s hit k with
  | zero =>
    obtain rfl : k = 8 := bits
    rw [Screen.stripeFrom_eight, Screen.xorRow_zero, Screen.hits_zero, Bool.or_false]
    rfl
  | succ count ih =>
    have hk : k < 8 := by omega
    rw [drawBits_succ byte hx hy hk]
    by_cases inside : x + k < 64
    · rw [dif_pos inside]
      by_cases dark : byte.toBitVec.getMsbD k = false
      · rw [if_pos ((shiftRight_and_one_eq_zero_iff hk).2 dark),
          Screen.stripeFrom_of_not_getMsbD dark]
        exact ih s hit (by omega)
      · have set : byte.toBitVec.getMsbD k = true := by simpa using dark
        rw [if_neg (mt (shiftRight_and_one_eq_zero_iff hk).1 dark),
          s.getElem_toFrame_of_lt inside (by omega), s.set_toFrame inside hy,
          Screen.cellOf_beq_lit, ih _ _ (by omega), Screen.xorRow_flip hk inside set,
          Bool.or_assoc, Screen.hits_flip hk inside hy set]
    · rw [dif_neg inside, Screen.stripeFrom_of_le byte (Nat.not_lt.1 inside),
        Screen.xorRow_zero, Screen.hits_zero, Bool.or_false]

/-- The loop over the rows of a sprite draws the sprite from the row `k` on. -/
theorem drawRows_toFrame {ρ : Type} (m : Machine ρ) {x y : Nat} (hx : x < 64) (hy : y < 32)
    (s : Screen) (hit : Bool) {k count : Nat} (rows : k + count < 256) :
    m.storage.drawRows x y k count (s.toFrame, hit) =
      .ok ((s.drawSprite x (y + k) (m.memory.readBlock (m.index.toNat + k) count)).1.toFrame,
        hit || (s.drawSprite x (y + k) (m.memory.readBlock (m.index.toNat + k) count)).2) := by
  induction count generalizing s hit k with
  | zero => simp [drawRows, Memory.readBlock, pure, Except.pure]
  | succ count ih =>
    rw [drawRows_succ m.storage hy (by omega)]
    by_cases above : y + k < 32
    · rw [if_pos above, drawBits_toFrame hx above s hit (Nat.zero_add 8), Screen.stripeFrom_zero,
        Memory.readBlock_succ, Screen.drawSprite_cons, ← Bool.or_assoc]
      exact ih _ _ (by omega)
    · rw [if_neg above, Screen.drawSprite_of_le s x (Nat.not_lt.1 above), Bool.or_false]

/-! ### Other frames -/

/-- The loop over the bits of a byte completes on any frame. -/
theorem exists_drawBits (byte : UInt8) {x y k count : Nat} (hx : x < 64) (hy : y < 32)
    (bits : k + count = 8) (drawn : Frame × Bool) :
    ∃ result, drawBits byte x y k count drawn = .ok result := by
  induction count generalizing k drawn with
  | zero => exact ⟨drawn, rfl⟩
  | succ count ih =>
    have rest : k + 1 + count = 8 := by omega
    rw [drawBits_succ byte hx hy (show k < 8 by omega)]
    split
    · exact ih rest _
    · exact ⟨drawn, rfl⟩

/-- The loop over the rows of a sprite completes on any frame. -/
theorem exists_drawRows (s : Storage ρ) {x y k count : Nat} (hx : x < 64) (hy : y < 32)
    (rows : k + count < 256) (drawn : Frame × Bool) :
    ∃ result, s.drawRows x y k count drawn = .ok result := by
  induction count generalizing k drawn with
  | zero => exact ⟨drawn, rfl⟩
  | succ count ih =>
    have rest : k + 1 + count < 256 := by omega
    rw [drawRows_succ s hy (show k < 256 by omega)]
    split
    · next above =>
      obtain ⟨row, completed⟩ := exists_drawBits
        (Memory.read ⟨s.memory⟩ (s.index.toNat + k)) hx above (Nat.zero_add 8) drawn
      rw [completed]
      exact ih rest row
    · exact ⟨drawn, rfl⟩

end Storage

end Chip8
