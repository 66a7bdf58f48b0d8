import Chip8.Terminal.Painter

/-!
# What a painted terminal shows

A painter sends commands only for the pixels that have changed since the frame before.  This file
proves that the terminal nevertheless shows every frame as if it had been drawn anew: the two
columns of each pixel show whether its cell is lit, and the border stays as it was drawn at first.

The commands for a screen are those for one list of cells: all cells in row-major order, filtered by
whether they differ (`changes_eq`).  `char_replay_drawCells` says what the commands for a list of
cells do to the place of a pixel: they show the pixel if its cell is in the list, and the commands
for other cells do not reach it.  So a terminal that shows one screen shows the next after the
changes (`Shows.changes`), which is the step of the induction on the frames (`Shows.sent`).  The
main statement is `display_shows_frames`.
-/

namespace Chip8

namespace TerminalGrid

/-- Printed characters fill the columns from the cursor on and leave everything else. -/
theorem char_foldl_put (g : TerminalGrid) (chars : List Char) (c r : Nat) :
    (chars.foldl put g).char c r =
      if r = g.row ∧ g.column ≤ c then chars[c - g.column]?.getD (g.char c r)
      else g.char c r := by
  induction chars generalizing g with
  | nil => simp
  | cons first rest ih =>
    rw [List.foldl_cons, ih]
    simp only [put]
    by_cases row : r = g.row
    · rcases Nat.lt_trichotomy c g.column with left | rfl | right
      · have before : ¬ g.column + 1 ≤ c := by omega
        simp [row, before, Nat.not_le.2 left, Nat.ne_of_lt left]
      · have past : ¬ g.column + 1 ≤ g.column := Nat.not_succ_le_self _
        simp only [row, past, Nat.le_refl, and_false, and_self, if_true, if_false, Nat.sub_self,
          List.getElem?_cons_zero, Option.getD_some]
      · have behind : c - g.column = (c - (g.column + 1)) + 1 := by omega
        simp [row, behind, Nat.le_of_lt right, Nat.ne_of_gt right, Nat.succ_le_of_lt right]
    · simp [row]

/-- Characters that are printed at a place fill the columns from there on and leave everything
else. -/
theorem char_replay_stroke (g : TerminalGrid) (x y : Nat) (chars : List Char) (c r : Nat) :
    (g.replay [.moveTo x y, .print chars]).char c r =
      if r = y ∧ x ≤ c then chars[c - x]?.getD (g.char c r) else g.char c r :=
  char_foldl_put _ chars c r

/-- Printed characters do not reach a place in another row, in front of them or behind them. -/
theorem char_replay_stroke_of_outside {x y : Nat} {chars : List Char} {c r : Nat}
    (outside : r ≠ y ∨ c < x ∨ x + chars.length ≤ c) (g : TerminalGrid) :
    (g.replay [.moveTo x y, .print chars]).char c r = g.char c r := by
  rw [char_replay_stroke]
  split
  · next inside =>
    rw [List.getElem?_eq_none (by omega)]
    rfl
  · rfl

/-- If each of several command lists leaves a place as it is, so do all of them. -/
theorem char_replay_flatMap {α : Type} {commands : α → List TerminalCommand} {c r : Nat}
    {xs : List α} (leaves : ∀ x ∈ xs, ∀ g : TerminalGrid,
      (g.replay (commands x)).char c r = g.char c r) (g : TerminalGrid) :
    (g.replay (xs.flatMap commands)).char c r = g.char c r := by
  induction xs generalizing g with
  | nil => rfl
  | cons x rest ih =>
    rw [List.flatMap_cons, replay_append, ih fun y mem => leaves y (List.mem_cons_of_mem _ mem),
      leaves x List.mem_cons_self]

end TerminalGrid

namespace Frame

/-- Whether a cell of a frame is lit. -/
def isLit (f : Frame) (k : Nat) : Bool :=
  f[k]? == some lit

/-- Whether a cell is lit in the last of some frames; without frames none is. -/
def isLitAfter (frames : List Frame) (k : Nat) : Bool :=
  frames.getLast?.any fun f => f.isLit k

end Frame

namespace Screen

/-- Whether a cell of a screen is lit.  The cells are numbered row by row. -/
def cell (s : Screen) (k : Nat) : Bool :=
  s.pixel (k % 64) (k / 64)

/-- The cell of a pixel. -/
theorem cell_add (s : Screen) {x : Nat} (hx : x < 64) (y : Nat) :
    s.cell (64 * y + x) = s.pixel x y := by
  rw [cell, show (64 * y + x) % 64 = x by omega, show (64 * y + x) / 64 = y by omega]

/-- The lit cells of the screen shown by a frame are those of the frame. -/
theorem cell_ofFrame (f : Frame) : (ofFrame f).cell = f.isLit := by
  funext k
  by_cases inside : k < 2048
  · rw [cell, ofFrame, pixel_ofPixels _ (by omega) (by omega), Nat.div_add_mod]
    rfl
  · rw [cell, pixel_of_le_right (by omega), Frame.isLit, Vector.getElem?_eq_none (by omega)]
    rfl

end Screen

namespace Painter

/-! ### The border -/

@[simp] theorem length_edge (l r : Char) : (edge l r).length = 130 := by
  simp [edge, Screen.width]

/-- Drawing the border leaves every place that is not on it. -/
theorem char_replay_border {c r : Nat}
    (off : (0 < c ∧ c < 129 ∧ 0 < r ∧ r < 33) ∨ 129 < c ∨ 33 < r) (g : TerminalGrid) :
    (g.replay border).char c r = g.char c r := by
  have sides : ∀ y ∈ List.range Screen.height, ∀ g : TerminalGrid,
      (g.replay [.moveTo 0 (y + 1), .print ['┃'], .moveTo right (y + 1), .print ['┃']]).char c r =
        g.char c r := by
    intro y mem g
    have row : y < 32 := List.mem_range.1 mem
    show ((g.replay [.moveTo 0 (y + 1), .print ['┃']]).replay
      [.moveTo right (y + 1), .print ['┃']]).char c r = g.char c r
    rw [TerminalGrid.char_replay_stroke_of_outside (by simp [right, Screen.width]; omega),
      TerminalGrid.char_replay_stroke_of_outside (by simp; omega)]
  rw [border, TerminalGrid.replay_append, TerminalGrid.replay_append,
    TerminalGrid.char_replay_stroke_of_outside (by simp [bottom, Screen.height]; omega),
    TerminalGrid.char_replay_flatMap sides,
    TerminalGrid.char_replay_stroke_of_outside (by simp; omega)]

/-- Before the first frame every place that is not on the border is blank. -/
theorem char_replay_opening {c r : Nat}
    (off : (0 < c ∧ c < 129 ∧ 0 < r ∧ r < 33) ∨ 129 < c ∨ 33 < r) :
    (TerminalGrid.blank.replay opening).char c r = ' ' := by
  rw [opening, TerminalGrid.replay_append, char_replay_border off]
  rfl

/-! ### One pixel -/

/-- The character that shows a pixel. -/
def mark (lit : Bool) : Char :=
  if lit then '█' else ' '

/-- Drawing a pixel fills its two columns and leaves everything else. -/
theorem char_replay_drawPixel (g : TerminalGrid) (x y : Nat) (lit : Bool) (c r : Nat) :
    (g.replay (drawPixel x y lit)).char c r =
      if r = y + 1 ∧ (c = 2 * x + 1 ∨ c = 2 * x + 2) then mark lit else g.char c r := by
  have drawn : block lit = [mark lit, mark lit] := by cases lit <;> rfl
  rw [drawPixel, drawn]
  split
  · next inside =>
    rw [TerminalGrid.char_replay_stroke]
    obtain ⟨rfl, rfl | rfl⟩ := inside <;> simp
  · next outside =>
    exact TerminalGrid.char_replay_stroke_of_outside (by simp; omega) g

/-! ### Several cells -/

/-- The commands for some cells, each drawn as it is in `lit`. -/
def drawCells (cells : List Nat) (lit : Nat → Bool) : List TerminalCommand :=
  cells.flatMap fun k => drawPixel (k % 64) (k / 64) (lit k)

/-- Nothing is sent exactly if no cell is drawn. -/
theorem drawCells_eq_nil_iff {cells : List Nat} {lit : Nat → Bool} :
    drawCells cells lit = [] ↔ cells = [] := by
  rw [drawCells, List.flatMap_eq_nil_iff, List.eq_nil_iff_forall_not_mem]
  exact forall₂_congr fun k mem => by simp [drawPixel]

/-- After some cells have been drawn, a pixel is shown as it was drawn, if it was, and else as
before. -/
theorem char_replay_drawCells {x y c : Nat} (hx : x < 64) (column : c = 2 * x + 1 ∨ c = 2 * x + 2)
    (cells : List Nat) (lit : Nat → Bool) (g : TerminalGrid) :
    (g.replay (drawCells cells lit)).char c (y + 1) =
      if 64 * y + x ∈ cells then mark (lit (64 * y + x)) else g.char c (y + 1) := by
  induction cells generalizing g with
  | nil => rfl
  | cons k rest ih =>
    have here : (y + 1 = k / 64 + 1 ∧ (c = 2 * (k % 64) + 1 ∨ c = 2 * (k % 64) + 2)) ↔
        64 * y + x = k := by
      omega
    have later := ih (g.replay (drawPixel (k % 64) (k / 64) (lit k)))
    rw [char_replay_drawPixel] at later
    rw [drawCells, List.flatMap_cons, TerminalGrid.replay_append, ← drawCells, later]
    simp only [here, List.mem_cons]
    by_cases first : 64 * y + x = k
    · simp [first]
    · simp [first]

/-- Cells of the screen that are drawn leave every place that shows no pixel. -/
theorem char_replay_drawCells_of_border {c r : Nat}
    (border : c = 0 ∨ 128 < c ∨ r = 0 ∨ 32 < r) {cells : List Nat}
    (onScreen : ∀ k ∈ cells, k < 2048) (lit : Nat → Bool) (g : TerminalGrid) :
    (g.replay (drawCells cells lit)).char c r = g.char c r := by
  refine TerminalGrid.char_replay_flatMap (fun k mem g => ?_) g
  have bound := onScreen k mem
  rw [char_replay_drawPixel, if_neg]
  omega

/-! ### The cells that differ -/

/-- The numbers below a product, row by row. -/
theorem range_mul_eq_flatMap (m n : Nat) :
    List.range (m * n) = (List.range m).flatMap fun y => (List.range n).map (n * y + ·) := by
  induction m with
  | zero => simp
  | succ m ih =>
    rw [Nat.succ_mul, List.range_add, ih, List.range_succ, List.flatMap_append, Nat.mul_comm m n]
    simp

/-- The commands for a row are those for its pixels that differ, also if there is none. -/
theorem rowChanges_eq_flatMap (before after : Screen) (y : Nat) :
    rowChanges before after y = (List.range 64).flatMap fun x =>
      if before.pixel x y = after.pixel x y then [] else drawPixel x y (after.pixel x y) := by
  rw [rowChanges]
  split
  · next same =>
    refine (List.flatMap_eq_nil_iff.2 ?_).symm
    intro x _
    rw [if_pos (by rw [Screen.pixel, Screen.pixel, same])]
  · rfl

/-- The commands for pixels of one row are those for the cells that differ. -/
theorem flatMap_drawPixel_eq (before after : Screen) (y : Nat) {columns : List Nat}
    (onScreen : ∀ x ∈ columns, x < 64) :
    (columns.flatMap fun x =>
      if before.pixel x y = after.pixel x y then [] else drawPixel x y (after.pixel x y)) =
    drawCells ((columns.map (64 * y + ·)).filter fun k => before.cell k != after.cell k)
      after.cell := by
  induction columns with
  | nil => rfl
  | cons x rest ih =>
    have hx : x < 64 := onScreen x List.mem_cons_self
    have column : (64 * y + x) % 64 = x := by omega
    have row : (64 * y + x) / 64 = y := by omega
    rw [List.flatMap_cons, ih fun z mem => onScreen z (List.mem_cons_of_mem x mem), List.map_cons,
      List.filter_cons, Screen.cell_add before hx, Screen.cell_add after hx]
    by_cases same : before.pixel x y = after.pixel x y
    · simp [same]
    · simp [same, drawCells, column, row, Screen.cell_add after hx]

/-- The commands for two screens are those for the cells in which they differ, in row-major
order. -/
theorem changes_eq (before after : Screen) :
    changes before after =
      drawCells ((List.range 2048).filter fun k => before.cell k != after.cell k) after.cell := by
  have rows (y : Nat) : rowChanges before after y = _ :=
    (rowChanges_eq_flatMap before after y).trans
      (flatMap_drawPixel_eq before after y fun x => List.mem_range.1)
  have cells : List.range 2048 = _ := range_mul_eq_flatMap 32 64
  rw [cells, List.filter_flatMap, drawCells, List.flatMap_assoc]
  exact congrArg (List.range 32).flatMap (funext rows)

/-! ### Histories of frames -/

/-- The painter after it has presented some frames. -/
def after (p : Painter) (frames : List Frame) : Painter :=
  frames.foldl (fun p f => (p.present f).1) p

/-- The commands that a painter sends for some frames. -/
def sent (p : Painter) : List Frame → List TerminalCommand
  | [] => []
  | f :: rest => (p.present f).2 ++ (p.present f).1.sent rest

@[simp] theorem shown_present (p : Painter) (f : Frame) :
    (p.present f).1.shown = .ofFrame f := by
  rw [present, update]

theorem snd_present (p : Painter) (f : Frame) :
    (p.present f).2 = changes p.shown (.ofFrame f) := by
  rw [present, update]

/-- Showing a screen is showing its frame. -/
theorem present_toFrame (p : Painter) (s : Screen) : p.present s.toFrame = p.update s := by
  rw [present, Screen.ofFrame_toFrame]

theorem after_nil (p : Painter) : p.after [] = p := rfl

theorem after_cons (p : Painter) (f : Frame) (rest : List Frame) :
    p.after (f :: rest) = (p.present f).1.after rest := by
  rw [after, List.foldl_cons, ← after]

theorem sent_nil (p : Painter) : p.sent [] = [] := rfl

theorem sent_cons (p : Painter) (f : Frame) (rest : List Frame) :
    p.sent (f :: rest) = (p.present f).2 ++ (p.present f).1.sent rest := rfl

/-- A painter that is given some frames and then one more sends the commands for the latter last. -/
theorem sent_concat (p : Painter) (frames : List Frame) (f : Frame) :
    p.sent (frames ++ [f]) = p.sent frames ++ ((p.after frames).present f).2 := by
  induction frames generalizing p with
  | nil => rw [List.nil_append, sent_cons, sent_nil, sent_nil, after_nil, List.append_nil,
      List.nil_append]
  | cons first rest ih =>
    rw [List.cons_append, sent_cons, sent_cons, ih, after_cons, List.append_assoc]

/-- A blank terminal on which a painter has drawn the border and presented some frames. -/
def display (frames : List Frame) : TerminalGrid :=
  TerminalGrid.blank.replay (opening ++ start.sent frames)

theorem display_eq (frames : List Frame) :
    display frames = (TerminalGrid.blank.replay opening).replay (start.sent frames) := by
  rw [display, TerminalGrid.replay_append]

/-- A terminal shows a screen if the two columns of each pixel show whether it is lit. -/
def Shows (g : TerminalGrid) (s : Screen) : Prop :=
  ∀ x < 64, ∀ y < 32, ∀ c, c = 2 * x + 1 ∨ c = 2 * x + 2 → g.char c (y + 1) = mark (s.pixel x y)

/-- After the changes a terminal that showed one screen shows the next. -/
theorem Shows.changes {g : TerminalGrid} {before : Screen} (shows : Shows g before)
    (after : Screen) : Shows (g.replay (changes before after)) after := by
  intro x hx y hy c column
  have cell : 64 * y + x < 2048 := by omega
  rw [changes_eq, char_replay_drawCells hx column, Screen.cell_add after hx]
  split
  · rfl
  · next kept =>
    have same : before.pixel x y = after.pixel x y := by
      simpa [cell, Screen.cell_add _ hx] using kept
    rw [shows x hx y hy c column, same]

/-- The changes leave every place that shows no pixel. -/
theorem char_replay_changes_of_border {c r : Nat} (border : c = 0 ∨ 128 < c ∨ r = 0 ∨ 32 < r)
    (before after : Screen) (g : TerminalGrid) :
    (g.replay (changes before after)).char c r = g.char c r := by
  rw [changes_eq]
  refine char_replay_drawCells_of_border border (fun k mem => ?_) _ g
  exact List.mem_range.1 (List.mem_filter.1 mem).1

/-- The drawn border surrounds a dark screen. -/
theorem shows_opening : Shows (TerminalGrid.blank.replay opening) .blank := by
  intro x hx y hy c column
  rw [char_replay_opening (by omega), Screen.pixel_blank]
  rfl

/-- A terminal that shows what a painter remembers does so after any frames. -/
theorem Shows.sent {g : TerminalGrid} {p : Painter} (shows : Shows g p.shown)
    (frames : List Frame) : Shows (g.replay (p.sent frames)) (p.after frames).shown := by
  induction frames generalizing g p with
  | nil => exact shows
  | cons f rest ih =>
    rw [sent_cons, after_cons, TerminalGrid.replay_append]
    refine ih ?_
    rw [snd_present, shown_present]
    exact shows.changes (.ofFrame f)

/-- Frames leave every place that shows no pixel. -/
theorem char_replay_sent_of_border {c r : Nat} (border : c = 0 ∨ 128 < c ∨ r = 0 ∨ 32 < r)
    (p : Painter) (frames : List Frame) (g : TerminalGrid) :
    (g.replay (p.sent frames)).char c r = g.char c r := by
  induction frames generalizing g p with
  | nil => rfl
  | cons f rest ih =>
    rw [sent_cons, TerminalGrid.replay_append, ih, snd_present,
      char_replay_changes_of_border border]

/-- A painter remembers the last frame. -/
theorem shown_after_concat (p : Painter) (frames : List Frame) (f : Frame) :
    (p.after (frames ++ [f])).shown = .ofFrame f := by
  rw [after, List.foldl_append, List.foldl_cons, List.foldl_nil, shown_present]

/-- A painter remembers which cells are lit in the last frame. -/
theorem cell_shown_after (frames : List Frame) :
    (start.after frames).shown.cell = Frame.isLitAfter frames := by
  funext k
  rcases List.eq_nil_or_concat frames with rfl | ⟨earlier, last, rfl⟩
  · exact Screen.pixel_blank _ _
  · rw [List.concat_eq_append, shown_after_concat, Screen.cell_ofFrame, Frame.isLitAfter,
      List.getLast?_concat, Option.any_some]

/-- Drawing only the differences shows every frame.  When a painter that has drawn the border has
been given any frames and then one more, the two columns of each pixel show a full block if the cell
of the pixel is lit in the last frame and are blank if it is not, the border is as it was drawn at
first, and there is nothing beyond it.  For the last frame the painter sends the drawings of just
those cells, in row-major order, whose state differs from the frame before, where before the first
frame all are dark, and it sends nothing if there are none. -/
theorem display_shows_frames (frames : List Frame) (f : Frame) :
    let sent := ((start.after frames).present f).2
    let shown := display (frames ++ [f])
    shown = TerminalGrid.blank.replay (opening ++ start.sent frames ++ sent) ∧
    (∀ x < 64, ∀ y < 32, ∀ c, c = 2 * x + 1 ∨ c = 2 * x + 2 →
      shown.char c (y + 1) = if f.isLit (y * 64 + x) then '█' else ' ') ∧
    (∀ c r, c = 0 ∨ 128 < c ∨ r = 0 ∨ 32 < r →
      shown.char c r = (TerminalGrid.blank.replay opening).char c r) ∧
    (∀ c r, 129 < c ∨ 33 < r → shown.char c r = ' ') ∧
    sent = ((List.range 2048).filter fun k => Frame.isLitAfter frames k != f.isLit k).flatMap
      (fun k => drawPixel (k % 64) (k / 64) (f.isLit k)) ∧
    (sent = [] ↔ ∀ k < 2048, Frame.isLitAfter frames k = f.isLit k) := by
  intro sent shown
  have changed : sent = changes (start.after frames).shown (.ofFrame f) := snd_present _ f
  have replayed : shown = (TerminalGrid.blank.replay opening).replay (start.sent (frames ++ [f])) :=
    display_eq (frames ++ [f])
  have border (c r : Nat) (on : c = 0 ∨ 128 < c ∨ r = 0 ∨ 32 < r) :
      shown.char c r = (TerminalGrid.blank.replay opening).char c r := by
    rw [replayed, char_replay_sent_of_border on]
  have commands : sent = drawCells
      ((List.range 2048).filter fun k => Frame.isLitAfter frames k != f.isLit k) f.isLit := by
    rw [changed, changes_eq, cell_shown_after, Screen.cell_ofFrame]
  refine ⟨?_, ?_, border, ?_, commands, ?_⟩
  · rw [replayed, sent_concat, ← TerminalGrid.replay_append, List.append_assoc]
  · intro x hx y hy c column
    have shows : Shows shown (.ofFrame f) := by
      rw [replayed, ← shown_after_concat start frames f]
      exact shows_opening.sent (frames ++ [f])
    rw [shows x hx y hy c column, ← Screen.cell_add _ hx, Screen.cell_ofFrame, Nat.mul_comm 64 y,
      mark]
  · intro c r beyond
    rw [border c r (by omega), char_replay_opening (Or.inr beyond)]
  · rw [commands, drawCells_eq_nil_iff]
    simp

/-- A cell that gets a value neither lit nor dark stays blank, and nothing is sent for it. -/
theorem display_shows_frames_of_odd_value :
    let first : Frame := Vector.ofFn fun k => if k.val = 65 then Frame.lit else Frame.dark
    let second : Frame := Vector.ofFn fun k =>
      if k.val = 65 then Frame.lit else if k.val = 66 then 5 else Frame.dark
    ((start.after [first]).present second).2 = [] ∧
    (display [first, second]).char 3 2 = '█' ∧ (display [first, second]).char 5 2 = ' ' ∧
    (display [first, second]).char 130 0 = ' ' := by
  intro first second
  have dark : Frame.dark ≠ Frame.lit := by decide
  have odd : (5 : UInt32) ≠ Frame.lit := by decide
  have litFirst : ∀ k < 2048, first.isLit k = decide (k = 65) := by
    intro k bound
    by_cases lit : k = 65 <;> simp [first, Frame.isLit, bound, lit, dark]
  have litSecond : ∀ k < 2048, second.isLit k = decide (k = 65) := by
    intro k bound
    by_cases lit : k = 65
    · simp [second, Frame.isLit, lit]
    · by_cases other : k = 66 <;> simp [second, Frame.isLit, bound, lit, other, dark, odd]
  obtain ⟨-, pixels, -, beyond, -, silent⟩ := display_shows_frames [first] second
  have frames : [first] ++ [second] = [first, second] := rfl
  rw [frames] at pixels beyond
  have same : ∀ k < 2048, Frame.isLitAfter [first] k = second.isLit k := fun k bound =>
    (litFirst k bound).trans (litSecond k bound).symm
  -- The row is rewritten, since comparing the two places would replay all commands.
  have row : 1 + 1 = 2 := rfl
  have lit := pixels 1 (by decide) 1 (by decide) 3 (by decide)
  have blank := pixels 2 (by decide) 1 (by decide) 5 (by decide)
  rw [row, litSecond _ (by decide)] at lit blank
  exact ⟨silent.2 same, lit, blank, beyond 130 0 (by decide)⟩

end Painter

end Chip8
