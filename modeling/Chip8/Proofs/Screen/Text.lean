import Chip8.Proofs.Storage.Safety
import Chip8.Screen.Text

/-!
# The text of a screen can be read back

A frame is shown as text in runs of 64 cells, with a number sign for each lit cell, a space for any
other, and a line feed behind each run (`Frame.text`).  A lit pixel is thus shown in the same way
as the lit cell of its frame, and `text_eq_text_ofFrame` says that the text of a frame is that of
the screen it shows.

A line and its line feed are 65 characters, so pixel `x` of row `y` stands at place `65 * y + x` of
the text (`getElem?_toList_text`).  `Screen.ofText` reads these places, and gives the screen back
(`ofText_text`).  A frame with cells that are neither lit nor dark cannot be told from the one in
which they are dark; the frames of reachable machines have none, and `text_shows_frame`, the main
statement, says that their text shows each cell.
-/

namespace Chip8

namespace Frame

/-- The character that shows a cell. -/
def mark (cell : UInt32) : Char := if cell = lit then '#' else ' '

/-- The characters of the run of cells with number `y`. -/
def line (f : Frame) (y : Nat) : List Char :=
  ((f.toList.drop (64 * y)).take 64).map mark

/-- The runs of 64 cells as lines, each ended by a line feed. -/
def text (f : Frame) : String :=
  String.ofList ((List.range 32).flatMap fun y => f.line y ++ ['\n'])

/-- The lines of a frame, from the top. -/
def lines (f : Frame) : List (List Char) := (List.range 32).map f.line

/-- The text of a frame is its lines with a line feed behind each. -/
theorem text_eq_flatMap_lines (f : Frame) :
    f.text = String.ofList (f.lines.flatMap (· ++ ['\n'])) := by
  rw [text, lines, List.flatMap_map]

/-- Each cell of a run is shown by the character in its place. -/
theorem getElem?_line (f : Frame) {x y : Nat} (inside : x < 64) :
    (f.line y)[x]? = (f[64 * y + x]?).map mark := by
  rw [line, List.getElem?_map, List.getElem?_take_of_lt inside, List.getElem?_drop,
    Vector.getElem?_toList]

end Frame

namespace Screen

/-- A line of a frame is that of the screen it shows. -/
theorem line_eq_line_ofFrame (f : Frame) {y : Nat} (inside : y < 32) :
    f.line y = (ofFrame f).line y := by
  unfold Frame.line line width
  apply List.ext_getElem
  · simp
    omega
  · intro x hx hx'
    have column : x < 64 := by simpa using hx'
    simp [pixel_ofFrame f column inside, Frame.mark, mark]

/-- The text of a frame is that of the screen it shows. -/
theorem text_eq_text_ofFrame (f : Frame) : f.text = (ofFrame f).text := by
  have lines : (List.range 32).map (fun y => f.line y ++ ['\n']) =
      (List.range 32).map fun y => (ofFrame f).line y ++ ['\n'] := by
    refine List.map_congr_left fun y hy => ?_
    rw [line_eq_line_ofFrame f (List.mem_range.1 hy)]
  unfold Frame.text text height
  rw [List.flatMap_def, List.flatMap_def, lines]

/-! ### Reading a text -/

/-- In a sequence of blocks of one length, place `x` of block `y` is found by counting blocks. -/
theorem getElem?_flatMap_of_length {α β : Type} {blocks : List α} {entries : α → List β}
    {length : Nat} (uniform : ∀ a ∈ blocks, (entries a).length = length) (y : Nat) {x : Nat}
    (inside : x < length) :
    (blocks.flatMap entries)[length * y + x]? = (blocks[y]?).bind fun a => (entries a)[x]? := by
  induction blocks generalizing y with
  | nil => simp
  | cons a rest ih =>
    have first : (entries a).length = length := uniform a List.mem_cons_self
    rw [List.flatMap_cons]
    cases y with
    | zero => rw [Nat.mul_zero, Nat.zero_add, List.getElem?_append_left (by omega)]; rfl
    | succ y =>
      have place : length * (y + 1) + x - length = length * y + x := by
        rw [Nat.mul_succ]
        omega
      rw [List.getElem?_append_right (by rw [Nat.mul_succ]; omega), first, place]
      exact ih (fun b hb => uniform b (List.mem_cons_of_mem a hb)) y

/-- The character that shows pixel `x` of row `y` stands behind `y` lines and `x` characters. -/
theorem getElem?_toList_text (s : Screen) {x y : Nat} (hx : x < 64) (hy : y < 32) :
    s.text.toList[65 * y + x]? = some (mark (s.pixel x y)) := by
  have uniform : ∀ y ∈ List.range height, (s.line y ++ ['\n']).length = 65 := by
    intro y _
    simp
  rw [text, String.toList_ofList, getElem?_flatMap_of_length uniform y (by omega)]
  rw [List.getElem?_range (show y < height from hy), Option.bind_some,
    List.getElem?_append_left (by simpa using hx)]
  simp [line, width, hx]

/-- The screen whose lit pixels are the number signs of a text of lines of 64 characters. -/
def ofText (text : String) : Screen :=
  ofPixels fun x y => text.toList[65 * y + x]? == some '#'

/-- Reading the text of a screen gives the screen. -/
@[simp] theorem ofText_text (s : Screen) : ofText s.text = s := by
  apply ext_pixel
  intro x hx y hy
  rw [ofText, pixel_ofPixels _ hx hy, getElem?_toList_text s hx hy]
  cases s.pixel x y <;> decide

end Screen

namespace Frame

/-- A line of a frame has 64 characters, and none of them is a line feed. -/
theorem line_of_mem_lines {f : Frame} {characters : List Char} (member : characters ∈ f.lines) :
    characters.length = 64 ∧ ∀ c ∈ characters, c = '#' ∨ c = ' ' := by
  obtain ⟨y, row, rfl⟩ := List.mem_map.1 member
  constructor
  · rw [Screen.line_eq_line_ofFrame f (List.mem_range.1 row), Screen.length_line]
  · intro c shown
    obtain ⟨cell, -, rfl⟩ := List.mem_map.1 shown
    unfold mark
    split
    · exact .inl rfl
    · exact .inr rfl

end Frame

namespace Storage

/-- The text of a frame of lit and dark cells gives the frame back. -/
theorem toFrame_ofText_text {f : Frame}
    (binary : ∀ k (h : k < 2048), f[k] = Frame.lit ∨ f[k] = Frame.dark) :
    (Screen.ofText f.text).toFrame = f := by
  rw [Screen.text_eq_text_ofFrame, Screen.ofText_text, toFrame_ofFrame binary]

variable {ρ : Type} [ByteSource ρ]

/-- The text of every reachable machine is 32 lines of 64 characters, each ended by a line feed,
in which number signs show the lit cells and spaces the dark ones; there are no others.  Read back,
it gives the frame, and it is the text of the screen that the plain run leads to.  So two reachable
machines, whatever their programs and their sources of bytes, have the same text exactly if their
frames are equal. -/
theorem text_shows_frame {program : List UInt8} {random : ρ} {start s : Storage ρ}
    (booted : boot program random = .ok (.ok start)) {actions : List Action}
    (completed : start.after actions = .ok s) :
    (∃ lines : List (List Char),
      s.screen.text = String.ofList (lines.flatMap (· ++ ['\n'])) ∧
      lines.length = 32 ∧
      (∀ row ∈ lines, row.length = 64 ∧ ∀ c ∈ row, c = '#' ∨ c = ' ') ∧
      ∀ y < 32, ∀ x < 64, ∃ row c cell,
        lines[y]? = some row ∧ row[x]? = some c ∧ s.screen[64 * y + x]? = some cell ∧
        (cell = Frame.lit ∧ c = '#' ∨ cell = Frame.dark ∧ c = ' ')) ∧
    (Screen.ofText s.screen.text).toFrame = s.screen ∧
    (∃ m, Machine.boot program random = .ok m ∧
      s = (m.after actions).storage ∧ s.screen.text = (m.after actions).screen.text) ∧
    ∀ {σ : Type} [ByteSource σ] {program' : List UInt8} {random' : σ} {start' t : Storage σ}
      {actions' : List Action}, boot program' random' = .ok (.ok start') →
      start'.after actions' = .ok t →
      (s.screen.text = t.screen.text ↔ s.screen = t.screen) := by
  obtain ⟨first, loaded, rfl⟩ := exists_boot_of_boot booted
  obtain rfl : s = (first.after actions).storage := eq_storage_of_after_storage completed
  have binary : ∀ k (h : k < 2048), (first.after actions).storage.screen[k] = Frame.lit ∨
      (first.after actions).storage.screen[k] = Frame.dark := (wellFormed_storage _).binary
  generalize shown : (first.after actions).storage.screen = f at binary ⊢
  have back : (Screen.ofText f.text).toFrame = f := toFrame_ofText_text binary
  refine ⟨⟨f.lines, f.text_eq_flatMap_lines, ?_, ?_, ?_⟩, back, ?_, ?_⟩
  · simp [Frame.lines]
  · exact fun _ => Frame.line_of_mem_lines
  · intro y hy x hx
    have inside : 64 * y + x < 2048 := by omega
    have row : f.lines[y]? = some (f.line y) := by simp [Frame.lines, hy]
    have cell : f[64 * y + x]? = some f[64 * y + x] := Vector.getElem?_eq_getElem inside
    refine ⟨f.line y, Frame.mark f[64 * y + x], f[64 * y + x], row, ?_, cell, ?_⟩
    · rw [Frame.getElem?_line f hx, cell, Option.map_some]
    · rcases binary _ inside with lit | dark
      · exact .inl ⟨lit, by rw [lit]; rfl⟩
      · exact .inr ⟨dark, by rw [dark]; rfl⟩
  · refine ⟨first, loaded, rfl, ?_⟩
    rw [Screen.text_eq_text_ofFrame, ← shown]
    exact congrArg Screen.text (first.after actions).screen.ofFrame_toFrame
  · intro σ _ program' random' start' t actions' booted' completed'
    obtain ⟨second, -, rfl⟩ := exists_boot_of_boot booted'
    obtain rfl : t = (second.after actions').storage := eq_storage_of_after_storage completed'
    constructor
    · intro same
      rw [← back, same, toFrame_ofText_text (wellFormed_storage _).binary]
    · exact congrArg Frame.text

/-- A machine that draws the glyph of zero in a corner, and again two rows below: the text is not
that of the blank screen from which the run begins, and gives the frame back. -/
theorem text_shows_frame_of_glyphs :
    let first := Machine.fresh [0xD0, 0x15] (CyclicSource.ofPattern [7])
    let actions : List Action :=
      [.execute (.pointGlyph 0), .cycle, .execute (.setConst 1 2), .execute (.draw 0 1 5)]
    let s := (first.after actions).storage
    boot [0xD0, 0x15] (CyclicSource.ofPattern [7]) = .ok (.ok first.storage) ∧
    first.storage.after actions = .ok s ∧
    s.screen.text ≠ first.storage.screen.text ∧
    (Screen.ofText s.screen.text).toFrame = s.screen := by
  intro first actions s
  have booted : boot [0xD0, 0x15] (CyclicSource.ofPattern [7]) = .ok (.ok first.storage) := by
    rw [boot_eq]
    rfl
  have completed : first.storage.after actions = .ok s := after_storage (by simp [actions])
  obtain ⟨-, back, -, texts⟩ := text_shows_frame booted completed
  refine ⟨booted, completed, fun same => ?_, back⟩
  have started : first.storage.after [] = .ok first.storage := rfl
  have equal : (first.after actions).screen.toFrame = first.screen.toFrame :=
    (texts booted started).1 same
  have screens := congrArg Screen.ofFrame equal
  rw [Screen.ofFrame_toFrame, Screen.ofFrame_toFrame] at screens
  have lit : (first.after actions).screen.pixel 0 0 = true := by decide +kernel
  have dark : first.screen.pixel 0 0 = false := by decide +kernel
  rw [screens, dark] at lit
  cases lit

end Storage

end Chip8
