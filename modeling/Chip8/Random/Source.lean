/-!
# Sources of random bytes

A `ByteSource` yields one byte after another. `ByteSource.drop` is the source after some bytes
have been drawn, `ByteSource.stream` lists all bytes that a source will yield, and
`ByteSource.take` draws several at once. `CyclicSource` repeats a fixed list of bytes for ever.
-/

namespace Chip8

/-- A type of sources from which bytes are drawn one at a time. -/
class ByteSource (ρ : Type) where
  /-- The next byte, and the source that yields those after it. -/
  next : ρ → UInt8 × ρ

namespace ByteSource

variable {ρ : Type} [ByteSource ρ]

/-- The source after `count` bytes have been drawn. -/
def drop (source : ρ) : Nat → ρ
  | 0 => source
  | count + 1 => drop (next source).2 count

/-- The byte that a source yields after `k` others. -/
def stream (source : ρ) (k : Nat) : UInt8 :=
  (next (drop source k)).1

/-- The next `count` bytes. -/
def take (source : ρ) : Nat → List UInt8
  | 0 => []
  | count + 1 => (next source).1 :: take (next source).2 count

@[simp] theorem drop_zero (source : ρ) : drop source 0 = source := rfl

theorem drop_succ (source : ρ) (count : Nat) :
    drop source (count + 1) = drop (next source).2 count := rfl

/-- Drawing in two portions is drawing once. -/
theorem drop_add (source : ρ) (m n : Nat) : drop source (m + n) = drop (drop source m) n := by
  induction m generalizing source with
  | zero => simp
  | succ m ih => rw [Nat.succ_add, drop_succ, drop_succ, ih]

end ByteSource

/-- A source that repeats `pattern` for ever; `pending` is the part of it that is still to come. -/
structure CyclicSource where
  pattern : List UInt8
  pending : List UInt8
deriving DecidableEq

namespace CyclicSource

/-- The source that begins with the first byte of `pattern`. -/
def ofPattern (pattern : List UInt8) : CyclicSource where
  pattern := pattern
  pending := pattern

/-- Take the first pending byte, after starting the pattern again if none is pending. An empty
pattern yields zeros. -/
def draw (s : CyclicSource) : UInt8 × CyclicSource :=
  match s.pending with
  | byte :: rest => (byte, { s with pending := rest })
  | [] =>
    match s.pattern with
    | byte :: rest => (byte, { s with pending := rest })
    | [] => (0, s)

instance : ByteSource CyclicSource := ⟨draw⟩

end CyclicSource

end Chip8
