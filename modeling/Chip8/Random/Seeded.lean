import Chip8.Random.ChaCha
import Chip8.Random.Source
/-!
# Random bytes from a seed

A seed of 64 bits is expanded to a ChaCha20 key: `advance` steps a linear congruential generator,
and `scramble` makes one word of the key from each of its next eight states. The bytes are the
lowest bytes of the words of the keystream, one byte from each word. Equal seeds give equal bytes.
-/

namespace Chip8

/-- The keystream of a key, from a position on: `pending` holds the words of the current block
that are still to come, and `counter` is the number of the block after it. -/
structure Keystream where
  key : ChaCha.Key
  counter : UInt64
  pending : List UInt32
deriving DecidableEq

namespace Keystream

/-- One step of the generator that expands a seed. -/
def advance (s : UInt64) : UInt64 :=
  s * 6364136223846793005 + 11634580027462260723

/-- The state of the generator after `count` steps. -/
def advanceBy : Nat → UInt64 → UInt64
  | 0, s => s
  | count + 1, s => advanceBy count (advance s)

/-- The word made from a state of the generator: its upper half, folded and rotated to the right
by the number in its five highest bits. Shifts of a word count modulo 32, so a turn by zero keeps
it. -/
def scramble (s : UInt64) : UInt32 :=
  let folded := (((s >>> 18) ^^^ s) >>> 27).toUInt32
  let turn := (s >>> 59).toUInt32
  folded >>> turn ||| folded <<< (32 - turn)

/-- The key expanded from a seed. -/
def keyOfSeed (seed : UInt64) : ChaCha.Key :=
  Vector.ofFn fun k => scramble (advanceBy (k.val + 1) seed)

/-- The keystream of the key expanded from a seed, from its beginning on. -/
def ofSeed (seed : UInt64) : Keystream where
  key := keyOfSeed seed
  counter := 0
  pending := []

/-- The next word, and the keystream from the word after it on. -/
def nextWord (s : Keystream) : UInt32 × Keystream :=
  match s.pending with
  | word :: rest => (word, { s with pending := rest })
  | [] =>
    let block := (ChaCha.block s.key s.counter).toList
    (block.headD 0, { s with counter := s.counter + 1, pending := block.tail })

/-- A byte is the lowest one of the next word. -/
def nextByte (s : Keystream) : UInt8 × Keystream :=
  let drawn := s.nextWord
  (drawn.1.toUInt8, drawn.2)

instance : ByteSource Keystream := ⟨nextByte⟩

end Keystream

end Chip8
