/-!
# The ChaCha20 block function

`ChaCha.block` computes the sixteen words of one block of the ChaCha20 keystream from a key of
eight words and a block counter of 64 bits; the nonce is zero. A block starts from `initial`, the
constants, the key, the counter and the nonce; twenty rounds are applied to it, a column round and
a diagonal round in turn, and the start is added to the result.
-/

namespace Chip8.ChaCha

/-- The sixteen words on which the rounds work. -/
abbrev Block := Vector UInt32 16

/-- The eight words of a key. -/
abbrev Key := Vector UInt32 8

/-- Rotate a word to the left by `k` bits, for `0 < k < 32`. -/
def rotateLeft (w k : UInt32) : UInt32 :=
  w <<< k ||| w >>> (32 - k)

/-- Add word `b` to word `a`, and rotate the sum of word `d` and the new word `a` without carry. -/
def mix (s : Block) (a b d : Fin 16) (k : UInt32) : Block :=
  let s := s.set a.val (s[a] + s[b]) a.isLt
  s.set d.val (rotateLeft (s[d] ^^^ s[a]) k) d.isLt

/-- The quarter round on four of the words. -/
def quarterRound (s : Block) (a b c d : Fin 16) : Block :=
  mix (mix (mix (mix s a b d 16) c d b 12) a b d 8) c d b 7

/-- The quarter round on column `i` of the words, laid out in rows of four. -/
def columnRound (s : Block) (i : Fin 4) : Block :=
  quarterRound s ⟨i, by omega⟩ ⟨i + 4, by omega⟩ ⟨i + 8, by omega⟩ ⟨i + 12, by omega⟩

/-- The quarter round on the diagonal that begins in column `i` and goes on at the left edge after
it has reached the right one. -/
def diagonalRound (s : Block) (i : Fin 4) : Block :=
  quarterRound s ⟨i, by omega⟩ ⟨(i + 1) % 4 + 4, by omega⟩ ⟨(i + 2) % 4 + 8, by omega⟩
    ⟨(i + 3) % 4 + 12, by omega⟩

/-- A round on the four columns, then a round on the four diagonals. -/
def doubleRound (s : Block) : Block :=
  (List.finRange 4).foldl diagonalRound ((List.finRange 4).foldl columnRound s)

/-- Apply the double round `count` times. -/
def doubleRounds : Nat → Block → Block
  | 0, s => s
  | count + 1, s => doubleRounds count (doubleRound s)

/-- The text `expand 32-byte k`, four bytes to a word. -/
def constants : Vector UInt32 4 :=
  #v[0x61707865, 0x3320646E, 0x79622D32, 0x6B206574]

/-- The start of the block with number `counter`. -/
def initial (key : Key) (counter : UInt64) : Block :=
  constants ++ key ++ #v[counter.toUInt32, (counter >>> 32).toUInt32, 0, 0]

/-- The words of the block with number `counter`. -/
def block (key : Key) (counter : UInt64) : Block :=
  Vector.zipWith (· + ·) (doubleRounds 10 (initial key counter)) (initial key counter)

end Chip8.ChaCha
