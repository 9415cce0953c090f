/-!
# A seeded stream of random words

The stream is the ChaCha keystream with 12 rounds. A 64-bit seed is stretched to the 256-bit key
by a linear congruential generator whose output is scrambled by a rotation that its own top bits
choose. Block `n` of the stream is the ChaCha block with counter `n` and a zero nonce, and a
64-bit draw joins two neighbouring 32-bit words, the first one low.

The stream is a function of the position (`word`, `draw`), so a generator is a seed and a number
of draws made so far.
-/

namespace DemandPaging.Random

/-- Sixteen words: the state of the block function. -/
abbrev Block : Type := Vector UInt32 16

def rotateLeft (x n : UInt32) : UInt32 := (x <<< n) ||| (x >>> (32 - n))

def rotateRight (x n : UInt32) : UInt32 := (x >>> n) ||| (x <<< (32 - n))

/-- Mixes four words of the state. -/
def quarterRound (s : Block) (a b c d : Fin 16) : Block :=
  let s := s.set a (s[a] + s[b])
  let s := s.set d (rotateLeft (s[d] ^^^ s[a]) 16)
  let s := s.set c (s[c] + s[d])
  let s := s.set b (rotateLeft (s[b] ^^^ s[c]) 12)
  let s := s.set a (s[a] + s[b])
  let s := s.set d (rotateLeft (s[d] ^^^ s[a]) 8)
  let s := s.set c (s[c] + s[d])
  s.set b (rotateLeft (s[b] ^^^ s[c]) 7)

/-- Mixes the four columns, then the four diagonals. -/
def doubleRound (s : Block) : Block :=
  let s := quarterRound s 0 4 8 12
  let s := quarterRound s 1 5 9 13
  let s := quarterRound s 2 6 10 14
  let s := quarterRound s 3 7 11 15
  let s := quarterRound s 0 5 10 15
  let s := quarterRound s 1 6 11 12
  let s := quarterRound s 2 7 8 13
  quarterRound s 3 4 9 14

def doubleRounds : Nat → Block → Block
  | 0, s => s
  | n + 1, s => doubleRounds n (doubleRound s)

/-- The next state of the generator that stretches the seed. -/
def stretch (state : UInt64) : UInt64 := state * 6364136223846793005 + 11634580027462260723

/-- The key word that a state of the generator gives. -/
def keyWord (state : UInt64) : UInt32 :=
  rotateRight (((state >>> 18) ^^^ state) >>> 27).toUInt32 (state >>> 59).toUInt32

/-- The state of the generator after `n` steps. -/
def stretched (seed : UInt64) : Nat → UInt64
  | 0 => seed
  | n + 1 => stretch (stretched seed n)

/-- The key that a seed stands for. -/
def key (seed : UInt64) : Vector UInt32 8 := Vector.ofFn fun i => keyWord (stretched seed (i + 1))

/-- The state before mixing: four constants, the key, the counter and a zero nonce. -/
def initial (key : Vector UInt32 8) (counter : UInt64) : Block :=
  #v[0x61707865, 0x3320646e, 0x79622d32, 0x6b206574,
    key[0], key[1], key[2], key[3], key[4], key[5], key[6], key[7],
    counter.toUInt32, (counter >>> 32).toUInt32, 0, 0]

/-- A block of the stream. -/
def block (seed : UInt64) (n : Nat) : Block :=
  let start := initial (key seed) (UInt64.ofNat n)
  start.zipWith (· + ·) (doubleRounds 6 start)

/-- The 32-bit word at a position of the stream. -/
def word (seed : UInt64) (n : Nat) : UInt32 := (block seed (n / 16))[Fin.ofNat 16 n]

/-- The 64-bit draw with a given number. -/
def draw (seed : UInt64) (n : Nat) : UInt64 :=
  (word seed (2 * n)).toUInt64 ||| ((word seed (2 * n + 1)).toUInt64 <<< 32)

/-- Draws after which the block counter is back where it started and the stream repeats. -/
def period : Nat := 1 <<< 67

end DemandPaging.Random
