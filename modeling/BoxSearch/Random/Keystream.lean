/-!
# Pseudorandom words

A generator is the ChaCha stream with twelve rounds under a key that is expanded from a 64-bit
seed. The blocks of the stream are read as one sequence of 32-bit words.
-/
set_option autoImplicit false

namespace BoxSearch.Random

abbrev Block := Vector UInt32 16

def rotateLeft (x k : UInt32) : UInt32 := (x <<< k) ||| (x >>> (32 - k))

def quarterRound (s : Block) (a b c d : Fin 16) : Block :=
  let s := s.set a (s[a] + s[b])
  let s := s.set d (rotateLeft (s[d] ^^^ s[a]) 16)
  let s := s.set c (s[c] + s[d])
  let s := s.set b (rotateLeft (s[b] ^^^ s[c]) 12)
  let s := s.set a (s[a] + s[b])
  let s := s.set d (rotateLeft (s[d] ^^^ s[a]) 8)
  let s := s.set c (s[c] + s[d])
  s.set b (rotateLeft (s[b] ^^^ s[c]) 7)

def doubleRound (s : Block) : Block :=
  let s := quarterRound s 0 4 8 12
  let s := quarterRound s 1 5 9 13
  let s := quarterRound s 2 6 10 14
  let s := quarterRound s 3 7 11 15
  let s := quarterRound s 0 5 10 15
  let s := quarterRound s 1 6 11 12
  let s := quarterRound s 2 7 8 13
  quarterRound s 3 4 9 14

def iterate (n : Nat) (s : Block) : Block :=
  match n with
  | 0 => s
  | n + 1 => iterate n (doubleRound s)

def block (key : Vector UInt32 8) (counter : UInt64) : Block :=
  let constants : Vector UInt32 4 := #v[0x61707865, 0x3320646e, 0x79622d32, 0x6b206574]
  let position : Vector UInt32 4 := #v[counter.toUInt32, (counter >>> 32).toUInt32, 0, 0]
  let start : Block := constants ++ key ++ position
  (iterate 6 start).zipWith (· + ·) start

def seedState (seed : UInt64) : Nat → UInt64
  | 0 => seed
  | n + 1 => seedState seed n * 6364136223846793005 + 11634580027462260723

def keyWord (s : UInt64) : UInt32 :=
  let x := (((s >>> 18) ^^^ s) >>> 27).toUInt32
  let k := (s >>> 59).toUInt32
  (x >>> k) ||| (x <<< (32 - k))

def expandSeed (seed : UInt64) : Vector UInt32 8 :=
  Vector.ofFn fun i => keyWord (seedState seed (i.val + 1))

end BoxSearch.Random
