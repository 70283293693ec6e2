/-!
# The random generator

A xoshiro256++ generator: four 64-bit words of state, from which every draw makes one output word and
the next state.  All arithmetic wraps at the width of the words.
-/

namespace Quantities

structure Generator where
  s0 : UInt64
  s1 : UInt64
  s2 : UInt64
  s3 : UInt64
deriving DecidableEq, Repr

namespace Generator

def rotateLeft (word : UInt64) (count : UInt64) : UInt64 :=
  (word <<< count) ||| (word >>> (64 - count))

/-- Rotates a half word to the right; the count is taken modulo 32. -/
def rotateRightHalf (word : UInt32) (count : UInt32) : UInt32 :=
  (word >>> count) ||| (word <<< (32 - count))

def next (g : Generator) : UInt64 × Generator :=
  let output := rotateLeft (g.s0 + g.s3) 23 + g.s0
  let s2 := g.s2 ^^^ g.s0
  let s3 := g.s3 ^^^ g.s1
  (output, {
    s0 := g.s0 ^^^ s3
    s1 := g.s1 ^^^ s2
    s2 := s2 ^^^ (g.s1 <<< 17)
    s3 := rotateLeft s3 45 })

def take : Nat → Generator → List UInt64 × Generator
  | 0, g => ([], g)
  | count + 1, g =>
      let (output, g) := g.next
      let (rest, g) := take count g
      (output :: rest, g)

/-- One step of the congruential sequence that spreads a seed over the state. -/
def seedStep (state : UInt64) : UInt64 :=
  state * 6364136223846793005 + 11634580027462260723

/-- The half word that a term of the seed sequence contributes. -/
def seedHalf (state : UInt64) : UInt32 :=
  rotateRightHalf (((state >>> 18) ^^^ state) >>> 27).toUInt32 (state >>> 59).toUInt32

/-- Two consecutive half words as one word, the first one low, and the state after them. -/
def seedWord (state : UInt64) : UInt64 × UInt64 :=
  let low := seedStep state
  let high := seedStep low
  ((seedHalf low).toUInt64 + ((seedHalf high).toUInt64 <<< 32), high)

def seeded (seed : UInt64) : Generator :=
  let (s0, state) := seedWord seed
  let (s1, state) := seedWord state
  let (s2, state) := seedWord state
  let (s3, _) := seedWord state
  { s0, s1, s2, s3 }

/-- The seed of one report step of a run.  The steps are spread by an odd multiplier. -/
def stepSeed (seed step : UInt64) : UInt64 :=
  seed ^^^ (step + 1) * 0x9e3779b97f4a7c15

/-- The generator of one report step, whatever was drawn in earlier steps. -/
def seededForStep (seed step : UInt64) : Generator :=
  seeded (stepSeed seed step)

end Generator

end Quantities
