/-
The random draws of a spawner, and a generator that makes them: four words of
64 bits, mixed with rotations (xoshiro256++), and seeded from one word.
-/
namespace AgentScheduler.Arena

/-- What a spawner draws: whether to spawn, and the hit points of a minion. -/
class Draws (γ : Type) where
  spawns : γ → Bool × γ
  hitPoints : γ → Int64 × γ

/-- The state of the generator. -/
structure Generator where
  s0 : UInt64
  s1 : UInt64
  s2 : UInt64
  s3 : UInt64
  deriving DecidableEq, Inhabited

/-- A word of 64 bits rotated to the left, by less than its width and at least one. -/
def rotateLeft (x n : UInt64) : UInt64 := x <<< n ||| x >>> (64 - n)

namespace Generator

/-! ## Seeding -/

/-- The next state of the seeding sequence. -/
def seedStep (state : UInt64) : UInt64 := state * 6364136223846793005 + 11634580027462260723

/-- The output of a state of the seeding sequence: 32 bits. -/
def seedWord (state : UInt64) : UInt32 :=
  let x : UInt32 := (((state >>> 18) ^^^ state) >>> 27).toUInt32
  let n : UInt32 := (state >>> 59).toUInt32
  if n = 0 then x else x >>> n ||| x <<< (32 - n)

/-- The next two outputs as one word, the first one in its lower half. -/
def seedPair (state : UInt64) : UInt64 × UInt64 :=
  let a := seedStep state
  let b := seedStep a
  ((seedWord a).toUInt64 ||| (seedWord b).toUInt64 <<< 32, b)

/-- The generator of a seed. -/
def ofSeed (seed : UInt64) : Generator :=
  let (s0, state) := seedPair seed
  let (s1, state) := seedPair state
  let (s2, state) := seedPair state
  let (s3, _) := seedPair state
  ⟨s0, s1, s2, s3⟩

/-! ## Draws -/

/-- The next word. -/
def next (g : Generator) : UInt64 × Generator :=
  let result := rotateLeft (g.s0 + g.s3) 23 + g.s0
  let s2 := g.s2 ^^^ g.s0
  let s3 := g.s3 ^^^ g.s1
  (result, ⟨g.s0 ^^^ s3, g.s1 ^^^ s2, s2 ^^^ g.s1 <<< 17, rotateLeft s3 45⟩)

/-- True with a chance of two in five. -/
def chance (g : Generator) : Bool × Generator :=
  let (word, g) := g.next
  (word < 7378697629483821056, g)

/-- How many words of 64 bits there are. -/
def wordCount : Nat := 0x10000000000000000

/-- One of five numbers, each as likely: the upper half of five times a word, where the
lower half is below a multiple of five; else another word, as long as there are tries. -/
def oneOfFive : Nat → Generator → Nat × Generator
  | tries, g =>
    let (word, g) := g.next
    let wide := word.toNat * 5
    match tries with
    | 0 => (wide / wordCount, g)
    | tries + 1 =>
      if wide % wordCount ≤ 0x9fffffffffffffff then (wide / wordCount, g) else oneOfFive tries g

/-- A number from 3 to 7. -/
def threeToSeven (g : Generator) : Int64 × Generator :=
  let (n, g) := oneOfFive 1000 g
  (.ofNat (3 + n), g)

instance : Draws Generator := ⟨chance, threeToSeven⟩

end Generator

end AgentScheduler.Arena
