import GoldenCircuit.Digits
import GoldenCircuit.Word

/-! Deterministic stimulus: input values drawn from a seeded generator of 64-bit words. The
generator is xoshiro256**, and SplitMix64 spreads a seed over its state. -/
namespace GoldenCircuit

/-- The state of SplitMix64, advanced before each output. -/
def SplitMix.advance (state : UInt64) : UInt64 :=
  state + 0x9e3779b97f4a7c15

/-- The output of SplitMix64 at a state: the state, mixed by shifts and multiplications. -/
def SplitMix.output (state : UInt64) : UInt64 :=
  let once := (state ^^^ (state >>> 30)) * 0xbf58476d1ce4e5b9
  let twice := (once ^^^ (once >>> 27)) * 0x94d049bb133111eb
  twice ^^^ (twice >>> 31)

/-- The state of a generator: four words. -/
structure Xoshiro where
  word0 : UInt64
  word1 : UInt64
  word2 : UInt64
  word3 : UInt64
deriving DecidableEq

namespace Xoshiro

/-- The state whose words are the first four outputs of SplitMix64 from the seed on. -/
def ofSeed (seed : UInt64) : Xoshiro :=
  let first := SplitMix.advance seed
  let second := SplitMix.advance first
  let third := SplitMix.advance second
  let fourth := SplitMix.advance third
  ⟨SplitMix.output first, SplitMix.output second, SplitMix.output third, SplitMix.output fourth⟩

/-- Moves the high bits to the low end; the amount is between 1 and 63. -/
def rotateLeft (word amount : UInt64) : UInt64 :=
  (word <<< amount) ||| (word >>> (64 - amount))

def output (state : Xoshiro) : UInt64 :=
  rotateLeft (state.word1 * 5) 7 * 9

/-- The state after this one. -/
def advance (state : Xoshiro) : Xoshiro :=
  let mixed2 := state.word2 ^^^ state.word0
  let mixed3 := state.word3 ^^^ state.word1
  { word0 := state.word0 ^^^ mixed3
    word1 := state.word1 ^^^ mixed2
    word2 := mixed2 ^^^ (state.word1 <<< 17)
    word3 := rotateLeft mixed3 45 }

/-- A 32-bit draw: the upper half of the state's word. -/
def draw (state : Xoshiro) : UInt32 :=
  (state.output >>> 32).toUInt32

/-- So many draws, in order, and the state after them. -/
def draws : (count : Nat) → Xoshiro → List UInt32 × Xoshiro
  | 0, state => ([], state)
  | count + 1, state =>
    let (later, final) := draws count state.advance
    (state.draw :: later, final)

end Xoshiro

/-- The number whose digits are the given words, the least significant first. -/
def ofWords (words : List UInt32) : Nat :=
  joinDigits words.length UInt32.size (words.map (·.toNat))

def Width.words (width : Width) : Nat :=
  (width.bits + 31) / 32

/-- A source of input values. -/
structure Stimulus where
  generator : Xoshiro
deriving DecidableEq

namespace Stimulus

def defaultSeed : UInt64 :=
  0x7047757265210001

def ofSeed (seed : UInt64) : Stimulus :=
  ⟨.ofSeed seed⟩

instance : Inhabited Stimulus := ⟨ofSeed defaultSeed⟩

/-- A value of a width, and the source after it: as many draws as cover the width, cut to it. -/
def next (stimulus : Stimulus) (width : Width) : Nat × Stimulus :=
  let (words, generator) := stimulus.generator.draws width.words
  (truncate (ofWords words) width, ⟨generator⟩)

end Stimulus
end GoldenCircuit
