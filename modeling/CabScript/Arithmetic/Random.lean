import CabScript.Number.Exact

/-!
# Random draws

Draws take machine words from a source and thread its state. A uniform double uses the upper 53 bits
of one 64-bit word. A uniform integer below `range` multiplies a 32-bit word by `range` and takes
the upper half of the product; a word whose lower half falls beyond the last multiple of `range`
that fits is thrown away, so that every outcome keeps equally many words.

## Main definitions

* `WordSource`: what draws need of a source; `Stepper` is the plainest one.
* `Number.randomUnit`, `Number.random`, `Number.randomInt`: the draws.
-/

namespace CabScript

/-- A source of machine words with states in `γ`. -/
class WordSource (γ : Type) where
  /-- The next 64-bit word and the state after it. -/
  next64 : γ → UInt64 × γ
  /-- The next 32-bit word and the state after it. -/
  next32 : γ → UInt32 × γ

/-- A source that counts up from `state` in steps of `increment`, modulo `2 ^ 64`. -/
structure Stepper where
  /-- The word that comes next. -/
  state : UInt64
  /-- What is added after each word. -/
  increment : UInt64
deriving DecidableEq, Repr

namespace Stepper

/-- The next word and the source after it. -/
def next (s : Stepper) : UInt64 × Stepper :=
  (s.state, { s with state := s.state + s.increment })

/-- A 32-bit word is the lower half of a 64-bit one. -/
instance : WordSource Stepper where
  next64 := next
  next32 s := (s.next.1.toUInt32, s.next.2)

end Stepper

namespace Number

variable {γ : Type} [WordSource γ]

/-- A uniform double of the form `k · 2 ^ -53` in `[0, 1)`. -/
def randomUnit (source : γ) : Float × γ :=
  let (word, source) := WordSource.next64 source
  (.ofModel (.pack (.round .binary64 .positive (word >>> 11).toNat (-53))), source)

/-- A uniform double between `low` and `high`. -/
def random (low high : Float) (source : γ) : Float × γ :=
  let (unit, source) := randomUnit source
  (low + unit * (high - low), source)

/-- The number of leading zero bits of `range` as a 32-bit word. -/
def leadingZeros (range : Nat) : Nat :=
  31 - range.log2

/-- Whether a word is kept in a draw below `range`: the lower half of its product with `range` lies
below the greatest `range · 2 ^ k` of 32 bits. -/
def keepsWord (range : Nat) (word : UInt32) : Bool :=
  word.toNat * range % UInt32.size < range <<< leadingZeros range

/-- The outcome that a word stands for in a draw below `range`. -/
def outcome (range : Nat) (word : UInt32) : Nat :=
  word.toNat * range / UInt32.size

/-- Draws a number below `range`, throwing away at most `patience` words. -/
def drawBelow (range : Nat) : Nat → γ → Nat × γ
  | 0, source =>
    let (word, source) := WordSource.next32 source
    (outcome range word, source)
  | patience + 1, source =>
    let (word, source) := WordSource.next32 source
    if keepsWord range word then (outcome range word, source)
    else drawBelow range patience source

/-- How many words a draw throws away before it takes the next one as it comes: all there are. -/
def patience : Nat := UInt32.size

/-- A uniform integer that is at least the integer part of `low` and less than that of `high`, both
clamped to 32 bits. If there is none it is `low`'s, and nothing is drawn. -/
def randomInt (low high : Float) (source : γ) : Float × γ :=
  let first := toInt32 low
  let last := toInt32 high
  if last ≤ first then (ofInt first, source)
  else
    let (n, source) := drawBelow (last - first).toNat patience source
    (ofInt (first + n), source)

end Number

/-- A random draw between two numbers. -/
inductive Draw where
  /-- Any number between them. -/
  | uniform
  /-- A whole number. -/
  | integer
deriving DecidableEq, Repr

/-- The value drawn between the left and the right operand, and the source after it. -/
def Draw.apply {γ : Type} [WordSource γ] : Draw → Float → Float → γ → Float × γ
  | uniform, a, b, source => Number.random a b source
  | integer, a, b, source => Number.randomInt a b source

end CabScript
