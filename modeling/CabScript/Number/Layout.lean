import CabScript.Number.Shortest

/-!
# The text of a double

A double is written with the fewest digits that identify it. A `Layout` holds the decisions that
differ from one output to another; the library writes numbers in two of them, `Layout.word` inside
the text of a script and `Layout.inspection` where values are shown for inspection.
-/

namespace CabScript

open Float.Model.UnpackedFloat (Sign)

/-- How a number is laid out. -/
structure Layout where
  /-- Whether a number whose leading digit stands for `10 ^ e` is written with a mark of its power
  of ten, from `e`. -/
  marksPower : Int → Bool
  /-- What follows a number that is written without a fraction. -/
  afterWhole : String

namespace Layout

/-- Numbers as words of a script: always positional, nothing after a whole number. -/
def word : Layout where
  marksPower _ := false
  afterWhole := ""

/-- Numbers shown for inspection: positional from `10 ^ -4` to below `10 ^ 16`, and whole numbers
end in `.0`. -/
def inspection : Layout where
  marksPower e := e < -4 || 16 ≤ e
  afterWhole := ".0"

/-- The text of `count` zeros. -/
def zeros (count : Nat) : String :=
  String.ofList (List.replicate count '0')

/-- The digits in positional form: before, after or around the decimal point. -/
def positional (layout : Layout) (d : Decimal) : String :=
  let text := toString d.digits
  let places := (-d.exponent).toNat
  if 0 ≤ d.exponent then text ++ zeros d.exponent.toNat ++ layout.afterWhole
  else if text.length ≤ places then "0." ++ zeros (places - text.length) ++ text
  else
    let whole := text.toList.take (text.length - places)
    let fraction := text.toList.drop (text.length - places)
    String.ofList whole ++ "." ++ String.ofList fraction

/-- The digits with the point after the first and the power of ten behind them. -/
def scientific (d : Decimal) (power : Int) : String :=
  let digits := match (toString d.digits).toList with
    | [] => ""
    | [digit] => String.ofList [digit]
    | digit :: rest => String.ofList (digit :: '.' :: rest)
  digits ++ "e" ++ toString power

/-- The text of a positive decimal. -/
def decimal (layout : Layout) (d : Decimal) : String :=
  let power := ((toString d.digits).length : Int) - 1 + d.exponent
  if layout.marksPower power then scientific d power else layout.positional d

/-- The text of a sign. -/
def sign : Sign → String
  | .negative => "-"
  | .positive => ""

/-- The text of a double: `NaN` without a sign, all else signed, zeros and infinities included. -/
def text (layout : Layout) (x : Float) : String :=
  match x.toModel.unpack with
  | .notANumber => "NaN"
  | .infinity s => sign s ++ "inf"
  | .zero s => sign s ++ "0" ++ layout.afterWhole
  | .finite s m e pos => sign s ++ layout.decimal (Positive.shortest ⟨m, e, pos⟩)

/-- The text of a list of doubles, between brackets and separated by commas. -/
def list (layout : Layout) (xs : List Float) : String :=
  "[" ++ ", ".intercalate (xs.map layout.text) ++ "]"

end Layout

end CabScript
