import CabScript.Script.Evaluation
import CabScript.Script.Listing

/-!
# Animated elements

An element evaluates its script once per frame and pins the result into an optional range. If the
script fails, the element says so once and then stays as it is until it is reset.

## Main definitions

* `Element`, with `Element.update` and `Element.reset`.
* `Notice`: what an element has to say.
-/

namespace CabScript

/-- What went wrong, in words. -/
def Failure.message : Failure → String
  | error e => e.message
  | breach .underflow => "too few values"
  | breach .overflow => "too many values"
  | breach .poolExhausted => "too few constants"

/-- How serious a notice is. -/
inductive Severity where
  | error | debug
deriving DecidableEq, Repr

/-- What an element has to say. -/
inductive Notice where
  /-- The script failed. -/
  | failed (cause : Failure) (listing : String)
  /-- The element runs again after a failure. -/
  | reset (listing : String)
deriving DecidableEq, Repr

namespace Notice

/-- How serious the notice is. -/
def severity : Notice → Severity
  | failed _ _ => .error
  | reset _ => .debug

/-- The text of the notice. -/
def text : Notice → String
  | failed cause listing =>
    "animation function failed: " ++ cause.message ++ " in `" ++ listing ++ "`"
  | reset listing => "animation reset after fault: " ++ listing

end Notice

/-- An animated element. -/
structure Element where
  /-- Its script. -/
  script : Script
  /-- The lower end of the range. -/
  minimum : Option Float := none
  /-- The upper end of the range. -/
  maximum : Option Float := none
  /-- Whether the script has failed and the element has not been reset since. -/
  isFaulted : Bool := false

/-- What an element yields in one frame. -/
structure Frame (γ : Type) where
  /-- The pinned value. -/
  value : Float
  /-- The element after the frame. -/
  element : Element
  /-- What it has to say. -/
  notice : Option Notice
  /-- The source of random words after the frame. -/
  source : γ

namespace Element

/-- Pins a number into a range, at the lower end first. -/
def pin (minimum maximum : Option Float) (x : Float) : Float :=
  let x := match minimum with
    | some low => if x < low then low else x
    | none => x
  match maximum with
  | some high => if x > high then high else x
  | none => x

/-- The last result of the script, pinned into the range. -/
def value (e : Element) : Float :=
  pin e.minimum e.maximum e.script.lastResult

/-- Evaluates the script, unless it has failed before, and pins its last result. The script itself
keeps the result as it is. -/
def update {γ : Type} [WordSource γ] (e : Element) (v : Viewpoint) (source : γ) : Frame γ :=
  if e.isFaulted then ⟨e.value, e, none, source⟩
  else
    let evaluation := e.script.evaluate v source
    let after := { e with script := evaluation.script }
    match evaluation.outcome with
    | .ok _ => ⟨after.value, after, none, evaluation.source⟩
    | .error failure =>
      ⟨after.value, { after with isFaulted := true },
        some (.failed failure evaluation.script.listing), evaluation.source⟩

/-- Lets an element that failed run again. -/
def reset (e : Element) : Element × Option Notice :=
  if e.isFaulted then ({ e with isFaulted := false }, some (.reset e.script.listing))
  else (e, none)

end Element

end CabScript
