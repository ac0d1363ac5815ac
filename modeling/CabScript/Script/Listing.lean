import CabScript.Number.Layout
import CabScript.Script.Allotment
import CabScript.Script.Basic

/-!
# Listings

The text of a script: the words of its instructions, with constants in the places where they are
pushed, separated by single blanks. All instructions are listed, also those behind a `halt`.
-/

namespace CabScript

/-- The words of an instruction in its place: the constants it pushes, or its own word. -/
def Allotted.words (print : Float → String) (a : Allotted) : List String :=
  match a.instruction with
  | .constant | .constants _ => a.share.map print
  | i => [i.text]

namespace Script

/-- The listing of instructions with their pool, given the text of numbers. -/
def listingWith (print : Float → String) (code : List Instruction) (pool : List Float) : String :=
  " ".intercalate ((allot code pool).flatMap (Allotted.words print))

/-- The text of the script. -/
def listing (s : Script) : String :=
  listingWith Layout.word.text s.code s.constants

end Script

end CabScript
