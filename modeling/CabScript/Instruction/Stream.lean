import CabScript.Instruction.Catalogue

/-!
# Raw streams

A list of instructions is stored as a list of 16-bit codes. Every instruction takes one code, except
that the length of a block of constants follows its code as an operand.

## Main definitions

* `Instruction.codes`, `Instruction.encode`: the raw form of an instruction and of a list.
* `Instruction.decode`: reads a raw stream.
-/

namespace CabScript.Instruction

/-- Whether the operand of an instruction fits a raw code. -/
def isEncodable : Instruction → Bool
  | constants count => count < UInt16.size
  | _ => true

/-- The codes that stand for an instruction, its operand included. -/
def codes : Instruction → List UInt16
  | constants count => [blockCode, .ofNat count]
  | i => [i.code]

/-- The raw stream of a list of instructions; none if an operand does not fit. -/
def encode (l : List Instruction) : Option (List UInt16) :=
  if l.all isEncodable then some (l.flatMap codes) else none

/-- Reads the rest of a raw stream; `before` holds the instructions read already, the latest
first. -/
def decodeAfter (before : List Instruction) : List UInt16 → Option (List Instruction)
  | [] => some before.reverse
  | [code] => if code = blockCode then none else some (ofCode code :: before).reverse
  | code :: next :: rest =>
    if code = blockCode then decodeAfter (constants next.toNat :: before) rest
    else decodeAfter (ofCode code :: before) (next :: rest)

/-- The instructions of a raw stream; none if it ends before the length of a block. -/
def decode (stream : List UInt16) : Option (List Instruction) :=
  decodeAfter [] stream

end CabScript.Instruction
