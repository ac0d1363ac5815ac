import CabScript.Error
import CabScript.Instruction.Basic
import CabScript.Machine.Stack

/-!
# Single steps

What one instruction does in a pass over a script. A pass holds the stack, the constants that are
still unread and the source of random words; it reads the scene through a viewpoint.

## Main definitions

* `Pass`: the state of the machine between two instructions.
* `Failure`: why a step cannot be taken.
* `Instruction.step`: the step of an instruction.
-/

namespace CabScript

/-- The state of the machine between two instructions. -/
structure Pass (γ : Type) where
  /-- The stack. -/
  stack : Stack
  /-- The constants that no instruction has taken yet. -/
  unread : List Float
  /-- The source of random words. -/
  source : γ

/-- Why a step cannot be taken. -/
inductive Failure where
  /-- The script asks for what no script may have. -/
  | error (e : Error)
  /-- A bound of the machine would be broken, which no admitted script does. -/
  | breach (b : Breach)
deriving DecidableEq, Repr

/-- What is the same for all steps of a pass. -/
structure Setting where
  /-- What the element sees. -/
  viewpoint : Viewpoint
  /-- The result of the previous pass. -/
  previous : Float

namespace Pass

variable {γ : Type}

/-- The pass with the stack that an operation leaves. -/
def withStack (p : Pass γ) : Except Breach Stack → Except Failure (Pass γ)
  | .ok stack => .ok { p with stack }
  | .error b => .error (.breach b)

/-- Takes the next constants of the pool, as many as asked for. -/
def takeConstants (p : Pass γ) (count : Nat) : Except Failure (List Float × Pass γ) :=
  let taken := p.unread.take count
  if taken.length = count then .ok (taken, { p with unread := p.unread.drop count })
  else .error (.breach .poolExhausted)

/-- Pushes the next constants of the pool. -/
def pushConstants (p : Pass γ) (count : Nat) : Except Failure (Pass γ) :=
  match p.takeConstants count with
  | .ok (taken, p) => p.withStack (p.stack.extend taken)
  | .error failure => .error failure

/-- Replaces the two topmost values by one drawn between them. -/
def draw [WordSource γ] (p : Pass γ) (d : Draw) : Except Failure (Pass γ) :=
  match p.stack.binaryWith d.apply p.source with
  | .ok (stack, source) => .ok { p with stack, source }
  | .error b => .error (.breach b)

end Pass

namespace Instruction

variable {γ : Type} [WordSource γ]

/-- The pass after an instruction at an address. To halt changes nothing: it is the run that
ends. -/
def step (setting : Setting) (address : Nat) (p : Pass γ) :
    Instruction → Except Failure (Pass γ)
  | halt => .ok p
  | constant => p.pushConstants 1
  | constants count => p.pushConstants count
  | previous => p.withStack (p.stack.push setting.previous)
  | copy => p.withStack p.stack.copy
  | swap => p.withStack p.stack.swap
  | unary op => p.withStack (p.stack.unary op.apply)
  | binary op => p.withStack (p.stack.binary op.apply)
  | ternary op => p.withStack (p.stack.ternary op.apply)
  | draw d => p.draw d
  | query q => p.withStack (p.stack.push (q.read setting.viewpoint))
  | queryAt q => p.withStack (p.stack.unary (q.read setting.viewpoint ·))
  | panelTimetable => .error (.error ⟨.reservedInstruction, some address, "panel2timetable"⟩)
  | unknown _ => .error (.error ⟨.unknownInstruction, some address, ""⟩)

end Instruction

end CabScript
