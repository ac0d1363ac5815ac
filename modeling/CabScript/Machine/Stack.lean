/-!
# The evaluation stack

A stack of numbers that holds a fixed number of values at most. Every operation either succeeds or
names the bound that it would break; none reads or writes beyond the stack.

## Main definitions

* `Stack`, with `Stack.capacity` and `Stack.ofCapacity?`.
* `Breach`: the bounds that an operation can break.
* `Stack.push`, `Stack.extend`, `Stack.pop`, `Stack.unary`, `Stack.binary`, `Stack.ternary`,
  `Stack.swap`: the operations of the machine.
* `Stack.replaceTop`: what each of them amounts to where it succeeds.
-/

namespace CabScript

/-- A bound that an operation of the machine would break. -/
inductive Breach where
  /-- There are fewer values than it takes. -/
  | underflow
  /-- There is no room for what it pushes. -/
  | overflow
  /-- There are fewer constants than it takes. -/
  | poolExhausted
deriving DecidableEq, Repr

/-- A stack of numbers. -/
structure Stack where
  /-- The values, the top first. -/
  values : List Float := []
  /-- How many more values fit. -/
  room : Nat
deriving Repr

namespace Stack

/-- The most values of eight bytes that fit into `2 ^ 63 - 1` bytes. -/
def greatestCapacity : Nat := (UInt64.size / 2 - 1) / 8

/-- An empty stack for a number of values; none if it would not fit into memory. -/
def ofCapacity? (capacity : Nat) : Option Stack :=
  if capacity ≤ greatestCapacity then some { room := capacity } else none

/-- How many values the stack can hold. -/
def capacity (s : Stack) : Nat :=
  s.values.length + s.room

/-- The values from the bottom to the top. -/
def toList (s : Stack) : List Float :=
  s.values.reverse

/-- The stack without its values. -/
def clear (s : Stack) : Stack where
  room := s.capacity

/-- Puts a value on top. -/
def push (s : Stack) (x : Float) : Except Breach Stack :=
  match s.room with
  | 0 => .error .overflow
  | room + 1 => .ok ⟨x :: s.values, room⟩

/-- Puts values on top, the last of them topmost. -/
def extend (s : Stack) (xs : List Float) : Except Breach Stack :=
  if xs.length ≤ s.room then .ok ⟨xs.reverse ++ s.values, s.room - xs.length⟩
  else .error .overflow

/-- The top, and the stack without it. -/
def pop (s : Stack) : Except Breach (Float × Stack) :=
  match s.values with
  | a :: rest => .ok (a, ⟨rest, s.room + 1⟩)
  | [] => .error .underflow

/-- The top. -/
def top (s : Stack) : Except Breach Float :=
  match s.values with
  | a :: _ => .ok a
  | [] => .error .underflow

/-- Puts the top on top once more. -/
def copy (s : Stack) : Except Breach Stack :=
  match s.values with
  | a :: _ => s.push a
  | [] => .error .underflow

/-- Replaces the top `a` by `f a`. -/
def unary (s : Stack) (f : Float → Float) : Except Breach Stack :=
  match s.values with
  | a :: rest => .ok ⟨f a :: rest, s.room⟩
  | [] => .error .underflow

/-- Replaces the top `b` and the value `a` below it by `f a b`. -/
def binary (s : Stack) (f : Float → Float → Float) : Except Breach Stack :=
  match s.values with
  | b :: a :: rest => .ok ⟨f a b :: rest, s.room + 1⟩
  | _ => .error .underflow

/-- Replaces the top `c` and the values `a` and `b` below it by `f a b c`. -/
def ternary (s : Stack) (f : Float → Float → Float → Float) : Except Breach Stack :=
  match s.values with
  | c :: b :: a :: rest => .ok ⟨f a b c :: rest, s.room + 2⟩
  | _ => .error .underflow

/-- Replaces the top `b` and the value `a` below it by what `f a b` yields besides its effect on a
state. -/
def binaryWith {γ : Type} (s : Stack) (f : Float → Float → γ → Float × γ) (state : γ) :
    Except Breach (Stack × γ) :=
  match s.values with
  | b :: a :: rest =>
    let (x, state) := f a b state
    .ok (⟨x :: rest, s.room + 1⟩, state)
  | _ => .error .underflow

/-- Exchanges the two topmost values. -/
def swap (s : Stack) : Except Breach Stack :=
  match s.values with
  | b :: a :: rest => .ok ⟨a :: b :: rest, s.room⟩
  | _ => .error .underflow

/-- The stack with its topmost `count` values replaced by others, the first of them topmost. -/
def replaceTop (s : Stack) (count : Nat) (xs : List Float) : Stack :=
  ⟨xs ++ s.values.drop count, s.room + count - xs.length⟩

/-- A stack that was made for a number of values has room for just as many. -/
theorem eq_of_ofCapacity? {capacity : Nat} {s : Stack} (h : ofCapacity? capacity = some s) :
    s = ⟨[], capacity⟩ := by
  unfold ofCapacity? at h
  split at h
  · exact (Option.some.inj h).symm
  · simp at h

theorem capacity_of_ofCapacity? {capacity : Nat} {s : Stack}
    (h : ofCapacity? capacity = some s) : s.capacity = capacity := by
  rw [eq_of_ofCapacity? h]
  exact Nat.zero_add capacity

@[simp] theorem capacity_clear (s : Stack) : s.clear.capacity = s.capacity := by
  simp [clear, capacity]

/-- Replacing values on top keeps the capacity, if the values are there and the new ones fit. -/
theorem capacity_replaceTop {s : Stack} {count : Nat} {xs : List Float}
    (values : count ≤ s.values.length) (room : xs.length ≤ s.room + count) :
    (s.replaceTop count xs).capacity = s.capacity := by
  simp only [replaceTop, capacity, List.length_append, List.length_drop]
  omega

end Stack

end CabScript
