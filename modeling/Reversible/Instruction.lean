import Reversible.State

namespace Reversible

inductive Instruction where
  | add (a b : Name)
  | sub (a b : Name)
  | swap (a b : Name)
  | negate (a : Name)
  | noop
  deriving DecidableEq, Repr

namespace Instruction

def opcode : Instruction → Opcode
  | add _ _ => .add
  | sub _ _ => .sub
  | swap _ _ => .swap
  | negate _ => .negate
  | noop => .noop

def operands : Instruction → List Name
  | add a b => [a, b]
  | sub a b => [a, b]
  | swap a b => [a, b]
  | negate a => [a]
  | noop => []

def ofParts? : Opcode → List Name → Option Instruction
  | .add, [a, b] => some (add a b)
  | .sub, [a, b] => some (sub a b)
  | .swap, [a, b] => some (swap a b)
  | .negate, [a] => some (negate a)
  | .noop, [] => some noop
  | _, _ => none

def inverse : Instruction → Instruction
  | add a b => sub a b
  | sub a b => add a b
  | i => i

def distinct (op : Opcode) (a b : Name) : Action State Unit :=
  if a = b then throw (.aliasedOperands op a) else pure ()

/-- All operands are read before the first is written. -/
def execute : Instruction → Action State Unit
  | add a b => do
    distinct .add a b
    let x ← State.read a
    let y ← State.read b
    State.write a (x + y)
  | sub a b => do
    distinct .sub a b
    let x ← State.read a
    let y ← State.read b
    State.write a (x - y)
  | swap a b => do
    let x ← State.read a
    let y ← State.read b
    State.write a y
    State.write b x
  | negate a => do
    let x ← State.read a
    State.write a (-x)
  | noop => pure ()

def invert (i : Instruction) : Action State Unit :=
  i.inverse.execute

theorem ofParts?_opcode_operands (i : Instruction) : ofParts? i.opcode i.operands = some i := by
  cases i <;> rfl

theorem length_operands (i : Instruction) : i.operands.length = i.opcode.arity := by
  cases i <;> rfl

@[simp] theorem inverse_inverse (i : Instruction) : i.inverse.inverse = i := by
  cases i <;> rfl

end Instruction

abbrev Program := List Instruction

namespace Program

def execute : Program → Action State Unit
  | [] => pure ()
  | i :: p => do
    i.execute
    execute p

def inverse (p : Program) : Program :=
  (p.map Instruction.inverse).reverse

def operands (p : Program) : List Name :=
  p.flatMap Instruction.operands

end Program

end Reversible
