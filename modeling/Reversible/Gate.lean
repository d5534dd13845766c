import Reversible.State
import Reversible.Step

namespace Reversible

namespace Domain

@[reducible] def Symbol : Domain → Type
  | .binary => Bool
  | .ternary => Fin 3
  | .natlog => Value

def ofValue? : (d : Domain) → Value → Option d.Symbol
  | .binary, v => if v = 0 then some false else if v = 1 then some true else none
  | .ternary, v => if v = 0 then some 0 else if v = 1 then some 1 else if v = 2 then some 2 else none
  | .natlog, v => some v

def toValue : (d : Domain) → d.Symbol → Value
  | .binary, b => if b then 1 else 0
  | .ternary, t => Int64.ofNat t.val
  | .natlog, v => v

def read (d : Domain) (n : Name) : Action State d.Symbol := do
  let v ← State.read n
  match d.ofValue? v with
  | some x => return x
  | none => throw (.outOfDomain d n v)

def write (d : Domain) (n : Name) (x : d.Symbol) : Action State Unit :=
  State.write n (d.toValue x)

end Domain

inductive Gate where
  | flip
  | swap
  | xor
  | seq
  | noop
  deriving DecidableEq, Repr

namespace Gate

def name : Gate → String
  | .flip => "flip"
  | .swap => "swap"
  | .xor => "xor"
  | .seq => "seq"
  | .noop => "noop"

def ofDomain : Domain → List Gate
  | .binary => [.flip, .swap, .xor, .seq]
  | .ternary => []
  | .natlog => [.noop]

def find? (d : Domain) (op : String) : Option Gate :=
  (ofDomain d).find? fun g => g.name = op

def applyFlip (s : Step) : Action State Unit := do
  let n ← Action.ofExcept s.requireTarget
  let b ← Domain.binary.read n
  Domain.binary.write n (!b)

def applySwap (s : Step) : Action State Unit := do
  let (m, n) ← Action.ofExcept s.requireTargetPair
  let a ← Domain.binary.read m
  let b ← Domain.binary.read n
  Domain.binary.write m b
  Domain.binary.write n a

/-- Writes the sum of the first two targets. What the result held before is not read, so it need not be a bit. -/
def applyXor (s : Step) : Action State Unit := do
  let r ← Action.ofExcept s.requireResult
  let (m, n) ← Action.ofExcept s.requireTargetPair
  let a ← Domain.binary.read m
  let b ← Domain.binary.read n
  Domain.binary.write r (a ^^ b)

end Gate

end Reversible
