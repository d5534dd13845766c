import Reversible.Gate

namespace Reversible

structure Evaluator where
  defaultDomain : Domain
  /-- Whether sequences are followed. -/
  linked : Bool := true
  deriving DecidableEq, Repr

namespace Evaluator

def ofName (name : String) : Except Fault Evaluator := do
  let d ← Domain.parse name
  return { defaultDomain := d }

def domainOf (e : Evaluator) (s : Step) : Except Fault Domain :=
  match s.domain with
  | none => .ok e.defaultDomain
  | some name => Domain.parse name

def lookup (e : Evaluator) (s : Step) : Except Fault (Domain × Gate) := do
  let d ← e.domainOf s
  match Gate.find? d s.op with
  | some g => return (d, g)
  | none => throw (.unknownOperation d s.op)

def dispatch (e : Evaluator) (s : Step) (inner : Action State Unit) : Action State Unit := do
  let (_, g) ← Action.ofExcept (e.lookup s)
  match g with
  | .flip => Gate.applyFlip s
  | .swap => Gate.applySwap s
  | .xor => Gate.applyXor s
  | .noop => pure ()
  | .seq =>
    if s.substeps = [] then pure ()
    else if e.linked then Action.atomically inner
    else throw .unlinkedSequence

mutual

def evaluate (e : Evaluator) : Step → Action State Unit
  | ⟨d, op, t, ts, r, none⟩ => e.dispatch ⟨d, op, t, ts, r, none⟩ (pure ())
  | ⟨d, op, t, ts, r, some ss⟩ => e.dispatch ⟨d, op, t, ts, r, some ss⟩ (evaluateAll e ss)
termination_by structural s => s

def evaluateAll (e : Evaluator) : List Step → Action State Unit
  | [] => pure ()
  | s :: ss => do
    evaluate e s
    evaluateAll e ss
termination_by structural ss => ss

end

end Evaluator

structure Puzzle where
  domain : String
  initial : State
  goal : State
  steps : List Step := []
  deriving DecidableEq

namespace Puzzle

def evaluator (p : Puzzle) : Except Fault Evaluator :=
  Evaluator.ofName p.domain

def play (p : Puzzle) : Except Fault State := do
  let e ← p.evaluator
  (e.evaluateAll p.steps).result p.initial

/-- A goal may leave out variables that are to end at 0. -/
def isSolved (p : Puzzle) (s : State) : Bool :=
  s.agrees p.goal

def check (p : Puzzle) : Except Fault Bool := do
  let s ← p.play
  return p.isSolved s

def agrees (p q : Puzzle) : Bool :=
  p.domain = q.domain && p.initial.agrees q.initial && p.goal.agrees q.goal && p.steps = q.steps

end Puzzle

end Reversible
