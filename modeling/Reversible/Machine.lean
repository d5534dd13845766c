import Reversible.Instruction

namespace Reversible

/-- A state together with the instructions that led to it, the latest first. -/
structure Machine where
  state : State
  past : List Instruction := []
  deriving DecidableEq

namespace Machine

def history (m : Machine) : Program :=
  m.past.reverse

def depth (m : Machine) : Nat :=
  m.past.length

def run (i : Instruction) : Action Machine Unit := fun m =>
  match i.execute m.state with
  | .ok () s => .ok () ⟨s, i :: m.past⟩
  | .error fault s => .error fault ⟨s, m.past⟩

def undo : Action Machine (Option Instruction) := fun m =>
  match m.past with
  | [] => .ok none m
  | i :: past =>
    match i.invert m.state with
    | .ok () s => .ok (some i) ⟨s, past⟩
    | .error fault s => .error fault ⟨s, i :: past⟩

def undoUpTo : Nat → Action Machine Nat
  | 0 => pure 0
  | n + 1 => do
    match ← undo with
    | none => pure 0
    | some _ => return (← undoUpTo n) + 1

def rewind : Action Machine Nat := fun m =>
  undoUpTo m.depth m

def runFrom (applied : Nat) : Program → Action Machine Unit
  | [] => pure ()
  | i :: p => fun m =>
    match run i m with
    | .ok () m => runFrom (applied + 1) p m
    | .error fault m =>
      match undoUpTo applied m with
      | .ok _ m => .error fault m
      | .error fault m => .error fault m

def runAll (p : Program) : Action Machine Unit :=
  runFrom 0 p

end Machine

end Reversible
