import Reversible.Basic

namespace Reversible

inductive Fault where
  | unknownVariable (name : Name)
  /-- An addition or subtraction of a variable to itself has no inverse. -/
  | aliasedOperands (op : Opcode) (name : Name)
  | missingOperand (operand : String) (op : String)
  | unknownDomain (name : String)
  | unknownOperation (domain : Domain) (op : String)
  | unlinkedSequence
  | outOfDomain (domain : Domain) (name : Name) (value : Value)
  deriving DecidableEq, Repr

namespace Fault

def message : Fault → String
  | unknownVariable name => "unknown variable: " ++ name
  | aliasedOperands op name => op.name ++ " operands must be distinct, both are " ++ name
  | missingOperand operand op => "missing " ++ operand ++ " for " ++ op
  | unknownDomain name => "unknown logic domain: '" ++ name ++ "'"
  | unknownOperation domain op => "unsupported operation '" ++ op ++ "' in domain '" ++ domain.name ++ "'"
  | unlinkedSequence => "not implemented: seq not yet linked to evaluator"
  | outOfDomain domain name value =>
    name ++ " = " ++ String.ofList (Text.integer value.toInt) ++ " is not a valid " ++ domain.name ++ " symbol"

end Fault

def Domain.parse (name : String) : Except Fault Domain :=
  match Domain.ofName? name with
  | some d => .ok d
  | none => .error (.unknownDomain name)

/-- A computation on a `σ` in place. One that stops with a fault still shows the `σ` it left behind. -/
abbrev Action (σ : Type) := EStateM Fault σ

namespace Action

variable {σ α : Type}

instance decEqResult [DecidableEq σ] [DecidableEq α] : DecidableEq (EStateM.Result Fault σ α)
  | .ok a s, .ok b t => if h : a = b ∧ s = t then isTrue (by simp [h]) else isFalse (by simpa using h)
  | .error f s, .error g t => if h : f = g ∧ s = t then isTrue (by simp [h]) else isFalse (by simpa using h)
  | .ok _ _, .error _ _ => isFalse (by simp)
  | .error _ _, .ok _ _ => isFalse (by simp)

def ofExcept : Except Fault α → Action σ α
  | .ok a => pure a
  | .error fault => throw fault

def atomically (act : Action σ α) : Action σ α := fun s =>
  match act s with
  | .ok a t => .ok a t
  | .error fault _ => .error fault s

def result (act : Action σ α) (s : σ) : Except Fault σ :=
  match act s with
  | .ok _ t => .ok t
  | .error fault _ => .error fault

end Action

end Reversible
