import Reversible.Instruction

namespace Reversible

structure SymbolTable where
  names : List Name := []
  deriving DecidableEq, Repr

namespace SymbolTable

/-- Registers have 24 bits. -/
def capacity : Nat := 0x1000000

inductive Error where
  | tooManyVariables
  deriving DecidableEq, Repr

def Error.message : Error → String
  | tooManyVariables =>
    "cannot encode program: more than " ++ String.ofList (Text.natural capacity) ++ " variables in one program"

abbrev Interning := EStateM Error SymbolTable

def empty : SymbolTable := {}

def size (t : SymbolTable) : Nat :=
  t.names.length

def isEmpty (t : SymbolTable) : Bool :=
  t.names.isEmpty

def register? (t : SymbolTable) (n : Name) : Option Nat :=
  t.names.idxOf? n

def nameAt? (t : SymbolTable) (register : Nat) : Option Name :=
  t.names[register]?

def intern (n : Name) : Interning Nat := fun t =>
  match t.register? n with
  | some r => .ok r t
  | none =>
    if t.size < capacity then .ok t.size ⟨t.names ++ [n]⟩
    else .error .tooManyVariables t

def internAll : List Name → Interning Unit
  | [] => pure ()
  | n :: ns => do
    let _ ← intern n
    internAll ns

def ofNames (ns : List Name) : Except Error SymbolTable :=
  match internAll ns empty with
  | .ok () t => .ok t
  | .error e _ => .error e

def ofProgram (p : Program) : Except Error SymbolTable :=
  ofNames p.operands

end SymbolTable

end Reversible
