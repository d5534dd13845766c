namespace Reversible

namespace Text

def natural (n : Nat) : List Char :=
  Nat.toDigits 10 n

def integer : Int → List Char
  | .ofNat n => natural n
  | .negSucc n => '-' :: natural (n + 1)

def hexadecimal (n : Nat) : List Char :=
  Nat.toDigits 16 n

end Text

abbrev Name := String

abbrev Value := Int64

inductive Opcode where
  | add
  | sub
  | swap
  | negate
  | noop
  deriving DecidableEq, Repr

namespace Opcode

def all : List Opcode := [.add, .sub, .swap, .negate, .noop]

def name : Opcode → String
  | .add => "Add"
  | .sub => "Sub"
  | .swap => "Swap"
  | .negate => "Negate"
  | .noop => "Noop"

def code : Opcode → Nat
  | .add => 0
  | .sub => 1
  | .swap => 2
  | .negate => 3
  | .noop => 4

def arity : Opcode → Nat
  | .add => 2
  | .sub => 2
  | .swap => 2
  | .negate => 1
  | .noop => 0

/-- How many words the encoded instruction takes. -/
def size (op : Opcode) : Nat :=
  if op.arity = 2 then 2 else 1

def ofName? (name : String) : Option Opcode :=
  all.find? fun op => op.name = name

def ofCode? (code : Nat) : Option Opcode :=
  all.find? fun op => op.code = code

theorem mem_all (op : Opcode) : op ∈ all := by
  cases op <;> decide

theorem ofName?_eq_some_iff {name : String} {op : Opcode} : ofName? name = some op ↔ op.name = name := by
  constructor
  · intro h
    simpa using List.find?_some h
  · rintro rfl
    cases op <;> decide

theorem ofCode?_eq_some_iff {code : Nat} {op : Opcode} : ofCode? code = some op ↔ op.code = code := by
  constructor
  · intro h
    simpa using List.find?_some h
  · rintro rfl
    cases op <;> decide

end Opcode

inductive Domain where
  | binary
  | ternary
  | natlog
  deriving DecidableEq, Repr

namespace Domain

def all : List Domain := [.binary, .ternary, .natlog]

def name : Domain → String
  | .binary => "binary"
  | .ternary => "ternary"
  | .natlog => "natlog"

def ofName? (name : String) : Option Domain :=
  all.find? fun d => d.name = name

theorem ofName?_eq_some_iff {name : String} {d : Domain} : ofName? name = some d ↔ d.name = name := by
  constructor
  · intro h
    simpa using List.find?_some h
  · rintro rfl
    cases d <;> decide

end Domain

end Reversible
