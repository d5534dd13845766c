import Reversible.Encoding.SymbolTable

/-!
Instructions as words, fields from the low bits up: the operation in 8 bits and then 24 bits for each register.
Two operands take a double word, of which the highest 8 bits are zero; with one operand or none the instruction
is a single word, in which all bits above the last field are zero.
-/

namespace Reversible.Encoding

inductive Encoded where
  | word (w : UInt32)
  | doubleWord (w : UInt64)
  deriving DecidableEq, Repr

/-- The low word comes first. -/
def Encoded.words : Encoded → List UInt32
  | word w => [w]
  | doubleWord w => [UInt32.ofNat (w.toNat % 0x100000000), UInt32.ofNat (w.toNat / 0x100000000)]

def isDoubleWord (low : UInt32) : Bool :=
  low.toNat % 0x100 < 3

inductive DecodeError where
  | unknownOpcode (code : Nat)
  | reservedBits (op : Opcode) (value : UInt64)
  | unassignedRegister (register : Nat)
  | truncated (index : Nat)
  deriving DecidableEq, Repr

namespace DecodeError

def reason : DecodeError → String
  | unknownOpcode code =>
    "No discriminant in enum `Opcode` matches the value `" ++ String.ofList (Text.natural code) ++ "`"
  | reservedBits op value =>
    "reserved bits set in " ++ op.name ++ " instruction 0x" ++ String.ofList (Text.hexadecimal value.toNat)
  | unassignedRegister register => "register " ++ String.ofList (Text.natural register) ++ " has no variable"
  | truncated index => "truncated instruction at word " ++ String.ofList (Text.natural index)

def message (e : DecodeError) : String :=
  "cannot decode program: " ++ e.reason

end DecodeError

def encode (i : Instruction) : SymbolTable.Interning Encoded :=
  match i.operands with
  | [a, b] => do
    let first ← SymbolTable.intern a
    let second ← SymbolTable.intern b
    return .doubleWord (UInt64.ofNat (i.opcode.code + first * 0x100 + second * 0x100000000))
  | [a] => do
    let register ← SymbolTable.intern a
    return .word (UInt32.ofNat (i.opcode.code + register * 0x100))
  | _ => return .word (UInt32.ofNat i.opcode.code)

def encodeAll : Program → SymbolTable.Interning (List UInt32)
  | [] => pure []
  | i :: p => do
    let encoded ← encode i
    let words ← encodeAll p
    return encoded.words ++ words

def encodeProgram (p : Program) : Except SymbolTable.Error (List UInt32 × SymbolTable) := do
  let table ← SymbolTable.ofProgram p
  match encodeAll p table with
  | .ok words table => return (words, table)
  | .error e _ => throw e

def reservedBits (op : Opcode) (value : UInt64) : Nat :=
  match op.arity with
  | 2 => value.toNat / 0x100000000000000
  | 1 => value.toNat / 0x100000000
  | _ => value.toNat / 0x100

/-- The variable whose register is in the 24 bits from the one worth `unit` on. -/
def variableAt (table : SymbolTable) (value : UInt64) (unit : Nat) : Except DecodeError Name :=
  let register := value.toNat / unit % SymbolTable.capacity
  match table.nameAt? register with
  | some n => .ok n
  | none => .error (.unassignedRegister register)

def decode (table : SymbolTable) (value : UInt64) : Except DecodeError Instruction :=
  match Opcode.ofCode? (value.toNat % 0x100) with
  | none => .error (.unknownOpcode (value.toNat % 0x100))
  | some op => do
    if reservedBits op value ≠ 0 then throw (.reservedBits op value)
    match op with
    | .add => return .add (← variableAt table value 0x100) (← variableAt table value 0x100000000)
    | .sub => return .sub (← variableAt table value 0x100) (← variableAt table value 0x100000000)
    | .swap => return .swap (← variableAt table value 0x100) (← variableAt table value 0x100000000)
    | .negate => return .negate (← variableAt table value 0x100)
    | .noop => return .noop

def doubleWord (low high : UInt32) : UInt64 :=
  UInt64.ofNat (low.toNat + high.toNat * 0x100000000)

def decodeFrom (table : SymbolTable) (index : Nat) : List UInt32 → Except DecodeError Program
  | [] => .ok []
  | low :: rest =>
    if isDoubleWord low then
      match rest with
      | [] => .error (.truncated index)
      | high :: rest => do
        let i ← decode table (doubleWord low high)
        let p ← decodeFrom table (index + 2) rest
        return i :: p
    else do
      let i ← decode table (doubleWord low 0)
      let p ← decodeFrom table (index + 1) rest
      return i :: p

def decodeProgram (words : List UInt32) (table : SymbolTable) : Except DecodeError Program :=
  decodeFrom table 0 words

end Reversible.Encoding
