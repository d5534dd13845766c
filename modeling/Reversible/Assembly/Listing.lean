import Reversible.Assembly.Token
import Reversible.Instruction

namespace Reversible

namespace Text

/-- The lines of a text. A line feed ends a line, and so does a carriage return right before a line feed together
with it; there is no line after the last line feed. -/
def lines : List Char → List (List Char)
  | [] => []
  | '\r' :: '\n' :: cs => [] :: lines cs
  | '\n' :: cs => [] :: lines cs
  | c :: cs =>
    match lines cs with
    | [] => [[c]]
    | l :: ls => (c :: l) :: ls

/-- White space in the sense of Unicode. -/
def isBlank (c : Char) : Bool :=
  let n := c.toNat
  (0x09 ≤ n && n ≤ 0x0D) || n = 0x20 || n = 0x85 || n = 0xA0 || n = 0x1680 || (0x2000 ≤ n && n ≤ 0x200A) ||
    n = 0x2028 || n = 0x2029 || n = 0x202F || n = 0x205F || n = 0x3000

def trim (cs : List Char) : List Char :=
  ((cs.dropWhile isBlank).reverse.dropWhile isBlank).reverse

end Text

namespace Assembly

inductive Quotation where
  | outside
  | inside
  | escaping

def stripComment : Quotation → List Char → List Char
  | _, [] => []
  | .outside, c :: cs =>
    if c = '#' then []
    else if c = '"' then c :: stripComment .inside cs
    else c :: stripComment .outside cs
  | .inside, c :: cs =>
    if c = '\\' then c :: stripComment .escaping cs
    else if c = '"' then c :: stripComment .outside cs
    else c :: stripComment .inside cs
  | .escaping, c :: cs => c :: stripComment .inside cs

inductive Defect where
  | unreadable (code : String)
  | unknownOperation (name : Name)
  | operandCount (op : Opcode) (given : Nat)
  deriving DecidableEq, Repr

def Defect.message : Defect → String
  | unreadable code => "cannot parse `" ++ code ++ "`"
  | unknownOperation name => name ++ " is not an operation"
  | operandCount op given =>
    op.name ++ " requires " ++ String.ofList (Text.natural op.arity) ++ " arguments but was given " ++
      String.ofList (Text.natural given)

def parseLine (line : List Char) : Except Defect (Option Instruction) :=
  let code := stripComment .outside line
  if code.all Text.isBlank then .ok none
  else
    match (tokens code).bind statement? with
    | none => .error (.unreadable (String.ofList (Text.trim code)))
    | some (name, operands) =>
      match Opcode.ofName? name with
      | none => .error (.unknownOperation name)
      | some op =>
        match Instruction.ofParts? op operands with
        | none => .error (.operandCount op operands.length)
        | some i => .ok (some i)

def instruction (i : Instruction) : List Char :=
  match i.operands with
  | [] => i.opcode.name.toList
  | names => i.opcode.name.toList ++ '(' :: [',', ' '].intercalate (names.map operand) ++ [')']

structure Error where
  line : Nat
  defect : Defect
  deriving DecidableEq, Repr

def Error.message (e : Error) : String :=
  "error on line " ++ String.ofList (Text.natural e.line) ++ ": " ++ e.defect.message

def parseLines (number : Nat) : List (List Char) → Except Error Program
  | [] => .ok []
  | line :: rest =>
    match parseLine line with
    | .error defect => .error ⟨number, defect⟩
    | .ok found => do
      let program ← parseLines (number + 1) rest
      return found.toList ++ program

def parse (text : String) : Except Error Program :=
  parseLines 1 (Text.lines text.toList)

def print (p : Program) : String :=
  String.ofList (p.flatMap fun i => instruction i ++ ['\n'])

end Assembly

end Reversible
