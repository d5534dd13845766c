import Reversible.Json.Reader

namespace Reversible.Json

def hexDigit? (c : Char) : Option Nat :=
  if '0' ≤ c ∧ c ≤ '9' then some (c.toNat - '0'.toNat)
  else if 'a' ≤ c ∧ c ≤ 'f' then some (c.toNat - 'a'.toNat + 10)
  else if 'A' ≤ c ∧ c ≤ 'F' then some (c.toNat - 'A'.toNat + 10)
  else none

def utf8Size (cs : List Char) : Nat :=
  cs.foldl (fun n c => n + c.utf8Size) 0

/-- Four hexadecimal digits. The text stops too early if it has fewer than four bytes left. -/
def codeUnit : Reader Nat := fun text =>
  match text with
  | a :: b :: c :: d :: rest =>
    match hexDigit? a, hexDigit? b, hexDigit? c, hexDigit? d with
    | some a, some b, some c, some d => .ok (((a * 16 + b) * 16 + c) * 16 + d, rest)
    | _, _, _, _ => .error .malformed
  | rest => .error (if utf8Size rest < 4 then .truncated else .malformed)

def isLeading (unit : Nat) : Bool :=
  0xD800 ≤ unit && unit ≤ 0xDBFF

def isTrailing (unit : Nat) : Bool :=
  0xDC00 ≤ unit && unit ≤ 0xDFFF

def codePoint : Reader Char := do
  let unit ← codeUnit
  if isTrailing unit then throw .malformed
  else if isLeading unit then
    exactly ['\\', 'u']
    let trailing ← codeUnit
    if isTrailing trailing then
      return Char.ofNat (0x10000 + (unit - 0xD800) * 0x400 + (trailing - 0xDC00))
    else throw .malformed
  else return Char.ofNat unit

def shortEscape? : Char → Option Char
  | '"' => some '"'
  | '\\' => some '\\'
  | '/' => some '/'
  | 'b' => some '\x08'
  | 'f' => some '\x0c'
  | 'n' => some '\n'
  | 'r' => some '\r'
  | 't' => some '\t'
  | _ => none

def escape {α : Type} (short : Char → α) (code : Reader α) : Reader α := fun text =>
  match text with
  | [] => .error .truncated
  | c :: rest =>
    if c = 'u' then code rest
    else
      match shortEscape? c with
      | some d => .ok (short d, rest)
      | none => .error .malformed

def stringItems {α : Type} (plain : Char → α) (code : Reader α) : (fuel : Nat) → Reader (List α)
  | 0 => throw .truncated
  | fuel + 1 => fun text =>
    match text with
    | [] => .error .truncated
    | c :: rest =>
      if c = '"' then .ok ([], rest)
      else if c = '\\' then
        (do
          let a ← escape plain code
          let as ← stringItems plain code fuel
          return a :: as : Reader (List α)) rest
      else if c.toNat < 0x20 then .error .malformed
      else
        (do
          let as ← stringItems plain code fuel
          return plain c :: as : Reader (List α)) rest

def stringBody : Reader String := fun text =>
  (String.ofList <$> stringItems id codePoint (text.length + 1) : Reader String) text

/-- Takes a string whose opening quote has been taken, and allows surrogates that stand alone. -/
def skipString : Reader Unit := fun text =>
  ignored (stringItems (fun _ => ()) (ignored codeUnit) (text.length + 1)) text

def hexDigit (n : Nat) : Char :=
  Nat.digitChar n

def escaped (c : Char) : List Char :=
  if c = '"' then ['\\', '"']
  else if c = '\\' then ['\\', '\\']
  else if c = '\x08' then ['\\', 'b']
  else if c = '\t' then ['\\', 't']
  else if c = '\n' then ['\\', 'n']
  else if c = '\x0c' then ['\\', 'f']
  else if c = '\r' then ['\\', 'r']
  else if c.toNat < 0x20 then ['\\', 'u', '0', '0', hexDigit (c.toNat / 16), hexDigit (c.toNat % 16)]
  else [c]

def quoted (s : String) : List Char :=
  '"' :: s.toList.flatMap escaped ++ ['"']

end Reversible.Json
