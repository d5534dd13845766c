import Reversible.Json.Value

namespace Reversible.Json

variable {α β : Type}

def items (item : Reader α) : (fuel : Nat) → (first : Bool) → Reader (List α)
  | 0, _ => throw .truncated
  | fuel + 1, first => do
    if ← another ']' first then
      let a ← item
      let as ← items item fuel false
      return a :: as
    else return []

def list (room : Nat) (item : Reader α) : Reader (List α) := fun text =>
  match skipBlanks text with
  | '[' :: rest => if room = 0 then .error .malformed else items item (rest.length + 1) true rest
  | text => .error (unwanted text)

/-- The members of an object whose brace has been taken, in at most `fuel` turns. A key is answered, before its
colon, by the reader for its value. -/
def members (member : β → String → Except Problem (Reader β)) : (fuel : Nat) → (first : Bool) → β → Reader β
  | 0, _, _ => throw .truncated
  | fuel + 1, first, b => do
    if ← another '}' first then
      let key ← (fun text =>
        match text with
        | '"' :: rest => stringBody rest
        | _ => .error .malformed : Reader String)
      let value ← liftM (member b key)
      colon
      let b ← value
      members member fuel false b
    else return b

structure Field (β : Type) where
  key : String
  isSet : β → Bool
  set : β → Reader β

def member (fields : List (Field β)) (b : β) (key : String) : Except Problem (Reader β) :=
  match fields.find? fun f => f.key = key with
  | none => .ok do
    skip
    return b
  | some f => if f.isSet b then .error .mismatch else .ok (f.set b)

def positional : List (Field β) → (first : Bool) → β → Reader β
  | [], _, b => fun text =>
    match skipBlanks text with
    | [] => .error .truncated
    | c :: rest => if c = ']' then .ok (b, rest) else .error .malformed
  | f :: fields, first, b => do
    if ← another ']' first then
      let b ← f.set b
      positional fields false b
    else return b

def record (room : Nat) (fields : List (Field β)) (start : β) (finish : β → Except Problem α) : Reader α := fun text =>
  match skipBlanks text with
  | '{' :: rest =>
    if room = 0 then .error .malformed
    else
      (do
        let b ← members (member fields) (rest.length + 1) true start
        liftM (finish b) : Reader α) rest
  | '[' :: rest =>
    if room = 0 then .error .malformed
    else
      (do
        let b ← positional fields true start
        liftM (finish b) : Reader α) rest
  | text => .error (unwanted text)

def object (room : Nat) (member : β → String → Reader β) (start : β) : Reader β := fun text =>
  match skipBlanks text with
  | '{' :: rest =>
    if room = 0 then .error .malformed
    else members (fun b key => .ok (member b key)) (rest.length + 1) true start rest
  | text => .error (unwanted text)

def joined (values : List (List Char)) : List Char :=
  [','].intercalate values

def writtenList (values : List (List Char)) : List Char :=
  '[' :: joined values ++ [']']

def writtenObject (members : List (String × List Char)) : List Char :=
  '{' :: joined (members.map fun m => quoted m.1 ++ ':' :: m.2) ++ ['}']

end Reversible.Json
