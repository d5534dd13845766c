import Reversible.Json.Number
import Reversible.Json.Quoted

namespace Reversible.Json

variable {α : Type}

def startsNumber (c : Char) : Bool :=
  c = '-' || c.isDigit

def scalar (str num : Reader Unit) : Reader Unit := fun text =>
  match text with
  | [] => .error .truncated
  | c :: rest =>
    if c = 'n' then exactly ['u', 'l', 'l'] rest
    else if c = 't' then exactly ['r', 'u', 'e'] rest
    else if c = 'f' then exactly ['a', 'l', 's', 'e'] rest
    else if c = '"' then str rest
    else if startsNumber c then num text
    else .error .malformed

/-- The problem with a value of another kind than the one wanted. A literal, number or string is read to its end,
so a defect in it counts first; a list or an object is refused at its bracket. -/
def unwanted (text : List Char) : Problem :=
  match text with
  | '[' :: _ => .mismatch
  | '{' :: _ => .mismatch
  | text =>
    match scalar (ignored stringBody) (ignored number) text with
    | .ok _ => .mismatch
    | .error p => p

def string : Reader String := fun text =>
  match skipBlanks text with
  | '"' :: rest => stringBody rest
  | text => .error (unwanted text)

def int64 : Reader Int64 := fun text =>
  match skipBlanks text with
  | [] => .error .truncated
  | c :: rest =>
    if startsNumber c then
      match number (c :: rest) with
      | .ok (n, rest) =>
        match n.int64? with
        | some v => .ok (v, rest)
        | none => .error .mismatch
      | .error p => .error p
    else .error (unwanted (c :: rest))

def optional (reader : Reader α) : Reader (Option α) := fun text =>
  match skipBlanks text with
  | 'n' :: rest => ((fun _ => none) <$> exactly ['u', 'l', 'l'] : Reader (Option α)) rest
  | text => (some <$> reader : Reader (Option α)) text

inductive Bracket where
  | list
  | object
  deriving DecidableEq

def Bracket.close : Bracket → Char
  | .list => ']'
  | .object => '}'

def skipKey : Bracket → Reader Unit
  | .list => pure ()
  | .object => do
    (fun text =>
      match skipBlanks text with
      | [] => .error .truncated
      | c :: rest => if c = '"' then skipString rest else .error .malformed : Reader Unit)
    colon

inductive Place where
  | before
  | after
  | opened

def skipFrom : (fuel : Nat) → Place → List Bracket → Reader Unit
  | 0, _, _ => throw .truncated
  | fuel + 1, .before, brackets => fun text =>
    match skipBlanks text with
    | '[' :: rest => skipFrom fuel .opened (.list :: brackets) rest
    | '{' :: rest => skipFrom fuel .opened (.object :: brackets) rest
    | text => (do
        scalar skipString skipNumber
        skipFrom fuel .after brackets : Reader Unit) text
  | _ + 1, .after, [] => pure ()
  | _ + 1, .opened, [] => pure ()
  | fuel + 1, .after, b :: brackets => fun text =>
    match skipBlanks text with
    | [] => .error .truncated
    | c :: rest =>
      if c = b.close then skipFrom fuel .after brackets rest
      else if c = ',' then (do
          skipKey b
          skipFrom fuel .before (b :: brackets) : Reader Unit) rest
      else .error .malformed
  | fuel + 1, .opened, b :: brackets => fun text =>
    match skipBlanks text with
    | [] => .error .truncated
    | c :: rest =>
      if c = b.close then skipFrom fuel .after brackets rest
      else (do
          skipKey b
          skipFrom fuel .before (b :: brackets) : Reader Unit) (c :: rest)

/-- Takes a value that nobody asked for. It may nest without limit, its numbers may have any size, and surrogates in its
strings need not pair up. -/
def skip : Reader Unit := fun text =>
  skipFrom (2 * text.length + 2) .before [] text

end Reversible.Json
