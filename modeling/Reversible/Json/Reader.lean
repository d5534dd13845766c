/-!
Readers of JSON text. They go once from left to right, led by the shape that is wanted, and stop at the first problem.
-/

namespace Reversible.Json

inductive Problem where
  /-- No continuation of the text so far is JSON. -/
  | malformed
  /-- The text so far is JSON, but of another shape than the one wanted. -/
  | mismatch
  | truncated
  deriving DecidableEq, Repr

abbrev Reader := StateT (List Char) (Except Problem)

def maxDepth : Nat := 127

def isBlank (c : Char) : Bool :=
  c = ' ' || c = '\t' || c = '\n' || c = '\r'

def skipBlanks (cs : List Char) : List Char :=
  cs.dropWhile isBlank

def ignored {α : Type} (reader : Reader α) : Reader Unit :=
  (fun _ => ()) <$> reader

def exactly : List Char → Reader Unit
  | [] => pure ()
  | c :: cs => fun text =>
    match text with
    | [] => .error .truncated
    | d :: rest => if d = c then exactly cs rest else .error .malformed

/-- Whether another item follows in a list or an object that is closed by `close`. If none does, the bracket
is taken; if one does, the comma before it is, except before the first item, which has none. -/
def another (close : Char) (first : Bool) : Reader Bool := fun text =>
  match skipBlanks text with
  | [] => .error .truncated
  | c :: rest =>
    if c = close then .ok (false, rest)
    else if first then .ok (true, c :: rest)
    else if c = ',' then
      match skipBlanks rest with
      | [] => .error .truncated
      | d :: rest => if d = close then .error .malformed else .ok (true, d :: rest)
    else .error .malformed

def colon : Reader Unit := fun text =>
  match skipBlanks text with
  | [] => .error .truncated
  | c :: rest => if c = ':' then .ok ((), rest) else .error .malformed

def parse {α : Type} (reader : Reader α) (text : String) : Except Problem α := do
  let (value, rest) ← reader text.toList
  match skipBlanks rest with
  | [] => return value
  | _ :: _ => throw .malformed

end Reversible.Json
