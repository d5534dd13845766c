import Reversible.Assembly.Operand

namespace Reversible.Assembly

inductive Token where
  | word (name : Name)
  | quoted (name : Name)
  | leftParen
  | rightParen
  | comma
  deriving DecidableEq

def Token.name? : Token → Option Name
  | .word name => some name
  | .quoted name => some name
  | _ => none

def tokens (cs : List Char) : Option (List Token) :=
  match cs with
  | [] => some []
  | c :: rest =>
    if c = ' ' ∨ c = '\t' then tokens rest
    else if c = '(' then (tokens rest).map (.leftParen :: ·)
    else if c = ')' then (tokens rest).map (.rightParen :: ·)
    else if c = ',' then (tokens rest).map (.comma :: ·)
    else if c = '"' then
      match h : unquote? rest with
      | none => none
      | some (name, rest') =>
        have := length_lt_of_unquote? h
        (tokens rest').map (.quoted (String.ofList name) :: ·)
    else if isLetter c then
      (tokens (rest.dropWhile isWordChar)).map (.word (String.ofList (c :: rest.takeWhile isWordChar)) :: ·)
    else none
termination_by cs.length
decreasing_by
  · simp
  · simp
  · simp
  · simp
  · simp only [List.length_cons]
    omega
  · have := (List.dropWhile_suffix (l := rest) isWordChar).length_le
    simp only [List.length_cons]
    omega

def operandTokens? : List Token → Option (List Name)
  | [t, .rightParen] => do
    let name ← t.name?
    return [name]
  | t :: .comma :: ts => do
    let name ← t.name?
    let names ← operandTokens? ts
    return name :: names
  | _ => none

def statement? : List Token → Option (Name × List Name)
  | [.word op] => some (op, [])
  | [.word op, .leftParen, .rightParen] => some (op, [])
  | .word op :: .leftParen :: ts => do
    let names ← operandTokens? ts
    return (op, names)
  | _ => none

end Reversible.Assembly
