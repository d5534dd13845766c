import Reversible.Basic

namespace Reversible.Assembly

def isLetter (c : Char) : Bool :=
  c.isAlpha || c = '_'

def isWordChar (c : Char) : Bool :=
  c.isAlphanum || c = '_'

def isIdentifier : List Char → Bool
  | [] => false
  | c :: cs => isLetter c && cs.all isWordChar

def escaped (c : Char) : List Char :=
  if c = '\\' then ['\\', '\\']
  else if c = '"' then ['\\', '"']
  else if c = '\n' then ['\\', 'n']
  else if c = '\r' then ['\\', 'r']
  else if c = '\t' then ['\\', 't']
  else [c]

def unescape? : Char → Option Char
  | '\\' => some '\\'
  | '"' => some '"'
  | 'n' => some '\n'
  | 'r' => some '\r'
  | 't' => some '\t'
  | _ => none

def quoted (name : List Char) : List Char :=
  '"' :: name.flatMap escaped ++ ['"']

def unquote? : List Char → Option (List Char × List Char)
  | [] => none
  | '"' :: rest => some ([], rest)
  | '\\' :: [] => none
  | '\\' :: c :: rest => do
    let d ← unescape? c
    let (name, rest) ← unquote? rest
    return (d :: name, rest)
  | c :: rest => do
    let (name, rest) ← unquote? rest
    return (c :: name, rest)

def operand (name : Name) : List Char :=
  if isIdentifier name.toList then name.toList else quoted name.toList

theorem length_lt_of_unquote? {cs name rest : List Char} (h : unquote? cs = some (name, rest)) :
    rest.length < cs.length := by
  fun_induction unquote? cs generalizing name with
  | case1 => simp at h
  | case2 rest' =>
    simp only [Option.some.injEq, Prod.mk.injEq] at h
    simp [h.2]
  | case3 => simp at h
  | case4 c rest' ih =>
    simp only [Option.pure_def, Option.bind_eq_bind, Option.bind_eq_some_iff, Option.some.injEq, Prod.mk.injEq,
      Prod.exists] at h
    obtain ⟨d, -, n, r, hr, -, rfl⟩ := h
    have := ih hr
    simp only [List.length_cons]
    omega
  | case5 c rest' _ _ _ ih =>
    simp only [Option.pure_def, Option.bind_eq_bind, Option.bind_eq_some_iff, Option.some.injEq, Prod.mk.injEq,
      Prod.exists] at h
    obtain ⟨n, r, hr, -, rfl⟩ := h
    have := ih hr
    simp only [List.length_cons]
    omega

end Reversible.Assembly
