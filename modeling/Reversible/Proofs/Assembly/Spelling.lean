import Reversible.Proofs.Assembly.Token

namespace Reversible.Assembly

open Grammar

def Lexeme : Token → List Char → Prop
  | .word n, cs => Identifier cs n
  | .quoted n, cs => ∃ ds name, cs = '"' :: (ds ++ ['"']) ∧ n = String.ofList name ∧ Content ds name
  | .leftParen, cs => cs = ['(']
  | .rightParen, cs => cs = [')']
  | .comma, cs => cs = [',']

def Spelled : List Token → List Char → Prop
  | [], cs => Spaces cs
  | t :: ts, cs => ∃ sp ds rest, cs = sp ++ (ds ++ rest) ∧ Spaces sp ∧ Lexeme t ds ∧ Spelled ts rest

theorem Spelled.space {ts : List Token} {cs : List Char} {c : Char} (hc : c = ' ' ∨ c = '\t') (h : Spelled ts cs) :
    Spelled ts (c :: cs) := by
  cases ts with
  | nil => exact List.forall_mem_cons.mpr ⟨hc, h⟩
  | cons t ts =>
    obtain ⟨sp, ds, rest, rfl, hsp, ht, hts⟩ := h
    exact ⟨c :: sp, ds, rest, rfl, List.forall_mem_cons.mpr ⟨hc, hsp⟩, ht, hts⟩

theorem Spelled.cons {t : Token} {ts : List Token} {ds rest : List Char} (ht : Lexeme t ds) (h : Spelled ts rest) :
    Spelled (t :: ts) (ds ++ rest) :=
  ⟨[], ds, rest, rfl, spaces_nil, ht, h⟩

theorem lexeme_word_takeWhile {c : Char} (hc : isLetter c = true) (rest : List Char) :
    Lexeme (.word (String.ofList (c :: rest.takeWhile isWordChar))) (c :: rest.takeWhile isWordChar) := by
  apply Identifier.mk (letter_iff.mpr hc)
  intro d hd
  have hall := List.all_takeWhile (p := isWordChar) (l := rest)
  exact letter_or_digit_iff.mpr (List.all_eq_true.mp hall d hd)

theorem spelled_of_tokens {cs : List Char} {ts : List Token} (h : tokens cs = some ts) : Spelled ts cs := by
  fun_induction tokens cs generalizing ts with
  | case1 =>
    cases h
    exact spaces_nil
  | case2 c rest hc ih => exact (ih h).space hc
  | case3 rest _ ih =>
    obtain ⟨us, hus, rfl⟩ := Option.map_eq_some_iff.mp h
    have hparen : Lexeme .leftParen ['('] := rfl
    exact .cons hparen (ih hus)
  | case4 rest _ _ ih =>
    obtain ⟨us, hus, rfl⟩ := Option.map_eq_some_iff.mp h
    have hparen : Lexeme .rightParen [')'] := rfl
    exact .cons hparen (ih hus)
  | case5 rest _ _ _ ih =>
    obtain ⟨us, hus, rfl⟩ := Option.map_eq_some_iff.mp h
    have hcomma : Lexeme .comma [','] := rfl
    exact .cons hcomma (ih hus)
  | case6 => contradiction
  | case7 rest name rest' hname _ _ _ _ _ ih =>
    obtain ⟨us, hus, rfl⟩ := Option.map_eq_some_iff.mp h
    obtain ⟨body, rfl, hbody⟩ := content_of_unquote? hname
    have hquoted : Lexeme (.quoted (String.ofList name)) ('"' :: (body ++ ['"'])) := ⟨body, name, rfl, rfl, hbody⟩
    have hspelled := Spelled.cons hquoted (ih hus)
    rwa [List.cons_append, List.append_assoc, List.singleton_append] at hspelled
  | case8 c rest _ _ _ _ _ hc ih =>
    obtain ⟨us, hus, rfl⟩ := Option.map_eq_some_iff.mp h
    have hspelled := Spelled.cons (lexeme_word_takeWhile hc rest) (ih hus)
    rwa [List.cons_append, List.takeWhile_append_dropWhile] at hspelled
  | case9 => contradiction

theorem Lexeme.operand {t : Token} {n : Name} {cs : List Char} (h : Lexeme t cs) (hname : t.name? = some n) :
    Operand cs n := by
  cases t with
  | word m =>
    cases hname
    exact .bare h
  | quoted m =>
    cases hname
    obtain ⟨ds, name, rfl, rfl, hcontent⟩ := h
    exact .quoted hcontent
  | leftParen => contradiction
  | rightParen => contradiction
  | comma => contradiction

theorem operands_of_spelled {ts : List Token} {cs : List Char} {names : List Name}
    (hnames : operandTokens? ts = some names) (h : Spelled ts cs) :
    ∃ before ds after rest, cs = before ++ (ds ++ (after ++ ')' :: rest)) ∧
      Spaces before ∧ Operands ds names ∧ Spaces after ∧ Spaces rest := by
  fun_induction operandTokens? ts generalizing cs names with
  | case1 t =>
    obtain ⟨n, hn, hsingle⟩ := Option.bind_eq_some_iff.mp hnames
    cases hsingle
    obtain ⟨before, ds, _, rfl, hbefore, ht, after, _, rest, rfl, hafter, rfl, hrest⟩ := h
    exact ⟨before, ds, after, rest, rfl, hbefore, .single (ht.operand hn), hafter, hrest⟩
  | case2 t ts ih =>
    obtain ⟨n, hn, htail⟩ := Option.bind_eq_some_iff.mp hnames
    obtain ⟨ms, hms, hcons⟩ := Option.bind_eq_some_iff.mp htail
    cases hcons
    obtain ⟨before, ds, _, rfl, hbefore, ht, between, _, _, rfl, hbetween, rfl, h⟩ := h
    obtain ⟨gap, es, after, rest, rfl, hgap, hes, hafter, hrest⟩ := ih hms h
    refine ⟨before, ds ++ (between ++ ',' :: (gap ++ es)), after, rest, by simp, hbefore, ?_, hafter, hrest⟩
    exact .cons (ht.operand hn) hbetween hgap hes
  | case3 => contradiction

theorem code_of_spelled {ts : List Token} {cs : List Char} {op : Name} {names : List Name}
    (hstatement : statement? ts = some (op, names)) (h : Spelled ts cs) : Code cs op names := by
  unfold statement? at hstatement
  split at hstatement
  · cases hstatement
    obtain ⟨before, ds, after, rfl, hbefore, hop, hafter⟩ := h
    exact .bare hbefore hop hafter
  · cases hstatement
    obtain ⟨before, ds, _, rfl, hbefore, hop, between, _, _, rfl, hbetween, rfl, gap, _, after, rfl, hgap, rfl,
      hafter⟩ := h
    have harguments := Arguments.empty hgap spaces_nil
    have hcode := Code.applied hbefore hop hbetween harguments hafter
    simpa using hcode
  · obtain ⟨ms, hms, hpair⟩ := Option.bind_eq_some_iff.mp hstatement
    cases hpair
    obtain ⟨before, ds, _, rfl, hbefore, hop, between, _, _, rfl, hbetween, rfl, h⟩ := h
    obtain ⟨gap, es, gap', after, rfl, hgap, hes, hgap', hafter⟩ := operands_of_spelled hms h
    have harguments := Arguments.operands hgap hes hgap'
    have hcode := Code.applied hbefore hop hbetween harguments hafter
    simpa using hcode
  · contradiction

theorem code_iff {cs : List Char} {op : Name} {names : List Name} :
    Code cs op names ↔ (tokens cs).bind statement? = some (op, names) := by
  constructor
  · intro h
    obtain ⟨ts, hstatement, hts⟩ := h.lexes
    rw [hts.tokens_eq, Option.bind_some, hstatement]
  · intro h
    obtain ⟨ts, hts, hstatement⟩ := Option.bind_eq_some_iff.mp h
    exact code_of_spelled hstatement (spelled_of_tokens hts)

end Reversible.Assembly
