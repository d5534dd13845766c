import Reversible.Proofs.Assembly.Grammar

namespace Reversible.Assembly

open Grammar

theorem tokens_nil : tokens [] = some [] := by
  rw [tokens]

theorem tokens_leftParen (cs : List Char) : tokens ('(' :: cs) = (tokens cs).map (.leftParen :: ·) := by
  rw [tokens]
  simp

theorem tokens_rightParen (cs : List Char) : tokens (')' :: cs) = (tokens cs).map (.rightParen :: ·) := by
  rw [tokens]
  simp

theorem tokens_comma (cs : List Char) : tokens (',' :: cs) = (tokens cs).map (.comma :: ·) := by
  rw [tokens]
  simp

theorem tokens_quoted {cs name rest : List Char} (h : unquote? cs = some (name, rest)) :
    tokens ('"' :: cs) = (tokens rest).map (.quoted (String.ofList name) :: ·) := by
  rw [tokens]
  simp only [Char.reduceEq, or_self, if_false, if_true]
  split
  · next hnone =>
    rw [h] at hnone
    contradiction
  · next hsome =>
    rw [h, Option.some.injEq, Prod.mk.injEq] at hsome
    rw [hsome.1, hsome.2]

def Separate (cs : List Char) : Prop :=
  ∀ c ∈ cs.head?, isWordChar c = false

theorem separate_nil : Separate [] := by
  intro c hc
  exact absurd hc (Option.not_mem_none c)

theorem separate_cons {c : Char} (hc : isWordChar c = false) (cs : List Char) : Separate (c :: cs) := by
  intro d hd
  obtain rfl := Option.mem_some.mp hd
  exact hc

theorem Separate.append {cs ds : List Char} (hcs : Separate cs) (hds : Separate ds) : Separate (cs ++ ds) := by
  cases cs with
  | nil => exact hds
  | cons c cs => exact hcs

theorem Grammar.Spaces.separate {cs : List Char} (h : Spaces cs) : Separate cs := by
  intro c hc
  obtain rfl | rfl := h c (List.mem_of_mem_head? hc) <;> decide

theorem Grammar.Arguments.separate {cs : List Char} {names : List Name} (h : Arguments cs names) : Separate cs := by
  cases h <;> exact separate_cons (by decide) _

theorem span_word_append {word rest : List Char} (hword : ∀ d ∈ word, isWordChar d = true) (hrest : Separate rest) :
    (word ++ rest).takeWhile isWordChar = word ∧ (word ++ rest).dropWhile isWordChar = rest := by
  rw [List.takeWhile_append_of_pos hword, List.dropWhile_append_of_pos hword]
  cases rest with
  | nil => simp
  | cons d rest => simp [hrest d rfl]

theorem tokens_word {c : Char} {word rest : List Char} (hc : isLetter c = true)
    (hword : ∀ d ∈ word, isWordChar d = true) (hrest : Separate rest) :
    tokens (c :: (word ++ rest)) = (tokens rest).map (.word (String.ofList (c :: word)) :: ·) := by
  have hne : ∀ d, isWordChar d = false → c ≠ d :=
    fun d => ne_of_isWordChar (letter_or_digit_iff.mp (.inl (letter_iff.mpr hc)))
  have hspace : ¬(c = ' ' ∨ c = '\t') := not_or.mpr ⟨hne ' ' (by decide), hne '\t' (by decide)⟩
  obtain ⟨htake, hdrop⟩ := span_word_append hword hrest
  rw [tokens, if_neg hspace, if_neg (hne '(' (by decide)), if_neg (hne ')' (by decide)),
    if_neg (hne ',' (by decide)), if_neg (hne '"' (by decide)), if_pos hc, htake, hdrop]

theorem statement?_operands {op : Name} {ts : List Token} {names : List Name} (h : operandTokens? ts = some names) :
    statement? (.word op :: .leftParen :: ts) = some (op, names) := by
  have hts : ts ≠ [.rightParen] := by
    rintro rfl
    contradiction
  rw [statement?]
  · rw [h]
    rfl
  · exact hts

def Lexes (cs : List Char) (ts : List Token) : Prop :=
  ∀ rest, Separate rest → tokens (cs ++ rest) = (tokens rest).map (ts ++ ·)

theorem Lexes.tokens_eq {cs : List Char} {ts : List Token} (h : Lexes cs ts) : tokens cs = some ts := by
  have hcs := h [] separate_nil
  rwa [List.append_nil, tokens_nil, Option.map_some, List.append_nil] at hcs

theorem Lexes.append {cs ds : List Char} {ts us : List Token} (hcs : Lexes cs ts) (hds : Lexes ds us)
    (hseparate : Separate ds) : Lexes (cs ++ ds) (ts ++ us) := by
  intro rest hrest
  rw [List.append_assoc, hcs _ (hseparate.append hrest), hds rest hrest, Option.map_map]
  congr 1
  funext vs
  exact (List.append_assoc ts us vs).symm

theorem lexes_nil : Lexes [] [] := by
  intro rest _
  rw [List.nil_append]
  cases tokens rest with
  | none => rfl
  | some ts => rfl

theorem Lexes.leftParen {cs : List Char} {ts : List Token} (h : Lexes cs ts) :
    Lexes ('(' :: cs) (.leftParen :: ts) := by
  intro rest hrest
  rw [List.cons_append, tokens_leftParen, h rest hrest, Option.map_map]
  rfl

theorem Lexes.rightParen {cs : List Char} {ts : List Token} (h : Lexes cs ts) :
    Lexes (')' :: cs) (.rightParen :: ts) := by
  intro rest hrest
  rw [List.cons_append, tokens_rightParen, h rest hrest, Option.map_map]
  rfl

theorem Lexes.comma {cs : List Char} {ts : List Token} (h : Lexes cs ts) : Lexes (',' :: cs) (.comma :: ts) := by
  intro rest hrest
  rw [List.cons_append, tokens_comma, h rest hrest, Option.map_map]
  rfl

theorem Lexes.spaces {sp cs : List Char} {ts : List Token} (hsp : Spaces sp) (h : Lexes cs ts) :
    Lexes (sp ++ cs) ts := by
  intro rest hrest
  induction sp with
  | nil => exact h rest hrest
  | cons c sp ih =>
    have hc := hsp c List.mem_cons_self
    rw [List.cons_append, List.cons_append, tokens, if_pos hc]
    exact ih fun d hd => hsp d (List.mem_cons_of_mem c hd)

theorem Grammar.Identifier.lexes {cs : List Char} {n : Name} (h : Identifier cs n) : Lexes cs [.word n] := by
  intro rest hrest
  obtain ⟨hc, hword⟩ := h
  exact tokens_word (letter_iff.mp hc) (fun d hd => letter_or_digit_iff.mp (hword d hd)) hrest

theorem Grammar.Operand.lexes {cs : List Char} {n : Name} (h : Operand cs n) :
    ∃ t, t.name? = some n ∧ Lexes cs [t] := by
  cases h with
  | bare h => exact ⟨.word n, rfl, h.lexes⟩
  | @quoted cs name h =>
    refine ⟨.quoted (String.ofList name), rfl, ?_⟩
    intro rest _
    rw [List.cons_append, List.append_assoc, List.singleton_append]
    exact tokens_quoted (h.unquote? rest)

theorem Grammar.Operands.lexes {cs : List Char} {names : List Name} (h : Operands cs names) :
    ∃ ts, operandTokens? (ts ++ [.rightParen]) = some names ∧ Lexes cs ts := by
  induction h with
  | single h =>
    obtain ⟨t, hname, ht⟩ := h.lexes
    exact ⟨[t], by simp [operandTokens?, hname], ht⟩
  | @cons cs before after ds n names h hbefore hafter hds ih =>
    obtain ⟨t, hname, ht⟩ := h.lexes
    obtain ⟨ts, hnames, hts⟩ := ih
    refine ⟨[t] ++ .comma :: ts, by simp [operandTokens?, hname, hnames], ?_⟩
    -- The comma ends the operand before it, even if that is a bare name.
    have hcomma : Separate (',' :: (after ++ ds)) := separate_cons (by decide) _
    apply ht.append
    · exact .spaces hbefore (.comma (.spaces hafter hts))
    · exact hbefore.separate.append hcomma

theorem Grammar.Arguments.lexes {cs : List Char} {names : List Name} (h : Arguments cs names) :
    ∃ ts, (∀ op, statement? (.word op :: ts) = some (op, names)) ∧ Lexes cs ts := by
  cases h with
  | empty hbefore hafter =>
    refine ⟨[.leftParen, .rightParen], fun op => rfl, ?_⟩
    exact .leftParen (.spaces hbefore (.spaces hafter (.rightParen lexes_nil)))
  | @operands before cs after _ hbefore h hafter =>
    obtain ⟨ts, hnames, hts⟩ := h.lexes
    refine ⟨.leftParen :: (ts ++ [.rightParen]), fun op => statement?_operands hnames, ?_⟩
    have hclose : Separate [')'] := separate_cons (by decide) _
    apply Lexes.leftParen
    apply Lexes.spaces hbefore
    apply hts.append
    · exact .spaces hafter (.rightParen lexes_nil)
    · exact hafter.separate.append hclose

theorem Grammar.Code.lexes {cs : List Char} {op : Name} {names : List Name} (h : Code cs op names) :
    ∃ ts, statement? ts = some (op, names) ∧ Lexes cs ts := by
  cases h with
  | @bare before cs after _ hbefore h hafter =>
    refine ⟨[.word op], rfl, ?_⟩
    have hspaces : Lexes after [] := by
      rw [← List.append_nil after]
      exact .spaces hafter lexes_nil
    exact .spaces hbefore (h.lexes.append hspaces hafter.separate)
  | @applied before cs between ds after _ _ hbefore h hbetween hds hafter =>
    obtain ⟨ts, hstatement, hts⟩ := hds.lexes
    refine ⟨[.word op] ++ (ts ++ []), by rw [List.append_nil]; exact hstatement op, ?_⟩
    have hspaces : Lexes after [] := by
      rw [← List.append_nil after]
      exact .spaces hafter lexes_nil
    apply Lexes.spaces hbefore
    apply h.lexes.append
    · exact .spaces hbetween (hts.append hspaces hafter.separate)
    · exact hbetween.separate.append (hds.separate.append hafter.separate)

end Reversible.Assembly
