import Reversible.Proofs.Assembly.Grammar

namespace Reversible.Assembly

open Grammar

theorem stripComment_content {cs name : List Char} (h : Content cs name) (rest : List Char) :
    stripComment .inside (cs ++ '"' :: rest) = cs ++ '"' :: stripComment .outside rest := by
  induction h with
  | nil => simp [stripComment]
  | plain hescape hquote _ ih =>
    rw [List.cons_append, stripComment, if_neg hescape, if_neg hquote, ih]
    rfl
  | escape _ _ ih =>
    rw [List.cons_append, List.cons_append, stripComment, if_pos rfl, stripComment, ih]
    rfl

/-- The text closes every quote that it opens and has no comment, so a comment after it begins where it would without
the text. -/
def Uncommented (cs : List Char) : Prop :=
  ∀ rest, stripComment .outside (cs ++ rest) = cs ++ stripComment .outside rest

theorem uncommented_nil : Uncommented [] := fun _ => rfl

theorem Uncommented.append {cs ds : List Char} (hcs : Uncommented cs) (hds : Uncommented ds) :
    Uncommented (cs ++ ds) := by
  intro rest
  rw [List.append_assoc, hcs, hds, List.append_assoc]

theorem Uncommented.cons {c : Char} {cs : List Char} (hcomment : c ≠ '#') (hquote : c ≠ '"') (h : Uncommented cs) :
    Uncommented (c :: cs) := by
  intro rest
  rw [List.cons_append, stripComment, if_neg hcomment, if_neg hquote, h, List.cons_append]

theorem uncommented_of_ne {cs : List Char} (h : ∀ c ∈ cs, c ≠ '#' ∧ c ≠ '"') : Uncommented cs := by
  induction cs with
  | nil => exact uncommented_nil
  | cons c cs ih =>
    obtain ⟨hcomment, hquote⟩ := h c List.mem_cons_self
    exact .cons hcomment hquote (ih fun d hd => h d (List.mem_cons_of_mem c hd))

theorem Grammar.Spaces.uncommented {cs : List Char} (h : Spaces cs) : Uncommented cs := by
  apply uncommented_of_ne
  intro c hc
  obtain rfl | rfl := h c hc <;> decide

theorem Grammar.Identifier.uncommented {cs : List Char} {n : Name} (h : Identifier cs n) : Uncommented cs := by
  apply uncommented_of_ne
  intro c hc
  have hword := isWordChar_of_mem_identifier h hc
  exact ⟨ne_of_isWordChar hword (by decide), ne_of_isWordChar hword (by decide)⟩

theorem Grammar.Operand.uncommented {cs : List Char} {n : Name} (h : Operand cs n) : Uncommented cs := by
  cases h with
  | bare h => exact h.uncommented
  | @quoted cs name h =>
    intro rest
    have hopen : ∀ ds, stripComment .outside ('"' :: ds) = '"' :: stripComment .inside ds := fun _ => rfl
    rw [List.cons_append, List.append_assoc, List.singleton_append, hopen, stripComment_content h]
    simp

theorem Grammar.Operands.uncommented {cs : List Char} {names : List Name} (h : Operands cs names) :
    Uncommented cs := by
  induction h with
  | single h => exact h.uncommented
  | cons h hbefore hafter _ ih =>
    apply h.uncommented.append
    apply hbefore.uncommented.append
    exact .cons (by decide) (by decide) (hafter.uncommented.append ih)

theorem Grammar.Arguments.uncommented {cs : List Char} {names : List Name} (h : Arguments cs names) :
    Uncommented cs := by
  have hclose : Uncommented [')'] := .cons (by decide) (by decide) uncommented_nil
  cases h with
  | empty hbefore hafter =>
    exact .cons (by decide) (by decide) (hbefore.uncommented.append (hafter.uncommented.append hclose))
  | operands hbefore h hafter =>
    exact .cons (by decide) (by decide)
      (hbefore.uncommented.append (h.uncommented.append (hafter.uncommented.append hclose)))

theorem Grammar.Code.uncommented {cs : List Char} {op : Name} {names : List Name} (h : Code cs op names) :
    Uncommented cs := by
  cases h with
  | bare hbefore h hafter => exact hbefore.uncommented.append (h.uncommented.append hafter.uncommented)
  | applied hbefore h hbetween hds hafter =>
    exact hbefore.uncommented.append (h.uncommented.append
      (hbetween.uncommented.append (hds.uncommented.append hafter.uncommented)))

theorem Uncommented.stripComment_eq {cs : List Char} (h : Uncommented cs) : stripComment .outside cs = cs := by
  have hcs := h []
  rwa [List.append_nil, stripComment, List.append_nil] at hcs

theorem Uncommented.stripComment_commented {cs : List Char} (h : Uncommented cs) (comment : List Char) :
    stripComment .outside (cs ++ '#' :: comment) = cs := by
  have hnone : stripComment .outside ('#' :: comment) = [] := rfl
  rw [h, hnone, List.append_nil]

theorem stripComment_eq_or (q : Quotation) (cs : List Char) :
    stripComment q cs = cs ∨ ∃ comment, cs = stripComment q cs ++ '#' :: comment := by
  have hcons : ∀ (c : Char) {ds cs : List Char}, (ds = cs ∨ ∃ comment, cs = ds ++ '#' :: comment) →
      c :: ds = c :: cs ∨ ∃ comment, c :: cs = (c :: ds) ++ '#' :: comment := by
    intro c ds cs h
    obtain rfl | ⟨comment, rfl⟩ := h
    · exact .inl rfl
    · exact .inr ⟨comment, rfl⟩
  fun_induction stripComment q cs with
  | case1 => exact .inl rfl
  | case2 comment => exact .inr ⟨comment, rfl⟩
  | _ =>
    -- In all other cases the scan keeps the first character.
    apply hcons
    assumption

theorem line_iff {line : List Char} {op : Name} {names : List Name} :
    Line line op names ↔ Code (stripComment .outside line) op names := by
  constructor
  · intro h
    cases h with
    | code h => rwa [h.uncommented.stripComment_eq]
    | commented h => rwa [h.uncommented.stripComment_commented]
  · intro h
    obtain hline | ⟨comment, hline⟩ := stripComment_eq_or .outside line
    · rw [hline] at h
      exact .code h
    · rw [hline]
      exact .commented h

theorem blank_iff {line : List Char} : Blank line ↔ (stripComment .outside line).all Text.isBlank = true := by
  have huncommented : ∀ {cs : List Char}, (∀ c ∈ cs, WhiteSpace c) → Uncommented cs := by
    intro cs h
    apply uncommented_of_ne
    intro c hc
    constructor
    · rintro rfl
      exact absurd (whiteSpace_iff.mp (h _ hc)) (by decide)
    · rintro rfl
      exact absurd (whiteSpace_iff.mp (h _ hc)) (by decide)
  simp only [List.all_eq_true, ← whiteSpace_iff]
  constructor
  · intro h
    cases h with
    | space h => rwa [(huncommented h).stripComment_eq]
    | commented h => rwa [(huncommented h).stripComment_commented]
  · intro h
    obtain hline | ⟨comment, hline⟩ := stripComment_eq_or .outside line
    · rw [hline] at h
      exact .space h
    · rw [hline]
      exact .commented h

end Reversible.Assembly
