import Reversible.Assembly.Listing

namespace Reversible.Assembly.Grammar

def Spaces (cs : List Char) : Prop :=
  ∀ c ∈ cs, c = ' ' ∨ c = '\t'

def Letter (c : Char) : Prop :=
  ('A' ≤ c ∧ c ≤ 'Z') ∨ ('a' ≤ c ∧ c ≤ 'z') ∨ c = '_'

def Digit (c : Char) : Prop :=
  '0' ≤ c ∧ c ≤ '9'

/-- The characters with the Unicode property White_Space. -/
def whiteSpace : List Char :=
  ['\t', '\n', '\x0b', '\x0c', '\r', ' ', '\u0085', '\u00a0', '\u1680', '\u2000', '\u2001', '\u2002', '\u2003',
    '\u2004', '\u2005', '\u2006', '\u2007', '\u2008', '\u2009', '\u200a', '\u2028', '\u2029', '\u202f', '\u205f',
    '\u3000']

def WhiteSpace (c : Char) : Prop :=
  c ∈ whiteSpace

inductive Identifier : List Char → Name → Prop
  | mk {c : Char} {word : List Char} (hc : Letter c) (hword : ∀ d ∈ word, Letter d ∨ Digit d) :
      Identifier (c :: word) (String.ofList (c :: word))

inductive Escape : Char → Char → Prop
  | backslash : Escape '\\' '\\'
  | quote : Escape '"' '"'
  | lineFeed : Escape 'n' '\n'
  | carriageReturn : Escape 'r' '\r'
  | tab : Escape 't' '\t'

inductive Content : List Char → List Char → Prop
  | nil : Content [] []
  | plain {c : Char} {cs name : List Char} (hescape : c ≠ '\\') (hquote : c ≠ '"') (h : Content cs name) :
      Content (c :: cs) (c :: name)
  | escape {c d : Char} {cs name : List Char} (hc : Escape c d) (h : Content cs name) :
      Content ('\\' :: c :: cs) (d :: name)

inductive Operand : List Char → Name → Prop
  | bare {cs : List Char} {n : Name} (h : Identifier cs n) : Operand cs n
  | quoted {cs name : List Char} (h : Content cs name) : Operand ('"' :: (cs ++ ['"'])) (String.ofList name)

inductive Operands : List Char → List Name → Prop
  | single {cs : List Char} {n : Name} (h : Operand cs n) : Operands cs [n]
  | cons {cs before after ds : List Char} {n : Name} {names : List Name} (h : Operand cs n)
      (hbefore : Spaces before) (hafter : Spaces after) (hds : Operands ds names) :
      Operands (cs ++ (before ++ ',' :: (after ++ ds))) (n :: names)

inductive Arguments : List Char → List Name → Prop
  | empty {before after : List Char} (hbefore : Spaces before) (hafter : Spaces after) :
      Arguments ('(' :: (before ++ (after ++ [')']))) []
  | operands {before cs after : List Char} {names : List Name} (hbefore : Spaces before) (h : Operands cs names)
      (hafter : Spaces after) : Arguments ('(' :: (before ++ (cs ++ (after ++ [')'])))) names

inductive Code : List Char → Name → List Name → Prop
  | bare {before cs after : List Char} {op : Name} (hbefore : Spaces before) (h : Identifier cs op)
      (hafter : Spaces after) : Code (before ++ (cs ++ after)) op []
  | applied {before cs between ds after : List Char} {op : Name} {names : List Name} (hbefore : Spaces before)
      (h : Identifier cs op) (hbetween : Spaces between) (hds : Arguments ds names) (hafter : Spaces after) :
      Code (before ++ (cs ++ (between ++ (ds ++ after)))) op names

inductive Line : List Char → Name → List Name → Prop
  | code {cs : List Char} {op : Name} {names : List Name} (h : Code cs op names) : Line cs op names
  | commented {cs comment : List Char} {op : Name} {names : List Name} (h : Code cs op names) :
      Line (cs ++ '#' :: comment) op names

inductive Blank : List Char → Prop
  | space {cs : List Char} (h : ∀ c ∈ cs, WhiteSpace c) : Blank cs
  | commented {cs comment : List Char} (h : ∀ c ∈ cs, WhiteSpace c) : Blank (cs ++ '#' :: comment)

theorem spaces_nil : Spaces [] := by
  intro c hc
  exact absurd hc List.not_mem_nil

theorem letter_iff {c : Char} : Letter c ↔ isLetter c = true := by
  have hupper : c.isUpper = decide ('A' ≤ c ∧ c ≤ 'Z') := rfl
  have hlower : c.isLower = (decide ('a' ≤ c) && decide (c ≤ 'z')) := rfl
  have halpha : c.isAlpha = (c.isUpper || c.isLower) := rfl
  simp only [Letter, isLetter, halpha, hupper, hlower, Bool.or_eq_true, Bool.and_eq_true, decide_eq_true_eq, or_assoc]

theorem digit_iff {c : Char} : Digit c ↔ c.isDigit = true := by
  have hdigit : c.isDigit = (decide ('0' ≤ c) && decide (c ≤ '9')) := rfl
  simp only [Digit, hdigit, Bool.and_eq_true, decide_eq_true_eq]

theorem letter_or_digit_iff {c : Char} : Letter c ∨ Digit c ↔ isWordChar c = true := by
  rw [letter_iff, digit_iff]
  have halphanum : c.isAlphanum = (c.isAlpha || c.isDigit) := rfl
  simp only [isLetter, isWordChar, halphanum, Bool.or_eq_true, decide_eq_true_eq]
  exact or_right_comm

theorem whiteSpace_iff {c : Char} : WhiteSpace c ↔ Text.isBlank c = true := by
  have hcodes : whiteSpace.map Char.toNat =
      [0x09, 0x0A, 0x0B, 0x0C, 0x0D, 0x20, 0x85, 0xA0, 0x1680, 0x2000, 0x2001, 0x2002, 0x2003, 0x2004, 0x2005, 0x2006,
        0x2007, 0x2008, 0x2009, 0x200A, 0x2028, 0x2029, 0x202F, 0x205F, 0x3000] := rfl
  have hmem : WhiteSpace c ↔ c.toNat ∈ whiteSpace.map Char.toNat := by
    simp only [WhiteSpace, List.mem_map, Char.toNat_inj, exists_eq_right]
  rw [hmem, hcodes]
  simp only [Text.isBlank, List.mem_cons, List.not_mem_nil, or_false, Bool.or_eq_true, Bool.and_eq_true,
    decide_eq_true_eq]
  omega

theorem escape_iff {c d : Char} : Escape c d ↔ unescape? c = some d := by
  constructor
  · intro h
    cases h <;> rfl
  · intro h
    unfold unescape? at h
    split at h <;> cases h
    · exact .backslash
    · exact .quote
    · exact .lineFeed
    · exact .carriageReturn
    · exact .tab

theorem ne_of_isWordChar {c d : Char} (hc : isWordChar c = true) (hd : isWordChar d = false) : c ≠ d := by
  rintro rfl
  rw [hc] at hd
  contradiction

theorem isWordChar_of_mem_identifier {cs : List Char} {n : Name} (h : Identifier cs n) {c : Char} (hc : c ∈ cs) :
    isWordChar c = true := by
  obtain ⟨hfirst, hword⟩ := h
  obtain rfl | hc := List.mem_cons.mp hc
  · exact letter_or_digit_iff.mp (.inl hfirst)
  · exact letter_or_digit_iff.mp (hword c hc)

theorem not_isBlank_of_letter {c : Char} (h : Letter c) : Text.isBlank c = false := by
  have hrange : 0x41 ≤ c.toNat ∧ c.toNat ≤ 0x7A := by
    obtain ⟨hfirst, hlast⟩ | ⟨hfirst, hlast⟩ | rfl := h
    · rw [Char.le_def, UInt32.le_iff_toNat_le] at hfirst hlast
      exact ⟨hfirst, Nat.le_trans hlast (by decide)⟩
    · rw [Char.le_def, UInt32.le_iff_toNat_le] at hfirst hlast
      exact ⟨Nat.le_trans (by decide) hfirst, hlast⟩
    · decide
  simp only [Text.isBlank, Bool.or_eq_false_iff, Bool.and_eq_false_iff, decide_eq_false_iff_not]
  omega

theorem unquote?_escape {c d : Char} (h : unescape? c = some d) (cs : List Char) :
    unquote? ('\\' :: c :: cs) = (unquote? cs).map fun found => (d :: found.1, found.2) := by
  simp only [unquote?, h]
  cases unquote? cs <;> rfl

theorem unquote?_plain {c : Char} (hquote : c ≠ '"') (hescape : c ≠ '\\') (cs : List Char) :
    unquote? (c :: cs) = (unquote? cs).map fun found => (c :: found.1, found.2) := by
  rw [unquote?]
  · cases unquote? cs <;> rfl
  · exact hquote
  · exact fun h => absurd h hescape
  · exact fun _ _ h => absurd h hescape

theorem Content.unquote? {cs name : List Char} (h : Content cs name) (rest : List Char) :
    unquote? (cs ++ '"' :: rest) = some (name, rest) := by
  induction h with
  | nil => rfl
  | plain hescape hquote _ ih =>
    rw [List.cons_append, unquote?_plain hquote hescape, ih]
    rfl
  | escape hc _ ih =>
    rw [List.cons_append, List.cons_append, unquote?_escape (escape_iff.mp hc), ih]
    rfl

theorem content_of_unquote? {cs name rest : List Char} (h : Assembly.unquote? cs = some (name, rest)) :
    ∃ body, cs = body ++ '"' :: rest ∧ Content body name := by
  fun_induction Assembly.unquote? cs generalizing name with
  | case1 => contradiction
  | case2 rest' =>
    cases h
    exact ⟨[], rfl, .nil⟩
  | case3 => contradiction
  | case4 c rest' ih =>
    simp only [Option.pure_def, Option.bind_eq_bind, Option.bind_eq_some_iff, Option.some.injEq, Prod.mk.injEq,
      Prod.exists] at h
    obtain ⟨d, hd, n, r, hr, rfl, rfl⟩ := h
    obtain ⟨body, rfl, hbody⟩ := ih hr
    exact ⟨'\\' :: c :: body, rfl, .escape (escape_iff.mpr hd) hbody⟩
  | case5 c rest' hquote hend hescape ih =>
    simp only [Option.pure_def, Option.bind_eq_bind, Option.bind_eq_some_iff, Option.some.injEq, Prod.mk.injEq,
      Prod.exists] at h
    obtain ⟨n, r, hr, rfl, rfl⟩ := h
    obtain ⟨body, rfl, hbody⟩ := ih hr
    have hplain : c ≠ '\\' := by
      intro hc
      cases body with
      | nil => exact hescape _ _ hc rfl
      | cons d body => exact hescape _ _ hc rfl
    exact ⟨c :: body, rfl, .plain hplain hquote hbody⟩

end Reversible.Assembly.Grammar
