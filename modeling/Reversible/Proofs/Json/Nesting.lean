import Reversible.Json.Record
import Reversible.Proofs.Json.Quoted

namespace Reversible.Json

inductive BracketScan where
  | outside
  | quoted
  | escaped

namespace BracketScan

def next : BracketScan → Char → BracketScan
  | outside, c => if c = '"' then quoted else outside
  | quoted, c => if c = '\\' then escaped else if c = '"' then outside else quoted
  | escaped, _ => quoted

def depthAfter : BracketScan → Char → (depth : Nat) → Nat
  | outside, c, depth =>
    if c = '[' ∨ c = '{' then depth + 1 else if c = ']' ∨ c = '}' then depth - 1 else depth
  | _, _, depth => depth

end BracketScan

def deepest (scan : BracketScan) (depth : Nat) : List Char → Nat
  | [] => depth
  | c :: cs => max depth (deepest (scan.next c) (scan.depthAfter c depth) cs)

def nesting (text : List Char) : Nat :=
  deepest .outside 0 text

theorem le_deepest (scan : BracketScan) (depth : Nat) (text : List Char) : depth ≤ deepest scan depth text := by
  cases text with
  | nil => exact Nat.le_refl depth
  | cons c cs => exact Nat.le_max_left _ _

theorem deepest_cons_of_depthAfter {scan : BracketScan} {depth : Nat} {c : Char} (h : scan.depthAfter c depth = depth)
    (cs : List Char) : deepest scan depth (c :: cs) = deepest (scan.next c) depth cs := by
  rw [deepest, h]
  exact Nat.max_eq_right (le_deepest _ _ _)

def Nests (text : List Char) (n : Nat) : Prop :=
  ∀ depth rest, deepest .outside depth (text ++ rest) = max (depth + n) (deepest .outside depth rest)

variable {text text' : List Char} {m n : Nat}

theorem Nests.nesting_eq (h : Nests text n) : nesting text = n := by
  have hn := h 0 []
  rw [List.append_nil, Nat.zero_add] at hn
  exact hn.trans (Nat.max_eq_left (Nat.zero_le n))

theorem nests_nil : Nests [] 0 := by
  intro depth rest
  exact (Nat.max_eq_right (le_deepest _ _ _)).symm

theorem Nests.append (h : Nests text m) (h' : Nests text' n) : Nests (text ++ text') (max m n) := by
  intro depth rest
  rw [List.append_assoc, h, h']
  omega

theorem nests_plain {c : Char} (hc : c ∉ ['"', '[', '{', ']', '}']) : Nests [c] 0 := by
  simp only [List.mem_cons, List.not_mem_nil, or_false, not_or] at hc
  intro depth rest
  have hnext : BracketScan.outside.next c = .outside := by simp [BracketScan.next, hc]
  have hdepth : BracketScan.outside.depthAfter c depth = depth := by simp [BracketScan.depthAfter, hc]
  rw [List.singleton_append, deepest_cons_of_depthAfter hdepth, hnext]
  exact (Nat.max_eq_right (le_deepest _ _ _)).symm

theorem nests_of_plain (h : ∀ c ∈ text, c ∉ ['"', '[', '{', ']', '}']) : Nests text 0 := by
  induction text with
  | nil => exact nests_nil
  | cons c cs ih =>
    obtain ⟨hc, hcs⟩ := List.forall_mem_cons.mp h
    exact (nests_plain hc).append (ih hcs)

theorem nests_brackets (h : Nests text n) {l r : Char} (hl : l = '[' ∨ l = '{') (hr : r = ']' ∨ r = '}') :
    Nests (l :: text ++ [r]) (n + 1) := by
  intro depth rest
  have hopen : ∀ cs, deepest .outside depth (l :: cs) = max depth (deepest .outside (depth + 1) cs) := by
    intro cs
    obtain rfl | rfl := hl <;> rfl
  have hclose : deepest .outside (depth + 1) (r :: rest) = max (depth + 1) (deepest .outside depth rest) := by
    obtain rfl | rfl := hr <;> rfl
  rw [List.append_assoc, List.cons_append, hopen, h, List.singleton_append, hclose]
  omega

theorem deepest_quoted {c : Char} (hquote : c ≠ '"') (hslash : c ≠ '\\') (depth : Nat) (rest : List Char) :
    deepest .quoted depth (c :: rest) = deepest .quoted depth rest := by
  have hnext : BracketScan.quoted.next c = .quoted := by simp [BracketScan.next, hquote, hslash]
  rw [deepest_cons_of_depthAfter rfl, hnext]

theorem hexDigit_ne : ∀ n < 16, hexDigit n ≠ '"' ∧ hexDigit n ≠ '\\' := by decide

theorem Spelled.deepest {c : Char} (h : Spelled c text) (depth : Nat) (rest : List Char) :
    Json.deepest .quoted depth (text ++ rest) = Json.deepest .quoted depth rest := by
  -- The scan is back inside the string right after the sign that follows a backslash.
  have hescape : ∀ (d : Char) cs, Json.deepest .quoted depth ('\\' :: d :: cs) = Json.deepest .quoted depth cs := by
    intro d cs
    rw [deepest_cons_of_depthAfter rfl, deepest_cons_of_depthAfter rfl]
    rfl
  cases h with
  | short h => exact hescape _ rest
  | code h =>
    obtain ⟨hquote, hslash⟩ := hexDigit_ne (c.toNat / 16) (by omega)
    obtain ⟨hquote', hslash'⟩ := hexDigit_ne (c.toNat % 16) (by omega)
    simp only [List.cons_append, List.nil_append]
    rw [hescape, deepest_quoted (by decide) (by decide), deepest_quoted (by decide) (by decide),
      deepest_quoted hquote hslash, deepest_quoted hquote' hslash']
  | plain hquote hslash h => exact deepest_quoted hquote hslash depth rest

theorem nests_quoted (s : String) : Nests (quoted s) 0 := by
  intro depth rest
  have hinside : ∀ cs : List Char, deepest .quoted depth (cs.flatMap escaped ++ '"' :: rest) =
      deepest .outside depth rest := by
    intro cs
    induction cs with
    | nil => exact deepest_cons_of_depthAfter rfl rest
    | cons c cs ih => rw [List.flatMap_cons, List.append_assoc, (spelled_escaped c).deepest, ih]
  have hopen : ∀ cs, deepest .outside depth ('"' :: cs) = deepest .quoted depth cs := by
    intro cs
    exact deepest_cons_of_depthAfter rfl cs
  rw [quoted, List.append_assoc, List.cons_append, hopen, List.singleton_append, hinside]
  exact (Nat.max_eq_right (le_deepest _ _ _)).symm

def deepestOf (texts : List (List Char)) : Nat :=
  (texts.map nesting).foldr max 0

theorem deepestOf_cons (t : List Char) (texts : List (List Char)) :
    deepestOf (t :: texts) = max (nesting t) (deepestOf texts) :=
  rfl

theorem deepestOf_eq_zero {texts : List (List Char)} (h : ∀ t ∈ texts, nesting t = 0) : deepestOf texts = 0 := by
  induction texts with
  | nil => rfl
  | cons t texts ih =>
    obtain ⟨ht, htexts⟩ := List.forall_mem_cons.mp h
    rw [deepestOf_cons, ht, ih htexts, Nat.max_self]

theorem deepestOf_append (texts texts' : List (List Char)) :
    deepestOf (texts ++ texts') = max (deepestOf texts) (deepestOf texts') := by
  induction texts with
  | nil => exact (Nat.zero_max _).symm
  | cons t texts ih => rw [List.cons_append, deepestOf_cons, deepestOf_cons, ih, Nat.max_assoc]

theorem joined_cons (text : List Char) (texts : List (List Char)) :
    joined (text :: texts) = text ++ texts.flatMap (',' :: ·) := by
  induction texts generalizing text with
  | nil => simp [joined]
  | cons t texts ih =>
    have hcons : joined (text :: t :: texts) = text ++ [','] ++ joined (t :: texts) := by simp [joined]
    rw [hcons, ih, List.flatMap_cons]
    simp

variable {texts : List (List Char)}

theorem nests_joined (h : ∀ t ∈ texts, Nests t (nesting t)) : Nests (joined texts) (deepestOf texts) := by
  have htail : ∀ texts : List (List Char), (∀ t ∈ texts, Nests t (nesting t)) →
      Nests (texts.flatMap (',' :: ·)) (deepestOf texts) := by
    intro texts h
    induction texts with
    | nil => exact nests_nil
    | cons t texts ih =>
      obtain ⟨ht, htexts⟩ := List.forall_mem_cons.mp h
      have hcomma : Nests (',' :: t) (nesting t) := by
        have := (nests_plain (c := ',') (by decide)).append ht
        rwa [Nat.zero_max] at this
      exact hcomma.append (ih htexts)
  cases texts with
  | nil => exact nests_nil
  | cons t texts =>
    obtain ⟨ht, htexts⟩ := List.forall_mem_cons.mp h
    rw [joined_cons]
    exact ht.append (htail texts htexts)

theorem nests_writtenList (h : ∀ t ∈ texts, Nests t (nesting t)) : Nests (writtenList texts) (deepestOf texts + 1) :=
  nests_brackets (nests_joined h) (.inl rfl) (.inl rfl)

theorem nests_member (key : String) (h : Nests text n) : Nests (quoted key ++ ':' :: text) n := by
  have hcolon := (nests_plain (c := ':') (by decide)).append h
  have hmember := (nests_quoted key).append hcolon
  rwa [Nat.zero_max, Nat.zero_max] at hmember

theorem nests_writtenObject {members : List (String × List Char)} (h : ∀ m ∈ members, Nests m.2 (nesting m.2)) :
    Nests (writtenObject members) (deepestOf (members.map Prod.snd) + 1) := by
  have hmember : ∀ m ∈ members, nesting (quoted m.1 ++ ':' :: m.2) = nesting m.2 := by
    intro m hm
    exact (nests_member m.1 (h m hm)).nesting_eq
  have hdeepest : deepestOf (members.map fun m => quoted m.1 ++ ':' :: m.2) = deepestOf (members.map Prod.snd) := by
    rw [deepestOf, deepestOf, List.map_map, List.map_map]
    congr 1
    exact List.map_congr_left hmember
  rw [← hdeepest]
  apply nests_brackets (nests_joined _) (.inr rfl) (.inr rfl)
  intro t ht
  obtain ⟨m, hm, rfl⟩ := List.mem_map.mp ht
  rw [hmember m hm]
  exact nests_member m.1 (h m hm)

end Reversible.Json
