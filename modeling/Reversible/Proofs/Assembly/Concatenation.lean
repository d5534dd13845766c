import Mathlib.Control.Monad.Basic
import Reversible.Assembly.Listing
import Reversible.Proofs.Action

namespace Reversible

namespace Text

def EndsLine (cs : List Char) : Prop :=
  cs = [] ∨ cs.getLast? = some '\n'

instance (cs : List Char) : Decidable (EndsLine cs) :=
  inferInstanceAs (Decidable (_ ∨ _))

variable {c : Char} {cs : List Char}

theorem EndsLine.tail (h : EndsLine (c :: cs)) : EndsLine cs := by
  cases cs with
  | nil => exact .inl rfl
  | cons d cs => exact .inr (by simpa [EndsLine] using h)

theorem EndsLine.ne_nil (h : EndsLine (c :: cs)) (hc : c ≠ '\n') : cs ≠ [] := by
  rintro rfl
  simp [EndsLine, hc] at h

theorem lines_eq_nil_iff : lines cs = [] ↔ cs = [] := by
  fun_cases lines cs <;> simp

theorem lines_append (h : EndsLine cs) (ds : List Char) : lines (cs ++ ds) = lines cs ++ lines ds := by
  fun_induction lines cs with
  | case1 => rfl
  | case2 cs ih => simp [lines, ih h.tail.tail]
  | case3 cs ih => simp [lines, ih h.tail]
  | case4 c cs hreturn hfeed hnil ih =>
    -- A text that ends in a line feed goes on after a first character that is none.
    exact absurd (lines_eq_nil_iff.mp hnil) (h.ne_nil hfeed)
  | case5 c cs hreturn hfeed l ls hlines ih =>
    have hrest := ih h.tail
    obtain ⟨d, cs, rfl⟩ := List.exists_cons_of_ne_nil (h.ne_nil hfeed)
    have hreturn' : ∀ es, c = '\r' → d :: cs ++ ds = '\n' :: es → False := by
      intro es hc hes
      rw [List.cons_append, List.cons.injEq] at hes
      exact hreturn cs hc (by rw [hes.1])
    rw [List.cons_append, lines, hrest, hlines]
    · rfl
    · exact hreturn'
    · exact hfeed

theorem length_lines (h : EndsLine cs) : (lines cs).length = cs.count '\n' := by
  fun_induction lines cs with
  | case1 => rfl
  | case2 cs ih => simp [ih h.tail.tail]
  | case3 cs ih => simp [ih h.tail]
  | case4 c cs hreturn hfeed hnil ih => exact absurd (lines_eq_nil_iff.mp hnil) (h.ne_nil hfeed)
  | case5 c cs hreturn hfeed l ls hlines ih =>
    have hrest := ih h.tail
    rw [hlines] at hrest
    rw [List.count_cons_of_ne hfeed, ← hrest]
    rfl

end Text

namespace Assembly

def FirstDefect (ls : List (List Char)) (k : Nat) (defect : Defect) : Prop :=
  (∃ l, ls[k]? = some l ∧ parseLine l = .error defect) ∧ ∀ l ∈ ls.take k, ∃ found, parseLine l = .ok found

def Error.later (n : Nat) (e : Error) : Error :=
  { e with line := n + e.line }

variable {l : List Char} {ls ms : List (List Char)} {number k : Nat} {defect : Defect} {e : Error}

theorem parseLines_cons_of_error (h : parseLine l = .error defect) :
    parseLines number (l :: ls) = .error ⟨number, defect⟩ := by
  rw [parseLines, h]

theorem parseLines_cons_of_ok {found : Option Instruction} (h : parseLine l = .ok found) :
    parseLines number (l :: ls) = (parseLines (number + 1) ls).map (found.toList ++ ·) := by
  rw [parseLines, h]
  rfl

theorem firstDefect_cons_of_error {defect' : Defect} (h : parseLine l = .error defect) :
    FirstDefect (l :: ls) k defect' ↔ k = 0 ∧ defect' = defect := by
  cases k with
  | zero => simp [FirstDefect, h, eq_comm]
  | succ k => simp [FirstDefect, h]

theorem firstDefect_cons_of_ok {found : Option Instruction} (h : parseLine l = .ok found) :
    FirstDefect (l :: ls) k defect ↔ ∃ j, k = j + 1 ∧ FirstDefect ls j defect := by
  cases k with
  | zero => simp [FirstDefect, h]
  | succ k => simp [FirstDefect, h]

theorem parseLines_eq_error_iff :
    parseLines number ls = .error e ↔ ∃ k, e.line = number + k ∧ FirstDefect ls k e.defect := by
  induction ls generalizing number with
  | nil => simp [parseLines, FirstDefect]
  | cons l ls ih =>
    cases h : parseLine l with
    | error defect =>
      simp only [parseLines_cons_of_error h, firstDefect_cons_of_error h]
      constructor
      · rintro ⟨⟩
        exact ⟨0, rfl, rfl, rfl⟩
      · rintro ⟨_, hline, rfl, rfl⟩
        rw [Nat.add_zero] at hline
        rw [← hline]
    | ok found =>
      simp only [parseLines_cons_of_ok h, firstDefect_cons_of_ok h, except_map_eq_error_iff, ih]
      constructor
      · rintro ⟨k, hline, hk⟩
        exact ⟨k + 1, by omega, k, rfl, hk⟩
      · rintro ⟨_, hline, k, rfl, hk⟩
        exact ⟨k, by omega, hk⟩

theorem parseLines_append (number : Nat) (ls ms : List (List Char)) :
    parseLines number (ls ++ ms) = do
      let p ← parseLines number ls
      let q ← parseLines (number + ls.length) ms
      return p ++ q := by
  induction ls generalizing number with
  | nil =>
    have hnil : parseLines number [] = .ok [] := rfl
    rw [List.nil_append, hnil]
    change _ = parseLines number ms >>= pure
    rw [bind_pure]
  | cons l ls ih =>
    cases h : parseLine l with
    | error defect =>
      rw [List.cons_append, parseLines_cons_of_error h, parseLines_cons_of_error h]
      rfl
    | ok found =>
      have hlength : number + (l :: ls).length = number + 1 + ls.length := by
        rw [List.length_cons]
        omega
      rw [List.cons_append, parseLines_cons_of_ok h, parseLines_cons_of_ok h, ih, hlength]
      cases parseLines (number + 1) ls with
      | error e => rfl
      | ok p =>
        simp only [bind, Except.bind, Except.map]
        cases parseLines (number + 1 + ls.length) ms with
        | error e => rfl
        | ok q => simp [pure, Except.pure]

theorem parseLines_later (n number : Nat) (ls : List (List Char)) :
    parseLines (n + number) ls = (parseLines number ls).mapError (Error.later n) := by
  induction ls generalizing number with
  | nil => rfl
  | cons l ls ih =>
    cases h : parseLine l with
    | error defect =>
      rw [parseLines_cons_of_error h, parseLines_cons_of_error h]
      rfl
    | ok found =>
      rw [parseLines_cons_of_ok h, parseLines_cons_of_ok h, Nat.add_assoc, ih]
      cases parseLines (number + 1) ls with
      | error e => rfl
      | ok p => rfl

theorem parse_append {t u : String} (h : Text.EndsLine t.toList) :
    parse (t ++ u) = do
      let p ← parse t
      let q ← (parse u).mapError (Error.later (t.toList.count '\n'))
      return p ++ q := by
  rw [parse, String.toList_append, Text.lines_append h, parseLines_append, Text.length_lines h, Nat.add_comm 1,
    parseLines_later]
  rfl

theorem parse_eq_error_iff {text : String} :
    parse text = .error e ↔ ∃ k, e.line = k + 1 ∧ FirstDefect (Text.lines text.toList) k e.defect := by
  rw [parse, parseLines_eq_error_iff]
  simp only [Nat.add_comm 1]

theorem parse_compositional :
    (∀ t u : String, Text.EndsLine t.toList →
      (∀ e, parse t = .error e → parse (t ++ u) = .error e) ∧
        (∀ p q, parse t = .ok p → parse u = .ok q → parse (t ++ u) = .ok (p ++ q)) ∧
        ∀ p e, parse t = .ok p → parse u = .error e →
          parse (t ++ u) = .error { line := t.toList.count '\n' + e.line, defect := e.defect }) ∧
      ∀ (t : String) (e : Error),
        parse t = .error e ↔ ∃ k, e.line = k + 1 ∧ FirstDefect (Text.lines t.toList) k e.defect := by
  constructor
  · intro t u h
    rw [parse_append h]
    refine ⟨?_, ?_, ?_⟩
    · intro e ht
      rw [ht]
      rfl
    · intro p q ht hu
      rw [ht, hu]
      rfl
    · intro p e ht hu
      rw [ht, hu]
      rfl
  · intro t e
    exact parse_eq_error_iff

theorem parse_compositional_comment :
    let t := "Noop # \"\r\n\n"
    let bad := "Noop\nHalt\n"
    let u := "Negate(x)"
    let v := "# a\nAdd(x)"
    (Text.EndsLine bad.toList ∧ parse bad = .error ⟨2, .unknownOperation "Halt"⟩ ∧
      parse (bad ++ u) = .error ⟨2, .unknownOperation "Halt"⟩) ∧
      (Text.EndsLine t.toList ∧ parse t = .ok [.noop]) ∧
      (parse u = .ok [.negate "x"] ∧ parse (t ++ u) = .ok [.noop, .negate "x"]) ∧
      parse v = .error ⟨2, .operandCount .add 1⟩ ∧ parse (t ++ v) = .error ⟨4, .operandCount .add 1⟩ := by
  intro t bad u v
  obtain ⟨hcompositional, -⟩ := parse_compositional
  have ht : parse t = .ok [.noop] := by decide +kernel
  have hbad : parse bad = .error ⟨2, .unknownOperation "Halt"⟩ := by decide +kernel
  have hu : parse u = .ok [.negate "x"] := by decide +kernel
  have hv : parse v = .error ⟨2, .operandCount .add 1⟩ := by decide +kernel
  have htends : Text.EndsLine t.toList := by decide
  have hbadends : Text.EndsLine bad.toList := by decide
  obtain ⟨hfirst, -, -⟩ := hcompositional bad u hbadends
  obtain ⟨-, hboth, -⟩ := hcompositional t u htends
  obtain ⟨-, -, hsecond⟩ := hcompositional t v htends
  have hfeeds : t.toList.count '\n' = 2 := by decide
  have htv := hsecond _ _ ht hv
  rw [hfeeds] at htv
  exact ⟨⟨hbadends, hbad, hfirst _ hbad⟩, ⟨htends, ht⟩, ⟨hu, hboth _ _ ht hu⟩, hv, htv⟩

end Assembly

end Reversible
