import Reversible.Proofs.Assembly.Comment
import Reversible.Proofs.Assembly.Spelling

namespace Reversible

namespace Instruction

theorem ofParts?_eq_some_iff {op : Opcode} {names : List Name} {i : Instruction} :
    ofParts? op names = some i ↔ i.opcode = op ∧ i.operands = names := by
  constructor
  · intro h
    unfold ofParts? at h
    split at h <;> cases h <;> exact ⟨rfl, rfl⟩
  · rintro ⟨rfl, rfl⟩
    exact ofParts?_opcode_operands i

theorem exists_of_arity {op : Opcode} {names : List Name} (h : names.length = op.arity) :
    ∃ i : Instruction, i.opcode = op ∧ i.operands = names := by
  match op, names, h with
  | .add, [a, b], _ => exact ⟨add a b, rfl, rfl⟩
  | .sub, [a, b], _ => exact ⟨sub a b, rfl, rfl⟩
  | .swap, [a, b], _ => exact ⟨swap a b, rfl, rfl⟩
  | .negate, [a], _ => exact ⟨negate a, rfl, rfl⟩
  | .noop, [], _ => exact ⟨noop, rfl, rfl⟩

end Instruction

namespace Assembly

open Grammar

theorem Grammar.Code.not_blank {cs : List Char} {op : Name} {names : List Name} (h : Code cs op names) :
    cs.all Text.isBlank = false := by
  have hidentifier : ∀ {ds : List Char}, Identifier ds op → ds.all Text.isBlank = false := by
    intro ds hds
    obtain ⟨hc, -⟩ := hds
    rw [List.all_cons, not_isBlank_of_letter hc, Bool.false_and]
  cases h with
  | bare _ h _ => simp [hidentifier h]
  | applied _ h _ _ _ => simp [hidentifier h]

theorem Grammar.Line.not_blank {line : List Char} {op : Name} {names : List Name} (h : Line line op names) :
    ¬Blank line := by
  rw [blank_iff, (line_iff.mp h).not_blank]
  exact Bool.false_ne_true

def interpret (op : Name) (names : List Name) : Except Defect (Option Instruction) :=
  match Opcode.ofName? op with
  | none => .error (.unknownOperation op)
  | some op =>
    match Instruction.ofParts? op names with
    | none => .error (.operandCount op names.length)
    | some i => .ok (some i)

theorem parseLine_of_blank {line : List Char} (h : Blank line) : parseLine line = .ok none := by
  rw [parseLine, if_pos (blank_iff.mp h)]

theorem parseLine_of_line {line : List Char} {op : Name} {names : List Name} (h : Line line op names) :
    parseLine line = interpret op names := by
  have hblank : ¬(stripComment .outside line).all Text.isBlank = true := fun hb => h.not_blank (blank_iff.mpr hb)
  rw [parseLine, if_neg hblank, code_iff.mp (line_iff.mp h)]
  rfl

theorem parseLine_of_not_line {line : List Char} (hblank : ¬Blank line) (h : ¬∃ op names, Line line op names) :
    parseLine line = .error (.unreadable (String.ofList (Text.trim (stripComment .outside line)))) := by
  have hnone : (tokens (stripComment .outside line)).bind statement? = none := by
    apply Option.eq_none_iff_forall_ne_some.mpr
    rintro ⟨op, names⟩ hstatement
    exact h ⟨op, names, line_iff.mpr (code_iff.mpr hstatement)⟩
  rw [parseLine, if_neg (fun hb => hblank (blank_iff.mpr hb)), hnone]

theorem interpret_eq_some_iff {op : Name} {names : List Name} {i : Instruction} :
    interpret op names = .ok (some i) ↔ i.opcode.name = op ∧ i.operands = names := by
  constructor
  · intro h
    unfold interpret at h
    split at h
    · contradiction
    · next opcode hop =>
      split at h
      · contradiction
      · next hparts =>
        cases h
        obtain ⟨rfl, rfl⟩ := Instruction.ofParts?_eq_some_iff.mp hparts
        exact ⟨Opcode.ofName?_eq_some_iff.mp hop, rfl⟩
  · rintro ⟨rfl, rfl⟩
    have hop : Opcode.ofName? i.opcode.name = some i.opcode := Opcode.ofName?_eq_some_iff.mpr rfl
    simp only [interpret, hop, Instruction.ofParts?_opcode_operands]

theorem interpret_ne_none (op : Name) (names : List Name) : interpret op names ≠ .ok none := by
  unfold interpret
  split
  · simp
  · split <;> simp

theorem interpret_ne_unreadable (op : Name) (names : List Name) (code : String) :
    interpret op names ≠ .error (.unreadable code) := by
  unfold interpret
  split
  · simp
  · split <;> simp

theorem message_unknownOperation_ne (name : Name) (text : String) :
    (Defect.unknownOperation name).message ≠ "cannot parse `" ++ text ++ "`" := by
  intro h
  -- The two messages end in different characters.
  have hlast := congrArg (fun s : String => s.toList.getLast?) h
  have hleft : " is not an operation".toList.getLast? = some 'n' := by decide
  have hright : "`".toList.getLast? = some '`' := by decide
  dsimp only [Defect.message] at hlast
  rw [String.toList_append, String.toList_append, List.getLast?_append, List.getLast?_append, hleft, hright] at hlast
  cases hlast

theorem message_operandCount_ne (op : Opcode) (given : Nat) (text : String) :
    (Defect.operandCount op given).message ≠ "cannot parse `" ++ text ++ "`" := by
  intro h
  -- The name of an operation starts with a capital letter.
  have hfirst := congrArg (fun s : String => s.toList.head?) h
  have hleft : ∃ c, op.name.toList.head? = some c ∧ c.isUpper = true := by
    cases op with
    | add => exact ⟨'A', by decide, rfl⟩
    | sub => exact ⟨'S', by decide, rfl⟩
    | swap => exact ⟨'S', by decide, rfl⟩
    | negate => exact ⟨'N', by decide, rfl⟩
    | noop => exact ⟨'N', by decide, rfl⟩
  have hright : "cannot parse `".toList.head? = some 'c' := by decide
  obtain ⟨c, hc, hupper⟩ := hleft
  dsimp only [Defect.message] at hfirst
  simp only [String.toList_append, List.head?_append, hc, hright, Option.some_or, Option.some.injEq] at hfirst
  rw [hfirst] at hupper
  contradiction

theorem message_eq_iff {defect : Defect} :
    (∃ text, defect.message = "cannot parse `" ++ text ++ "`") ↔ ∃ code, defect = .unreadable code := by
  constructor
  · rintro ⟨text, h⟩
    cases defect with
    | unreadable code => exact ⟨code, rfl⟩
    | unknownOperation name => exact absurd h (message_unknownOperation_ne name text)
    | operandCount op given => exact absurd h (message_operandCount_ne op given text)
  · rintro ⟨code, rfl⟩
    exact ⟨code, rfl⟩

theorem parseLine_cases (line : List Char) :
    (Blank line ∧ parseLine line = .ok none) ∨
      (∃ op names, Line line op names ∧ parseLine line = interpret op names) ∨
      (¬∃ op names, Line line op names) ∧ ∃ code, parseLine line = .error (.unreadable code) := by
  by_cases hblank : Blank line
  · exact .inl ⟨hblank, parseLine_of_blank hblank⟩
  by_cases hline : ∃ op names, Line line op names
  · obtain ⟨op, names, hline⟩ := hline
    exact .inr (.inl ⟨op, names, hline, parseLine_of_line hline⟩)
  · exact .inr (.inr ⟨hline, _, parseLine_of_not_line hblank hline⟩)

theorem parseLine_eq_some_iff {line : List Char} {i : Instruction} :
    parseLine line = .ok (some i) ↔ Line line i.opcode.name i.operands := by
  constructor
  · intro h
    obtain ⟨-, hnone⟩ | ⟨op, names, hline, hinterpret⟩ | ⟨-, code, hcode⟩ := parseLine_cases line
    · rw [hnone] at h
      cases h
    · rw [hinterpret, interpret_eq_some_iff] at h
      rwa [h.1, h.2]
    · rw [hcode] at h
      contradiction
  · intro h
    rw [parseLine_of_line h, interpret_eq_some_iff]
    exact ⟨rfl, rfl⟩

theorem parseLine_eq_none_iff {line : List Char} : parseLine line = .ok none ↔ Blank line := by
  constructor
  · intro h
    obtain ⟨hblank, -⟩ | ⟨op, names, -, hinterpret⟩ | ⟨-, code, hcode⟩ := parseLine_cases line
    · exact hblank
    · rw [hinterpret] at h
      exact absurd h (interpret_ne_none op names)
    · rw [hcode] at h
      contradiction
  · exact parseLine_of_blank

theorem unreadable_iff {line : List Char} {defect : Defect} (h : parseLine line = .error defect) :
    (∃ code, defect = .unreadable code) ↔ ¬∃ op names, Line line op names := by
  obtain ⟨-, hnone⟩ | ⟨op, names, hline, hinterpret⟩ | ⟨hline, code, hcode⟩ := parseLine_cases line
  · rw [hnone] at h
    contradiction
  · rw [hinterpret] at h
    constructor
    · rintro ⟨code, rfl⟩
      exact absurd h (interpret_ne_unreadable op names code)
    · intro hnot
      exact absurd ⟨op, names, hline⟩ hnot
  · rw [hcode] at h
    cases h
    exact ⟨fun _ => hline, fun _ => ⟨code, rfl⟩⟩

theorem Grammar.Line.unique {line : List Char} {op op' : Name} {names names' : List Name} (h : Line line op names)
    (h' : Line line op' names') : op = op' ∧ names = names' := by
  have hcode := code_iff.mp (line_iff.mp h)
  rw [code_iff.mp (line_iff.mp h'), Option.some.injEq, Prod.mk.injEq] at hcode
  exact ⟨hcode.1.symm, hcode.2.symm⟩

theorem line_of_instruction_iff {line : List Char} {i : Instruction} :
    Line line i.opcode.name i.operands ↔
      ∃ (op : Opcode) (names : List Name),
        Line line op.name names ∧ names.length = op.arity ∧ i.opcode = op ∧ i.operands = names := by
  constructor
  · intro h
    exact ⟨i.opcode, i.operands, h, i.length_operands, rfl, rfl⟩
  · rintro ⟨_, _, h, -, rfl, rfl⟩
    exact h

theorem exists_error_iff {line : List Char} :
    (∃ defect, parseLine line = .error defect) ↔
      ¬Blank line ∧ ¬∃ (op : Opcode) (names : List Name), Line line op.name names ∧ names.length = op.arity := by
  constructor
  · rintro ⟨defect, hdefect⟩
    constructor
    · intro hblank
      rw [parseLine_of_blank hblank] at hdefect
      contradiction
    · rintro ⟨op, names, hline, harity⟩
      obtain ⟨i, rfl, rfl⟩ := Instruction.exists_of_arity harity
      rw [parseLine_eq_some_iff.mpr hline] at hdefect
      contradiction
  · rintro ⟨hblank, hline⟩
    cases h : parseLine line with
    | error defect => exact ⟨defect, rfl⟩
    | ok found =>
      cases found with
      | none => exact absurd (parseLine_eq_none_iff.mp h) hblank
      | some i => exact absurd ⟨i.opcode, i.operands, parseLine_eq_some_iff.mp h, i.length_operands⟩ hline

theorem parseLine_accepts_grammar (line : List Char) :
    (∀ i, parseLine line = .ok (some i) ↔
      ∃ (op : Opcode) (names : List Name),
        Line line op.name names ∧ names.length = op.arity ∧ i.opcode = op ∧ i.operands = names) ∧
      (parseLine line = .ok none ↔ Blank line) ∧
      ((∃ defect, parseLine line = .error defect) ↔
        ¬Blank line ∧ ¬∃ (op : Opcode) (names : List Name), Line line op.name names ∧ names.length = op.arity) ∧
      (∀ defect, parseLine line = .error defect →
        ((∃ text, defect.message = "cannot parse `" ++ text ++ "`") ↔ ¬∃ op names, Line line op names)) ∧
      ∀ op op' names names', Line line op names → Line line op' names' → op = op' ∧ names = names' := by
  refine ⟨?_, parseLine_eq_none_iff, exists_error_iff, ?_, ?_⟩
  · intro i
    rw [parseLine_eq_some_iff, line_of_instruction_iff]
  · intro defect h
    rw [message_eq_iff, unreadable_iff h]
  · intro op op' names names' h h'
    exact h.unique h'

theorem parseLine_accepts_grammar_quotes :
    let line := " Swap\t(\"x#1\\\"\" ,y )# \"z".toList
    let unclosed := "Negate(\"x#1)".toList
    let defect := Defect.unreadable "Negate(\"x#1)"
    parseLine line = .ok (some (.swap "x#1\"" "y")) ∧ Line line "Swap" ["x#1\"", "y"] ∧
      Line line Opcode.swap.name ["x#1\"", "y"] ∧ "Swap" = Opcode.swap.name ∧
      parseLine unclosed = .error defect ∧ defect.message = "cannot parse `" ++ "Negate(\"x#1)" ++ "`" ∧
      ¬∃ op names, Line unclosed op names := by
  intro line unclosed defect
  obtain ⟨hsome, -, -, -, hunique⟩ := parseLine_accepts_grammar line
  obtain ⟨-, -, -, hmessage, -⟩ := parseLine_accepts_grammar unclosed
  have hstatement : (tokens (stripComment .outside line)).bind statement? = some ("Swap", ["x#1\"", "y"]) := by
    decide +kernel
  have hline : Line line "Swap" ["x#1\"", "y"] := line_iff.mpr (code_iff.mpr hstatement)
  have hswap : parseLine line = .ok (some (.swap "x#1\"" "y")) :=
    (hsome _).mpr ⟨.swap, ["x#1\"", "y"], hline, rfl, rfl, rfl⟩
  have hblank : ¬(stripComment .outside unclosed).all Text.isBlank = true := by decide
  have hnone : (tokens (stripComment .outside unclosed)).bind statement? = none := by decide +kernel
  have hdefect : parseLine unclosed = .error defect := by
    have htext : String.ofList (Text.trim (stripComment .outside unclosed)) = "Negate(\"x#1)" := by decide
    rw [parseLine, if_neg hblank, hnone, htext]
  have hnot := (hmessage defect hdefect).mp ⟨"Negate(\"x#1)", rfl⟩
  exact ⟨hswap, hline, hline, (hunique "Swap" Opcode.swap.name _ _ hline hline).1, hdefect, rfl, hnot⟩

end Assembly

end Reversible
