import Reversible.Proofs.Assembly.Line

namespace Reversible.Assembly

open Grammar

theorem content_escaped (c : Char) {cs name : List Char} (h : Content cs name) :
    Content (escaped c ++ cs) (c :: name) := by
  fun_cases escaped c with
  | case1 hc =>
    rw [hc]
    exact .escape .backslash h
  | case2 _ hc =>
    rw [hc]
    exact .escape .quote h
  | case3 _ _ hc =>
    rw [hc]
    exact .escape .lineFeed h
  | case4 _ _ _ hc =>
    rw [hc]
    exact .escape .carriageReturn h
  | case5 _ _ _ _ hc =>
    rw [hc]
    exact .escape .tab h
  | case6 hescape hquote => exact .plain hescape hquote h

theorem content_flatMap_escaped (name : List Char) : Content (name.flatMap escaped) name := by
  induction name with
  | nil => exact .nil
  | cons c name ih => exact content_escaped c ih

theorem not_lineBreak_of_mem_escaped {c d : Char} (h : d ∈ escaped c) : d ≠ '\n' ∧ d ≠ '\r' := by
  revert h
  fun_cases escaped c with
  | case6 _ _ hfeed hreturn =>
    intro h
    obtain rfl := List.mem_singleton.mp h
    exact ⟨hfeed, hreturn⟩
  | _ =>
    intro h
    simp only [List.mem_cons, List.not_mem_nil, or_false] at h
    obtain rfl | rfl := h <;> decide

theorem identifier_of_isIdentifier {n : Name} (h : isIdentifier n.toList = true) : Identifier n.toList n := by
  cases hn : n.toList with
  | nil =>
    rw [hn] at h
    contradiction
  | cons c word =>
    rw [hn, isIdentifier, Bool.and_eq_true, List.all_eq_true] at h
    have hidentifier : Identifier (c :: word) (String.ofList (c :: word)) := by
      refine .mk (letter_iff.mpr h.1) ?_
      intro d hd
      exact letter_or_digit_iff.mpr (h.2 d hd)
    rwa [← hn, String.ofList_toList, hn] at hidentifier

theorem operand_of_isIdentifier {n : Name} (h : isIdentifier n.toList = true) : operand n = n.toList := by
  rw [operand, if_pos h]

theorem operand_of_not_isIdentifier {n : Name} (h : isIdentifier n.toList = false) :
    operand n = '"' :: (n.toList.flatMap escaped ++ ['"']) := by
  rw [operand, if_neg (by simp [h])]
  rfl

theorem derives_operand (n : Name) : Operand (operand n) n := by
  cases hn : isIdentifier n.toList with
  | true =>
    rw [operand_of_isIdentifier hn]
    exact .bare (identifier_of_isIdentifier hn)
  | false =>
    have hquoted := Operand.quoted (content_flatMap_escaped n.toList)
    rwa [String.ofList_toList, ← operand_of_not_isIdentifier hn] at hquoted

theorem not_lineBreak_of_mem_operand {n : Name} {c : Char} (h : c ∈ operand n) : c ≠ '\n' ∧ c ≠ '\r' := by
  cases hn : isIdentifier n.toList with
  | true =>
    rw [operand_of_isIdentifier hn] at h
    have hc := isWordChar_of_mem_identifier (identifier_of_isIdentifier hn) h
    exact ⟨ne_of_isWordChar hc (by decide), ne_of_isWordChar hc (by decide)⟩
  | false =>
    rw [operand_of_not_isIdentifier hn] at h
    simp only [List.mem_cons, List.mem_append, List.mem_flatMap, List.not_mem_nil, or_false] at h
    obtain rfl | ⟨d, -, hc⟩ | rfl := h
    · decide
    · exact not_lineBreak_of_mem_escaped hc
    · decide

theorem isIdentifier_opcodeName (op : Opcode) : isIdentifier op.name.toList = true := by
  cases op <;> decide

def operands (names : List Name) : List Char :=
  [',', ' '].intercalate (names.map operand)

theorem operands_singleton (n : Name) : operands [n] = operand n := by
  simp [operands]

theorem operands_cons_cons (n m : Name) (names : List Name) :
    operands (n :: m :: names) = operand n ++ ',' :: ' ' :: operands (m :: names) := by
  simp [operands]

theorem derives_operands (n : Name) (names : List Name) : Operands (operands (n :: names)) (n :: names) := by
  induction names generalizing n with
  | nil =>
    rw [operands_singleton]
    exact .single (derives_operand n)
  | cons m names ih =>
    have hspace : Spaces [' '] := by
      intro c hc
      exact .inl (List.mem_singleton.mp hc)
    rw [operands_cons_cons]
    exact .cons (derives_operand n) spaces_nil hspace (ih m)

theorem not_lineBreak_of_mem_operands {n : Name} {names : List Name} {c : Char} (h : c ∈ operands (n :: names)) :
    c ≠ '\n' ∧ c ≠ '\r' := by
  induction names generalizing n with
  | nil =>
    rw [operands_singleton] at h
    exact not_lineBreak_of_mem_operand h
  | cons m names ih =>
    rw [operands_cons_cons, List.mem_append, List.mem_cons, List.mem_cons] at h
    obtain h | rfl | rfl | h := h
    · exact not_lineBreak_of_mem_operand h
    · decide
    · decide
    · exact ih h

theorem instruction_of_nil {i : Instruction} (h : i.operands = []) : instruction i = i.opcode.name.toList := by
  rw [instruction, h]

theorem instruction_of_cons {i : Instruction} {n : Name} {names : List Name} (h : i.operands = n :: names) :
    instruction i = i.opcode.name.toList ++ '(' :: (operands (n :: names) ++ [')']) := by
  rw [instruction, h]
  simp [operands]

theorem derives_instruction (i : Instruction) : Code (instruction i) i.opcode.name i.operands := by
  have hop := identifier_of_isIdentifier (isIdentifier_opcodeName i.opcode)
  cases hi : i.operands with
  | nil =>
    have hcode := Code.bare spaces_nil hop spaces_nil
    rwa [List.nil_append, List.append_nil, ← instruction_of_nil hi] at hcode
  | cons n names =>
    have harguments := Arguments.operands spaces_nil (derives_operands n names) spaces_nil
    have hcode := Code.applied spaces_nil hop spaces_nil harguments spaces_nil
    rwa [List.nil_append, List.nil_append, List.nil_append, List.nil_append, List.append_nil,
      ← instruction_of_cons hi] at hcode

theorem not_lineBreak_of_mem_instruction {i : Instruction} {c : Char} (h : c ∈ instruction i) :
    c ≠ '\n' ∧ c ≠ '\r' := by
  have hname : ∀ c ∈ i.opcode.name.toList, c ≠ '\n' ∧ c ≠ '\r' := by
    intro c hc
    rw [← operand_of_isIdentifier (isIdentifier_opcodeName i.opcode)] at hc
    exact not_lineBreak_of_mem_operand hc
  cases hi : i.operands with
  | nil =>
    rw [instruction_of_nil hi] at h
    exact hname c h
  | cons n names =>
    rw [instruction_of_cons hi, List.mem_append, List.mem_cons, List.mem_append, List.mem_singleton] at h
    obtain h | rfl | h | rfl := h
    · exact hname c h
    · decide
    · exact not_lineBreak_of_mem_operands h
    · decide

theorem instruction_not_blank (i : Instruction) : (instruction i).all Text.isBlank = false :=
  (derives_instruction i).not_blank

theorem parseLine_instruction (i : Instruction) : parseLine (instruction i) = .ok (some i) :=
  parseLine_eq_some_iff.mpr (.code (derives_instruction i))

theorem lines_append {line : List Char} (h : ∀ c ∈ line, c ≠ '\n' ∧ c ≠ '\r') (rest : List Char) :
    Text.lines (line ++ '\n' :: rest) = line :: Text.lines rest := by
  induction line with
  | nil => simp [Text.lines]
  | cons c line ih =>
    obtain ⟨hfeed, hreturn⟩ := h c List.mem_cons_self
    have hline := ih fun d hd => h d (List.mem_cons_of_mem c hd)
    simp [Text.lines, hreturn, hline]

theorem lines_flatMap_instruction (p : Program) :
    Text.lines (p.flatMap fun i => instruction i ++ ['\n']) = p.map instruction := by
  induction p with
  | nil => rfl
  | cons i p ih =>
    have hline : ∀ c ∈ instruction i, c ≠ '\n' ∧ c ≠ '\r' := fun c hc => not_lineBreak_of_mem_instruction hc
    rw [List.flatMap_cons, List.append_assoc, List.singleton_append, lines_append hline, ih, List.map_cons]

theorem lines_print (p : Program) : Text.lines (print p).toList = p.map instruction := by
  rw [print, String.toList_ofList, lines_flatMap_instruction]

theorem parseLines_map_instruction (number : Nat) (p : Program) : parseLines number (p.map instruction) = .ok p := by
  induction p generalizing number with
  | nil => rfl
  | cons i p ih =>
    rw [List.map_cons, parseLines, parseLine_instruction, ih]
    rfl

theorem parse_print (p : Program) :
    parse (print p) = .ok p ∧ Text.lines (print p).toList = p.map instruction ∧
      ∀ line ∈ Text.lines (print p).toList, line.all Text.isBlank = false := by
  refine ⟨?_, lines_print p, ?_⟩
  · rw [parse, lines_print, parseLines_map_instruction]
  · intro line hline
    rw [lines_print] at hline
    obtain ⟨i, -, rfl⟩ := List.mem_map.mp hline
    exact instruction_not_blank i

end Reversible.Assembly
