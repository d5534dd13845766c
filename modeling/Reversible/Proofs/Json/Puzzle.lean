import Reversible.Proofs.Json.State
import Reversible.Proofs.Json.Step

namespace Reversible.Puzzle

variable {p : Puzzle} {initial goal : List (Name × Value)}

theorem reads_writtenWith (hinitial : initial.Perm p.initial.entries) (hgoal : goal.Perm p.goal.entries) (room : Nat) :
    Json.Reads room (reader room) (p.writtenWith initial goal) p := by
  -- Each key is met while its field is unset, so it is known and not refused as a second one.
  have hdomain : Json.Assembles (room - 1) (Json.member (fields (room - 1))) {} [("domain", Json.quoted p.domain)]
      { domain := some p.domain } :=
    .cons rfl ((Json.reads_string p.domain).bind_pure fun d => ({ domain := some d } : Draft)) (.nil _)
  have hstart := (State.reads_written hinitial (room - 1)).bind_pure fun s =>
    ({ domain := some p.domain, initial := some s } : Draft)
  have hend := (State.reads_written hgoal (room - 1)).bind_pure fun s =>
    ({ domain := some p.domain, initial := some p.initial, goal := some s } : Draft)
  have hsteps := (Step.reads_writtenAll p.steps (room - 1)).bind_pure fun ss =>
    ({ domain := some p.domain, initial := some p.initial, goal := some p.goal, steps := some ss } : Draft)
  exact Json.reads_record (hdomain.append (.cons rfl hstart (.cons rfl hend (.cons rfl hsteps (.nil _))))) rfl

theorem ofJson_of_perm (hinitial : initial.Perm p.initial.entries) (hgoal : goal.Perm p.goal.entries) :
    ofJson (String.ofList (p.writtenWith initial goal)) =
      if Json.nesting (p.writtenWith initial goal) ≤ 127 then .ok p else .error .malformed :=
  (reads_writtenWith hinitial hgoal Json.maxDepth).parse

theorem read_back_within_nesting :
    (∀ (p : Puzzle) (initial goal : List (Name × Value)),
      initial.Perm p.initial.entries → goal.Perm p.goal.entries →
        ofJson (String.ofList (p.writtenWith initial goal)) =
          if Json.nesting (p.writtenWith initial goal) ≤ 127 then .ok p else .error .malformed) ∧
      (∀ p : Puzzle, ofJson p.toJson =
        if Json.nesting (p.writtenWith p.initial.entries p.goal.entries) ≤ 127 then .ok p else .error .malformed) ∧
      ∀ s : Step, Step.ofJson s.toJson =
        if Json.nesting s.written ≤ 127 then .ok s else .error .malformed := by
  refine ⟨?_, ?_, ?_⟩
  · intro p initial goal hinitial hgoal
    exact ofJson_of_perm hinitial hgoal
  · intro p
    exact ofJson_of_perm (List.Perm.refl p.initial.entries) (List.Perm.refl p.goal.entries)
  · intro s
    exact (Step.reads_written s Json.maxDepth).parse

theorem read_back_within_nesting_reordered :
    let p : Puzzle :=
      { domain := "bool\"\t"
        initial := .ofList [("", 0), ("a\\", Int64.minValue)]
        goal := .ofList [("é", 1), ("a\\", Int64.maxValue)]
        steps := [{ op := "seq", targets := some [], steps := some [] }, { op := "not", target := some "" }] }
    let initial : List (Name × Value) := [("a\\", Int64.minValue), ("", 0)]
    let goal : List (Name × Value) := [("é", 1), ("a\\", Int64.maxValue)]
    let nested (n : Nat) : Step := Nat.repeat (fun s => { op := "seq", steps := some [s] }) n (.ofOp "not")
    initial.Perm p.initial.entries ∧ goal.Perm p.goal.entries ∧
      ofJson (String.ofList (p.writtenWith initial goal)) = .ok p ∧
      ofJson p.toJson = .ok p ∧
      Step.ofJson (nested 63).toJson = .ok (nested 63) ∧
      Step.ofJson (nested 64).toJson = .error .malformed := by
  intro p initial goal nested
  have hinitial : initial.Perm p.initial.entries := by decide +kernel
  have hgoal : goal.Perm p.goal.entries := by decide +kernel
  obtain ⟨hordered, htext, hstep⟩ := read_back_within_nesting
  have hpuzzle := hordered p initial goal hinitial hgoal
  refine ⟨hinitial, hgoal, hpuzzle.trans (if_pos ?_), (htext p).trans (if_pos ?_), ?_, ?_⟩
  · decide +kernel
  · decide +kernel
  · have hnesting := Step.nesting_written_repeat "seq" "not" 63
    exact (hstep (nested 63)).trans (if_pos (Nat.le_of_eq hnesting))
  · have hnesting := Step.nesting_written_repeat "seq" "not" 64
    exact (hstep (nested 64)).trans (if_neg (by rw [hnesting]; decide))

end Reversible.Puzzle
