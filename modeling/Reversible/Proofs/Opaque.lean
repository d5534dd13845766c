import Mathlib.Logic.Equiv.Basic
import Reversible.Proofs.Equality
import Reversible.Proofs.History

namespace Reversible

open Reversible.Action

namespace Fault

theorem rename_of_about? {f : Name → Name} {fault : Fault} (h : fault.about? = none) : fault.rename f = fault := by
  cases fault with
  | unknownVariable n => cases h
  | aliasedOperands op n => cases h
  | outOfDomain d n v => cases h
  | missingOperand operand op => rfl
  | unknownDomain name => rfl
  | unknownOperation d op => rfl
  | unlinkedSequence => rfl

def Renamed (f : Name → Name) (g g' : Fault) : Prop :=
  g' = g.rename f

end Fault

namespace State

def Renamed (f : Name → Name) (s s' : State) : Prop :=
  s' = s.rename f

variable {f : Name → Name} (hf : Function.Injective f)

include hf

theorem parallel_read (n : Name) : Parallel (Renamed f) (Fault.Renamed f) Eq (read n) (read (f n)) := by
  rintro s _ rfl
  unfold read
  rw [value?_rename hf]
  cases s.value? n with
  | none => exact .error rfl
  | some v => exact .ok rfl rfl

theorem parallel_write (n : Name) (v : Value) :
    Parallel (Renamed f) (Fault.Renamed f) Eq (write n v) (write (f n) v) := by
  rintro s _ rfl
  unfold write
  rw [value?_rename hf]
  cases s.value? n with
  | none => exact .error rfl
  | some w => exact .ok rfl (rename_insert hf s n v).symm

theorem valueOrZero_rename (s : State) (n : Name) : (s.rename f).valueOrZero (f n) = s.valueOrZero n := by
  rw [valueOrZero, valueOrZero, value?_rename hf]

theorem agrees_rename (s t : State) : (s.rename f).agrees (t.rename f) = s.agrees t := by
  rw [Bool.eq_iff_iff, agrees_iff, agrees_iff]
  constructor
  · intro h n
    rw [← valueOrZero_rename hf s, ← valueOrZero_rename hf t]
    exact h (f n)
  · intro h k
    by_cases hk : ∃ n, f n = k
    · obtain ⟨n, rfl⟩ := hk
      rw [valueOrZero_rename hf, valueOrZero_rename hf]
      exact h n
    · -- A name that the map does not give is in neither state.
      have hn : ∀ n, f n ≠ k := not_exists.mp hk
      rw [valueOrZero, valueOrZero, value?_rename_of_not_renamed hf s hn, value?_rename_of_not_renamed hf t hn]

end State

namespace Action

theorem result_of_alike {f : Name → Name} {g : State → State} {act act' : Action State Unit} {s s' : State}
    (h : Alike (fun t t' => t' = g t) (Fault.Renamed f) Eq (act s) (act' s')) :
    act'.result s' = renameOutcome f g (act.result s) := by
  unfold result
  revert h
  generalize act s = x
  generalize act' s' = y
  rintro (⟨-, rfl⟩ | ⟨rfl⟩)
  · rfl
  · rfl

end Action

namespace Instruction

variable {f : Name → Name} (hf : Function.Injective f)

include hf

theorem parallel_distinct (op : Opcode) (a b : Name) :
    Parallel (State.Renamed f) (Fault.Renamed f) Eq (distinct op a b) (distinct op (f a) (f b)) := by
  unfold distinct
  simp only [hf.eq_iff]
  split
  · exact parallel_throw rfl
  · exact parallel_pure rfl

theorem parallel_combine (op : Opcode) (g : Value → Value → Value) (a b : Name) :
    Parallel (State.Renamed f) (Fault.Renamed f) Eq (combine op g a b) (combine op g (f a) (f b)) := by
  apply (parallel_distinct hf op a b).bind
  intro _ _ _
  apply (State.parallel_read hf a).bind
  rintro x _ rfl
  apply (State.parallel_read hf b).bind
  rintro y _ rfl
  exact State.parallel_write hf a (g x y)

theorem parallel_execute (i : Instruction) :
    Parallel (State.Renamed f) (Fault.Renamed f) Eq i.execute (i.rename f).execute := by
  cases i with
  | add a b => exact parallel_combine hf .add _ a b
  | sub a b => exact parallel_combine hf .sub _ a b
  | swap a b =>
    apply (State.parallel_read hf a).bind
    rintro x _ rfl
    apply (State.parallel_read hf b).bind
    rintro y _ rfl
    apply (State.parallel_write hf a y).bind
    intro _ _ _
    exact State.parallel_write hf b x
  | negate a =>
    apply (State.parallel_read hf a).bind
    rintro x _ rfl
    exact State.parallel_write hf a (-x)
  | noop => exact parallel_pure rfl

end Instruction

namespace Program

variable {f : Name → Name} (hf : Function.Injective f)

include hf

theorem parallel_execute (p : Program) :
    Parallel (State.Renamed f) (Fault.Renamed f) Eq p.execute (p.rename f).execute := by
  induction p with
  | nil => exact parallel_pure rfl
  | cons i p ih =>
    rw [rename_cons, execute, execute]
    apply (Instruction.parallel_execute hf i).bind
    intro _ _ _
    exact ih

theorem result_execute_rename (p : Program) (s : State) :
    (p.rename f).execute.result (s.rename f) = renameOutcome f (State.rename f) (p.execute.result s) :=
  result_of_alike (parallel_execute hf p s _ rfl)

end Program

namespace Gate

variable {f : Name → Name}

theorem congruent_renamed : Congruent (Fault.Renamed f) Eq := by
  refine ⟨?_, congruent_eq.negate, congruent_eq.sum⟩
  intro g hg
  exact (Fault.rename_of_about? hg).symm

theorem respects_renamed (hf : Function.Injective f) (n : Name) :
    Respects (State.Renamed f) (Fault.Renamed f) Eq n (f n) := by
  constructor
  · apply (State.parallel_read hf n).bind
    rintro v _ rfl
    split
    · exact parallel_pure rfl
    · exact parallel_throw rfl
  · rintro b _ rfl
    exact State.parallel_write hf n _

end Gate

namespace Evaluator

variable {f : Name → Name} (hf : Function.Injective f)

include hf

theorem parallel_renamed (e : Evaluator) (t : Step) :
    Parallel (State.Renamed f) (Fault.Renamed f) Eq (e.evaluate t) (e.evaluate (t.rename f)) := by
  apply parallel_evaluate_rename Gate.congruent_renamed
  intro n _
  exact Gate.respects_renamed hf n

theorem result_evaluate_rename (e : Evaluator) (t : Step) (s : State) :
    (e.evaluate (t.rename f)).result (s.rename f) = renameOutcome f (State.rename f) ((e.evaluate t).result s) :=
  result_of_alike (parallel_renamed hf e t s _ rfl)

theorem result_evaluateAll_rename (e : Evaluator) (ts : List Step) (s : State) :
    (e.evaluateAll (ts.map (Step.rename f))).result (s.rename f) =
      renameOutcome f (State.rename f) ((e.evaluateAll ts).result s) := by
  have hall : Parallel (State.Renamed f) (Fault.Renamed f) Eq (e.evaluateAll ts)
      (e.evaluateAll (ts.map (Step.rename f))) :=
    parallel_evaluateAll fun t _ => parallel_renamed hf e t
  exact result_of_alike (hall s _ rfl)

end Evaluator

namespace Machine

theorem result_runAll (p : Program) (m : Machine) :
    (runAll p).result m = (p.execute.result m.state).map fun s => ⟨s, p.reverse ++ m.past⟩ := by
  rw [result, runAll_eq, result]
  cases p.execute m.state with
  | ok _ s => rfl
  | error fault s => rfl

theorem result_runAll_rename {f : Name → Name} (hf : Function.Injective f) (p : Program) (m : Machine) :
    (runAll (p.rename f)).result (m.rename f) = renameOutcome f (Machine.rename f) ((runAll p).result m) := by
  have hpast : (p.rename f).reverse ++ (m.rename f).past = (p.reverse ++ m.past).map (Instruction.rename f) := by
    rw [List.map_append, List.map_reverse]
    rfl
  rw [result_runAll, result_runAll, hpast]
  change ((p.rename f).execute.result (m.state.rename f)).map _ = _
  rw [Program.result_execute_rename hf]
  cases p.execute.result m.state with
  | ok s => rfl
  | error fault => rfl

end Machine

namespace Puzzle

theorem about?_of_evaluator {p : Puzzle} {fault : Fault} (h : p.evaluator = .error fault) : fault.about? = none := by
  unfold evaluator Evaluator.ofName at h
  cases hd : Domain.parse p.domain with
  | ok d =>
    rw [hd] at h
    cases h
  | error g =>
    rw [hd] at h
    cases h
    exact Domain.about?_of_parse hd

variable {f : Name → Name} (hf : Function.Injective f)

include hf

theorem play_rename (p : Puzzle) : (p.rename f).play = renameOutcome f (State.rename f) p.play := by
  have hevaluator : (p.rename f).evaluator = p.evaluator := rfl
  cases he : p.evaluator with
  | ok e =>
    rw [play_eq_result he, play_eq_result (hevaluator.trans he)]
    exact Evaluator.result_evaluateAll_rename hf e p.steps p.initial
  | error fault =>
    have hplay : p.play = .error fault := by
      rw [play, he]
      rfl
    have hplay' : (p.rename f).play = .error fault := by
      rw [play, hevaluator, he]
      rfl
    rw [hplay, hplay', renameOutcome, Except.map, Except.mapError, Fault.rename_of_about? (about?_of_evaluator he)]

theorem check_rename (p : Puzzle) : (p.rename f).check = p.check.mapError (Fault.rename f) := by
  rw [check, check, play_rename hf]
  cases p.play with
  | ok s =>
    have hsolved : (p.rename f).isSolved (s.rename f) = p.isSolved s := State.agrees_rename hf s p.goal
    change Except.ok _ = Except.ok _
    rw [hsolved]
  | error fault => rfl

end Puzzle

theorem runs_rename (f : Name → Name) (hf : Function.Injective f) :
    (∀ (p : Program) (s : State),
      (p.rename f).execute.result (s.rename f) = renameOutcome f (State.rename f) (p.execute.result s)) ∧
      (∀ (p : Program) (m : Machine),
        (Machine.runAll (p.rename f)).result (m.rename f) =
          renameOutcome f (Machine.rename f) ((Machine.runAll p).result m)) ∧
      (∀ (e : Evaluator) (t : Step) (s : State),
        (e.evaluate (t.rename f)).result (s.rename f) = renameOutcome f (State.rename f) ((e.evaluate t).result s)) ∧
      (∀ p : Puzzle, (p.rename f).play = renameOutcome f (State.rename f) p.play) ∧
      ∀ p : Puzzle, (p.rename f).check = p.check.mapError (Fault.rename f) := by
  refine ⟨?_, ?_, ?_, ?_, ?_⟩
  · intro p s
    exact Program.result_execute_rename hf p s
  · intro p m
    exact Machine.result_runAll_rename hf p m
  · intro e t s
    exact Evaluator.result_evaluate_rename hf e t s
  · intro p
    exact Puzzle.play_rename hf p
  · intro p
    exact Puzzle.check_rename hf p

theorem runs_rename_to_seq :
    let f : Name → Name := fun n => if n = "a" then "seq" else if n = "seq" then "a" else n
    let p : Program := [.swap "a" "b", .add "a" "a"]
    let s := State.ofList [("a", 1), ("b", 0)]
    let e : Evaluator := { defaultDomain := .binary }
    let t := (Step.ofOp "seq").withSteps [(Step.ofOp "flip").withTarget "b", (Step.ofOp "flip").withTarget "a"]
    let u := s.insert "a" 7
    let q : Puzzle :=
      { domain := "binary", initial := s, goal := State.create ["b"] 1,
        steps := [(Step.ofOp "swap").withTargets ["b", "a"]] }
    Function.Injective f ∧
      (p.rename f).execute.result (s.rename f) = .error (.aliasedOperands .add "seq") ∧
      (e.evaluate (t.rename f)).result (u.rename f) = .error (.outOfDomain .binary "seq" 7) ∧
      q.check = .ok true ∧ (q.rename f).check = .ok true := by
  intro f p s e t u q
  have hf : Function.Injective f := (Equiv.swap "a" "seq").injective
  obtain ⟨hprogram, -, htree, -, hcheck⟩ := runs_rename f hf
  have hp : p.execute.result s = .error (.aliasedOperands .add "a") := by rfl
  have ht : (e.evaluate t).result u = .error (.outOfDomain .binary "a" 7) := by rfl
  have hq : q.check = .ok true := by rfl
  refine ⟨hf, ?_, ?_, hq, ?_⟩
  · rw [hprogram, hp]
    rfl
  · rw [htree, ht]
    rfl
  · rw [hcheck, hq]
    rfl

end Reversible
