import Mathlib.Data.List.Nodup
import Reversible.Evaluator
import Reversible.Machine
import Reversible.Proofs.Entries

namespace Reversible

namespace Instruction

variable (f : Name → Name) (i : Instruction)

def rename : Instruction → Instruction
  | add a b => add (f a) (f b)
  | sub a b => sub (f a) (f b)
  | swap a b => swap (f a) (f b)
  | negate a => negate (f a)
  | noop => noop

@[simp] theorem opcode_rename : (i.rename f).opcode = i.opcode := by
  cases i <;> rfl

@[simp] theorem operands_rename : (i.rename f).operands = i.operands.map f := by
  cases i <;> rfl

@[simp] theorem rename_id : i.rename id = i := by
  cases i <;> rfl

end Instruction

namespace Program

def rename (f : Name → Name) (p : Program) : Program :=
  p.map (Instruction.rename f)

variable (f : Name → Name) (p : Program)

theorem rename_cons (i : Instruction) : rename f (i :: p) = i.rename f :: p.rename f := rfl

@[simp] theorem rename_id : p.rename id = p := by
  induction p with
  | nil => rfl
  | cons i p ih => rw [rename_cons, ih, Instruction.rename_id]

@[simp] theorem operands_rename : (p.rename f).operands = p.operands.map f := by
  induction p with
  | nil => rfl
  | cons i p ih =>
    simp only [operands] at ih ⊢
    rw [rename_cons, List.flatMap_cons, List.flatMap_cons, List.map_append, ih, Instruction.operands_rename]

end Program

namespace Fault

def rename (f : Name → Name) : Fault → Fault
  | unknownVariable n => unknownVariable (f n)
  | aliasedOperands op n => aliasedOperands op (f n)
  | missingOperand operand op => missingOperand operand op
  | unknownDomain name => unknownDomain name
  | unknownOperation d op => unknownOperation d op
  | unlinkedSequence => unlinkedSequence
  | outOfDomain d n v => outOfDomain d (f n) v

end Fault

def Action.renameOutcome {σ : Type} (f : Name → Name) (g : σ → σ) (x : Except Fault σ) : Except Fault σ :=
  (x.map g).mapError (Fault.rename f)

namespace State

def rename (f : Name → Name) (s : State) : State :=
  ofList (s.entries.map fun e => (f e.1, e.2))

variable {f : Name → Name} {s : State} {n : Name} {v : Value}

theorem value?_rename_eq_some_iff (hf : Function.Injective f) :
    (s.rename f).value? n = some v ↔ ∃ m, s.value? m = some v ∧ f m = n := by
  have hnames : (s.entries.map fun e => (f e.1, e.2)).map Prod.fst = (s.entries.map Prod.fst).map f := by
    rw [List.map_map, List.map_map]
    rfl
  have hnodup : ((s.entries.map fun e => (f e.1, e.2)).map Prod.fst).Nodup := by
    rw [hnames]
    exact s.nodup_names.map hf
  rw [rename, value?_ofList hnodup, List.mem_map]
  constructor
  · rintro ⟨⟨m, w⟩, hm, heq⟩
    cases heq
    exact ⟨m, mem_entries.mp hm, rfl⟩
  · rintro ⟨m, hm, rfl⟩
    exact ⟨(m, v), mem_entries.mpr hm, rfl⟩

theorem value?_rename (hf : Function.Injective f) (s : State) (n : Name) :
    (s.rename f).value? (f n) = s.value? n := by
  apply Option.ext
  intro v
  rw [value?_rename_eq_some_iff hf]
  constructor
  · rintro ⟨m, hm, heq⟩
    rwa [← hf heq]
  · intro hn
    exact ⟨n, hn, rfl⟩

theorem value?_rename_of_not_renamed (hf : Function.Injective f) (s : State) (hn : ∀ m, f m ≠ n) :
    (s.rename f).value? n = none := by
  rw [Option.eq_none_iff_forall_ne_some]
  intro v hv
  obtain ⟨m, -, hm⟩ := (value?_rename_eq_some_iff hf).mp hv
  exact hn m hm

theorem rename_insert (hf : Function.Injective f) (s : State) (n : Name) (v : Value) :
    (s.insert n v).rename f = (s.rename f).insert (f n) v := by
  apply ext_value?
  intro k
  by_cases hk : ∃ m, f m = k
  · obtain ⟨m, rfl⟩ := hk
    rw [value?_rename hf, value?_insert, value?_insert, value?_rename hf]
    simp only [hf.eq_iff]
  · have hm : ∀ m, f m ≠ k := not_exists.mp hk
    rw [value?_rename_of_not_renamed hf _ hm, value?_insert_of_ne _ _ (hm n),
      value?_rename_of_not_renamed hf _ hm]

end State

namespace Machine

def rename (f : Name → Name) (m : Machine) : Machine :=
  ⟨m.state.rename f, m.past.map (Instruction.rename f)⟩

end Machine

namespace Step

mutual

def rename (f : Name → Name) : Step → Step
  | ⟨d, op, t, ts, r, none⟩ => ⟨d, op, t.map f, ts.map (List.map f), r.map f, none⟩
  | ⟨d, op, t, ts, r, some ss⟩ => ⟨d, op, t.map f, ts.map (List.map f), r.map f, some (renameAll f ss)⟩
termination_by structural s => s

def renameAll (f : Name → Name) : List Step → List Step
  | [] => []
  | s :: ss => rename f s :: renameAll f ss
termination_by structural ss => ss

end

variable (f : Name → Name) (s : Step)

theorem renameAll_eq_map (ss : List Step) : renameAll f ss = ss.map (rename f) := by
  induction ss with
  | nil => rfl
  | cons s ss ih => rw [renameAll, ih, List.map_cons]

theorem rename_eq :
    s.rename f = ⟨s.domain, s.op, s.target.map f, s.targets.map (List.map f), s.result.map f,
      s.steps.map (List.map (rename f))⟩ := by
  obtain ⟨d, op, t, ts, r, ss⟩ := s
  cases ss with
  | none => rfl
  | some ss => rw [rename, renameAll_eq_map, Option.map_some]

theorem substeps_rename : (s.rename f).substeps = s.substeps.map (rename f) := by
  rw [rename_eq, substeps, substeps]
  cases s.steps with
  | none => rfl
  | some ss => rfl

@[simp] theorem rename_id : s.rename id = s := by
  induction s using Step.induction with
  | sequence s ih =>
    obtain ⟨d, op, t, ts, r, ss⟩ := s
    cases ss with
    | none => simp [rename_eq]
    | some ss =>
      have hss : ss.map (rename id) = ss := (List.map_congr_left ih).trans (List.map_id ss)
      simp [rename_eq, hss]

theorem requireTarget_rename : (s.rename f).requireTarget = s.requireTarget.map f := by
  rw [rename_eq, requireTarget, requireTarget]
  cases s.target with
  | none => rfl
  | some n => rfl

theorem requireTargetPair_rename : (s.rename f).requireTargetPair = s.requireTargetPair.map (Prod.map f f) := by
  rw [rename_eq, requireTargetPair, requireTargetPair]
  match s.targets with
  | none => rfl
  | some [] => rfl
  | some [_] => rfl
  | some (_ :: _ :: _) => rfl

theorem requireResult_rename : (s.rename f).requireResult = s.requireResult.map f := by
  rw [rename_eq, requireResult, requireResult]
  cases s.result with
  | none => rfl
  | some n => rfl

end Step

namespace Evaluator

theorem lookup_rename (e : Evaluator) (f : Name → Name) (s : Step) : e.lookup (s.rename f) = e.lookup s := by
  rw [Step.rename_eq]
  rfl

end Evaluator

namespace Puzzle

def rename (f : Name → Name) (p : Puzzle) : Puzzle :=
  { p with initial := p.initial.rename f, goal := p.goal.rename f, steps := p.steps.map (Step.rename f) }

end Puzzle

end Reversible
