import Reversible.Machine
import Reversible.Proofs.Execution

namespace Reversible.Machine

theorem run_of_ok {i : Instruction} {m : Machine} {s : State} (h : i.execute m.state = .ok () s) :
    run i m = .ok () ⟨s, i :: m.past⟩ := by
  simp only [run, h]

theorem run_of_error {i : Instruction} {m : Machine} {s : State} {fault : Fault}
    (h : i.execute m.state = .error fault s) : run i m = .error fault m := by
  simp only [run, h, Instruction.eq_of_execute_error h]

theorem undo_nil (s : State) : undo ⟨s, []⟩ = .ok none ⟨s, []⟩ := rfl

theorem undo_cons {i : Instruction} {s t : State} (past : List Instruction) (h : i.execute s = .ok () t) :
    undo ⟨t, i :: past⟩ = .ok (some i) ⟨s, past⟩ := by
  have hi : i.invert t = .ok () s := Instruction.execute_inverse_iff.mpr h
  simp only [undo, hi]

theorem undoUpTo_length (latest past : List Instruction) {s t : State}
    (h : Program.execute latest.reverse s = .ok () t) :
    undoUpTo latest.length ⟨t, latest ++ past⟩ = .ok latest.length ⟨s, past⟩ := by
  induction latest generalizing t with
  | nil =>
    obtain rfl := Program.execute_nil_eq_ok_iff.mp h
    rfl
  | cons i latest ih =>
    rw [List.reverse_cons, Program.execute_snoc_eq_ok_iff] at h
    obtain ⟨u, hu, hi⟩ := h
    have hundo := undo_cons (latest ++ past) hi
    simp only [List.length_cons, List.cons_append, undoUpTo, bind_of_ok hundo]
    rw [bind_of_ok (ih hu)]
    rfl

theorem rewind_eq_loop :
    rewind = do
      match ← undo with
      | none => pure 0
      | some _ => return (← rewind) + 1 := by
  funext m
  obtain ⟨s, past⟩ := m
  cases past with
  | nil => rfl
  | cons i past =>
    simp only [rewind, depth, List.length_cons, undoUpTo]
    cases h : i.invert s with
    | ok _ t =>
      have hundo : undo ⟨s, i :: past⟩ = .ok (some i) ⟨t, past⟩ := by simp only [undo, h]
      rw [bind_of_ok hundo, bind_of_ok hundo]
      rfl
    | error fault t =>
      have hundo : undo ⟨s, i :: past⟩ = .error fault ⟨t, i :: past⟩ := by simp only [undo, h]
      rw [bind_of_error hundo, bind_of_error hundo]

theorem runFrom_eq (latest past : List Instruction) (p : Program) {s t : State}
    (h : Program.execute latest.reverse s = .ok () t) :
    runFrom latest.length p ⟨t, latest ++ past⟩ =
      match p.execute t with
      | .ok () u => .ok () ⟨u, p.reverse ++ (latest ++ past)⟩
      | .error fault _ => .error fault ⟨s, past⟩ := by
  induction p generalizing latest t with
  | nil => rfl
  | cons i p ih =>
    cases hi : i.execute t with
    | ok _ u =>
      have hrun : run i ⟨t, latest ++ past⟩ = .ok () ⟨u, i :: latest ++ past⟩ := run_of_ok hi
      have hp : Program.execute (i :: p) t = Program.execute p u := bind_of_ok hi
      have hlatest : Program.execute (i :: latest).reverse s = .ok () u := by
        rw [List.reverse_cons, Program.execute_snoc_eq_ok_iff]
        exact ⟨t, h, hi⟩
      simp only [runFrom, hrun, hp]
      rw [← List.length_cons (a := i), ih (i :: latest) hlatest]
      simp
    | error fault u =>
      have hrun : run i ⟨t, latest ++ past⟩ = .error fault ⟨t, latest ++ past⟩ := run_of_error hi
      have hp : Program.execute (i :: p) t = .error fault u := bind_of_error hi
      simp only [runFrom, hrun, hp, undoUpTo_length latest past h]

theorem runAll_eq (m : Machine) (p : Program) :
    runAll p m =
      match p.execute m.state with
      | .ok () s => .ok () ⟨s, p.reverse ++ m.past⟩
      | .error fault _ => .error fault m :=
  runFrom_eq [] m.past p (Program.execute_nil_eq_ok_iff.mpr rfl)

theorem runAll_all_or_nothing (m : Machine) (p : Program) :
    (∀ s, p.execute m.state = .ok () s →
      ∃ m', runAll p m = .ok () m' ∧ m'.state = s ∧ m'.history = m.history ++ p) ∧
      (∀ j fault, p.FailsAt m.state j fault → runAll p m = .error fault m) ∧
      ((∃ s, p.execute m.state = .ok () s) ∨ ∃ j fault, p.FailsAt m.state j fault) := by
  rw [runAll_eq]
  refine ⟨?_, ?_, ?_⟩
  · intro s h
    exact ⟨⟨s, p.reverse ++ m.past⟩, by rw [h], rfl, by simp [history]⟩
  · intro j fault h
    obtain ⟨t, ht⟩ := h.execute_eq_error
    rw [ht]
  · cases h : p.execute m.state with
    | ok _ s => exact .inl ⟨s, rfl⟩
    | error fault t =>
      obtain ⟨j, hj⟩ := Program.failsAt_of_execute_error h
      exact .inr ⟨j, fault, hj⟩

theorem runAll_to_the_end_and_rolled_back :
    let m : Machine := ⟨State.ofList [("a", 3), ("b", 4)], [.negate "b"]⟩
    let p : Program := [.add "a" "b"]
    let q : Program := [.add "a" "b", .swap "b" "a", .sub "a" "a"]
    (p.execute m.state = .ok () (State.ofList [("a", 7), ("b", 4)]) ∧
      ∃ m', runAll p m = .ok () m' ∧ m'.state = State.ofList [("a", 7), ("b", 4)] ∧ m'.history = m.history ++ p) ∧
      q.FailsAt m.state 2 (.aliasedOperands .sub "a") ∧ runAll q m = .error (.aliasedOperands .sub "a") m := by
  intro m p q
  have hp : p.execute m.state = .ok () (State.ofList [("a", 7), ("b", 4)]) := by decide
  have hq : q.FailsAt m.state 2 (.aliasedOperands .sub "a") :=
    ⟨.sub "a" "a", State.ofList [("a", 4), ("b", 7)], State.ofList [("a", 4), ("b", 7)], rfl, by decide, by decide⟩
  exact ⟨⟨hp, (runAll_all_or_nothing m p).1 _ hp⟩, hq, (runAll_all_or_nothing m q).2.1 2 _ hq⟩

def Replays (s : State) (m : Machine) : Prop :=
  m.history.execute s = .ok () m.state

theorem replays_start (s : State) : Replays s { state := s } :=
  Program.execute_nil_eq_ok_iff.mpr rfl

theorem replays_cons_iff {i : Instruction} {s t : State} {past : List Instruction} :
    Replays s ⟨t, i :: past⟩ ↔ ∃ u, Replays s ⟨u, past⟩ ∧ i.execute u = .ok () t := by
  simp only [Replays, history, List.reverse_cons, Program.execute_snoc_eq_ok_iff]

inductive Call where
  | run (i : Instruction)
  | runAll (p : Program)
  | undo
  | rewind

def Call.perform : Call → Machine → Machine
  | .run i => leaves (Machine.run i)
  | .runAll p => leaves (Machine.runAll p)
  | .undo => leaves Machine.undo
  | .rewind => leaves Machine.rewind

def performAll (calls : List Call) (m : Machine) : Machine :=
  calls.foldl (fun m call => call.perform m) m

theorem Replays.run {s : State} {m : Machine} (h : Replays s m) (i : Instruction) :
    Replays s (leaves (Machine.run i) m) := by
  cases hi : i.execute m.state with
  | ok _ t =>
    rw [leaves_of_ok (run_of_ok hi)]
    exact replays_cons_iff.mpr ⟨m.state, h, hi⟩
  | error fault t =>
    rw [leaves_of_error (run_of_error hi)]
    exact h

theorem Replays.runAll {s : State} {m : Machine} (h : Replays s m) (p : Program) :
    Replays s (leaves (Machine.runAll p) m) := by
  have hrun := runAll_eq m p
  cases hp : p.execute m.state with
  | ok _ t =>
    rw [hp] at hrun
    rw [leaves_of_ok hrun]
    simp only [Replays, history, List.reverse_append, List.reverse_reverse]
    exact Program.execute_append_eq_ok_iff.mpr ⟨m.state, h, hp⟩
  | error fault t =>
    rw [hp] at hrun
    rw [leaves_of_error hrun]
    exact h

theorem Replays.undo_eq {s : State} {m : Machine} (h : Replays s m) :
    ∃ m', undo m = .ok m.history.getLast? m' ∧ m'.history = m.history.dropLast ∧ Replays s m' := by
  obtain ⟨t, past⟩ := m
  cases past with
  | nil => exact ⟨⟨t, []⟩, undo_nil t, rfl, h⟩
  | cons i past =>
    obtain ⟨u, hu, hi⟩ := replays_cons_iff.mp h
    refine ⟨⟨u, past⟩, ?_, ?_, hu⟩
    · simpa [history] using undo_cons past hi
    · simp [history]

theorem Replays.undo {s : State} {m : Machine} (h : Replays s m) : Replays s (leaves Machine.undo m) := by
  obtain ⟨m', hundo, -, hm'⟩ := h.undo_eq
  rw [leaves_of_ok hundo]
  exact hm'

theorem Replays.rewind_eq {s : State} {m : Machine} (h : Replays s m) :
    rewind m = .ok m.depth { state := s } := by
  have hundo := undoUpTo_length m.past [] h
  rw [List.append_nil] at hundo
  exact hundo

theorem Replays.rewind {s : State} {m : Machine} (h : Replays s m) : Replays s (leaves Machine.rewind m) := by
  rw [leaves_of_ok h.rewind_eq]
  exact replays_start s

theorem Replays.perform {s : State} {m : Machine} (h : Replays s m) (call : Call) : Replays s (call.perform m) := by
  cases call with
  | run i => exact h.run i
  | runAll p => exact h.runAll p
  | undo => exact h.undo
  | rewind => exact h.rewind

theorem Replays.performAll {s : State} {m : Machine} (h : Replays s m) (calls : List Call) :
    Replays s (performAll calls m) := by
  induction calls generalizing m with
  | nil => exact h
  | cons call calls ih => exact ih (h.perform call)

theorem history_replays (s : State) (calls : List Call) :
    let m := performAll calls { state := s }
    m.history.execute s = .ok () m.state ∧
      (∃ m', undo m = .ok m.history.getLast? m' ∧ m'.history = m.history.dropLast ∧
        m'.history.execute s = .ok () m'.state) ∧
      rewind m = .ok m.depth { state := s } := by
  intro m
  have h : Replays s m := (replays_start s).performAll calls
  exact ⟨h, h.undo_eq, h.rewind_eq⟩

end Reversible.Machine
