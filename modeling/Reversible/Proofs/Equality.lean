import Reversible.Proofs.Execution
import Reversible.Proofs.Locality

namespace Reversible

open Reversible.Action

namespace State

variable {s t u : State} {n : Name} {v w : Value}

theorem valueOrZero_of_value? (h : s.value? n = some v) : s.valueOrZero n = v := by
  rw [valueOrZero, h, Option.getD_some]

theorem valueOrZero_insert (s : State) (n m : Name) (v : Value) :
    (s.insert n v).valueOrZero m = if n = m then v else s.valueOrZero m := by
  unfold valueOrZero
  rw [value?_insert]
  split
  · rfl
  · rfl

theorem agrees_iff : s.agrees t = true ↔ ∀ n, s.valueOrZero n = t.valueOrZero n := by
  simp only [agrees, List.all_eq_true, List.mem_append, decide_eq_true_eq]
  constructor
  · intro h n
    by_cases hn : n ∈ s.names ∨ n ∈ t.names
    · exact h n hn
    · -- A name of neither holds 0 in both.
      simp only [not_or, mem_names, Bool.not_eq_true, Option.isSome_eq_false_iff, Option.isNone_iff_eq_none] at hn
      rw [valueOrZero, valueOrZero, hn.1, hn.2]
  · intro h n _
    exact h n

theorem agrees_refl (s : State) : s.agrees s = true :=
  agrees_iff.mpr fun _ => rfl

theorem agrees_symm (h : s.agrees t = true) : t.agrees s = true :=
  agrees_iff.mpr fun n => (agrees_iff.mp h n).symm

theorem agrees_trans (hst : s.agrees t = true) (htu : t.agrees u = true) : s.agrees u = true :=
  agrees_iff.mpr fun n => (agrees_iff.mp hst n).trans (agrees_iff.mp htu n)

theorem agrees_insert (h : s.agrees t = true) (n : Name) (v : Value) :
    (s.insert n v).agrees (t.insert n v) = true := by
  rw [agrees_iff] at h ⊢
  intro m
  rw [valueOrZero_insert, valueOrZero_insert, h m]

theorem eq_of_agrees (h : s.agrees t = true) (hs : s.value? n = some v) (ht : t.value? n = some w) : v = w := by
  rw [← valueOrZero_of_value? hs, ← valueOrZero_of_value? ht]
  exact agrees_iff.mp h n

end State

namespace Instruction

theorem Executes.agrees {i : Instruction} {s t s' t' : State} (hs : Executes i s s') (ht : Executes i t t')
    (h : s.agrees t = true) : s'.agrees t' = true := by
  cases hs with
  | add _ ha hb =>
    cases ht with
    | add _ ha' hb' =>
      rw [State.eq_of_agrees h ha ha', State.eq_of_agrees h hb hb']
      exact State.agrees_insert h _ _
  | sub _ ha hb =>
    cases ht with
    | sub _ ha' hb' =>
      rw [State.eq_of_agrees h ha ha', State.eq_of_agrees h hb hb']
      exact State.agrees_insert h _ _
  | swap ha hb =>
    cases ht with
    | swap ha' hb' =>
      rw [State.eq_of_agrees h ha ha', State.eq_of_agrees h hb hb']
      exact State.agrees_insert (State.agrees_insert h _ _) _ _
  | negate ha =>
    cases ht with
    | negate ha' =>
      rw [State.eq_of_agrees h ha ha']
      exact State.agrees_insert h _ _
  | noop =>
    cases ht
    exact h

end Instruction

namespace Program

theorem agrees_of_execute {p : Program} {s t s' t' : State} (h : s.agrees t = true) (hs : p.execute s = .ok () s')
    (ht : p.execute t = .ok () t') : s'.agrees t' = true := by
  induction p generalizing s t with
  | nil =>
    rw [execute_nil_eq_ok_iff] at hs ht
    rwa [hs, ht]
  | cons i p ih =>
    obtain ⟨u, hsu, hs⟩ := execute_cons_eq_ok_iff.mp hs
    obtain ⟨v, htv, ht⟩ := execute_cons_eq_ok_iff.mp ht
    have huv := (Instruction.executes_of_execute hsu).agrees (Instruction.executes_of_execute htv) h
    exact ih huv hs ht

end Program

namespace Evaluator

variable {e : Evaluator} {s t s' t' : State}

theorem sameOn_footprint {x : Step} (h : s.agrees t = true) (hs : e.evaluate x s = .ok () s')
    (ht : e.evaluate x t = .ok () t') : s.SameOn (e.footprint x) t := by
  intro n hn
  obtain ⟨v, hv⟩ := Option.isSome_iff_exists.mp (isSome_of_mem_footprint hs hn)
  obtain ⟨w, hw⟩ := Option.isSome_iff_exists.mp (isSome_of_mem_footprint ht hn)
  rw [hv, hw, State.eq_of_agrees h hv hw]

theorem agrees_of_evaluate {x : Step} (h : s.agrees t = true) (hs : e.evaluate x s = .ok () s')
    (ht : e.evaluate x t = .ok () t') : s'.agrees t' = true := by
  -- Both runs succeed, so both states have the footprint, and there they hold the same values.
  have halike := alike_of_sameOn (sameOn_footprint h hs ht)
  rw [hs, ht] at halike
  obtain ⟨-, hconfined⟩ := halike
  rw [State.agrees_iff] at h ⊢
  intro n
  have hn := hconfined n
  unfold Gate.Confined at hn
  split at hn
  · rw [State.valueOrZero, State.valueOrZero, hn]
  · have heq := h n
    rw [State.valueOrZero, State.valueOrZero] at heq ⊢
    rw [hn.1, hn.2, heq]

theorem agrees_of_evaluateAll {xs : List Step} (h : s.agrees t = true) (hs : e.evaluateAll xs s = .ok () s')
    (ht : e.evaluateAll xs t = .ok () t') : s'.agrees t' = true := by
  induction xs generalizing s t with
  | nil =>
    obtain ⟨-, rfl⟩ := pure_eq_ok_iff.mp hs
    obtain ⟨-, rfl⟩ := pure_eq_ok_iff.mp ht
    exact h
  | cons x xs ih =>
    obtain ⟨u, hsu, hs⟩ := evaluateAll_cons_eq_ok_iff.mp hs
    obtain ⟨v, htv, ht⟩ := evaluateAll_cons_eq_ok_iff.mp ht
    exact ih (agrees_of_evaluate h hsu htv) hs ht

end Evaluator

namespace Puzzle

variable {p q : Puzzle} {u v : State}

theorem agrees_iff :
    p.agrees q = true ↔
      p.domain = q.domain ∧ p.initial.agrees q.initial = true ∧ p.goal.agrees q.goal = true ∧ p.steps = q.steps := by
  simp only [agrees, Bool.and_eq_true, decide_eq_true_eq, and_assoc]

theorem play_eq_ok_iff :
    p.play = .ok u ↔ ∃ e, p.evaluator = .ok e ∧ e.evaluateAll p.steps p.initial = .ok () u := by
  cases hp : p.evaluator with
  | error fault => simp [play, hp, bind, Except.bind]
  | ok e =>
    rw [play_eq_result hp, result_eq_ok_iff]
    simp only [Except.ok.injEq, exists_eq_left']
    constructor
    · rintro ⟨_, h⟩
      exact h
    · intro h
      exact ⟨(), h⟩

theorem agrees_of_play (h : p.agrees q = true) (hp : p.play = .ok u) (hq : q.play = .ok v) : u.agrees v = true := by
  obtain ⟨hdomain, hinitial, -, hsteps⟩ := agrees_iff.mp h
  obtain ⟨e, he, hu⟩ := play_eq_ok_iff.mp hp
  obtain ⟨e', he', hv⟩ := play_eq_ok_iff.mp hq
  obtain rfl : e = e' := by
    rw [evaluator, hdomain, ← evaluator, he'] at he
    exact (Except.ok.inj he).symm
  rw [hsteps] at hu
  exact Evaluator.agrees_of_evaluateAll hinitial hu hv

theorem isSolved_congr (h : p.agrees q = true) (huv : u.agrees v = true) : p.isSolved u = q.isSolved v := by
  obtain ⟨-, -, hgoal, -⟩ := agrees_iff.mp h
  rw [isSolved, isSolved, Bool.eq_iff_iff]
  constructor
  · intro hu
    exact State.agrees_trans (State.agrees_symm huv) (State.agrees_trans hu hgoal)
  · intro hv
    exact State.agrees_trans huv (State.agrees_trans hv (State.agrees_symm hgoal))

theorem check_of_play (h : p.play = .ok u) : p.check = .ok (p.isSolved u) := by
  rw [check, h]
  rfl

end Puzzle

namespace State

theorem agrees_congruence :
    (∀ s t : State, s.agrees t = true ↔ ∀ n, s.valueOrZero n = t.valueOrZero n) ∧
      (∀ s : State, s.agrees s = true) ∧
      (∀ s t : State, s.agrees t = true → t.agrees s = true) ∧
      (∀ s t u : State, s.agrees t = true → t.agrees u = true → s.agrees u = true) ∧
      (∀ (p : Program) (s t s' t' : State), s.agrees t = true → p.execute s = .ok () s' → p.execute t = .ok () t' →
        s'.agrees t' = true) ∧
      (∀ (e : Evaluator) (x : Step) (s t s' t' : State), s.agrees t = true → e.evaluate x s = .ok () s' →
        e.evaluate x t = .ok () t' → s'.agrees t' = true) ∧
      ∀ (p q : Puzzle) (u v : State), p.agrees q = true → p.play = .ok u → q.play = .ok v →
        u.agrees v = true ∧ ∃ b, p.check = .ok b ∧ q.check = .ok b := by
  refine ⟨?_, ?_, ?_, ?_, ?_, ?_, ?_⟩
  · intro s t
    exact agrees_iff
  · intro s
    exact agrees_refl s
  · intro s t h
    exact agrees_symm h
  · intro s t u hst htu
    exact agrees_trans hst htu
  · intro p s t s' t' h hs ht
    exact Program.agrees_of_execute h hs ht
  · intro e x s t s' t' h hs ht
    exact Evaluator.agrees_of_evaluate h hs ht
  · intro p q u v h hp hq
    have huv := Puzzle.agrees_of_play h hp hq
    refine ⟨huv, p.isSolved u, Puzzle.check_of_play hp, ?_⟩
    rw [Puzzle.check_of_play hq, Puzzle.isSolved_congr h huv]

/-- The names of the states differ: `s` and `u` each have one at 0 that no other state has. -/
theorem agrees_congruence_missing_zero :
    let s := ofList [("a", 1), ("b", 0), ("x", 0)]
    let t := ofList [("a", 1), ("b", 0)]
    let u := ofList [("a", 1), ("b", 0), ("z", 0)]
    let s' := ofList [("a", 0), ("b", 1), ("x", 0)]
    let t' := ofList [("a", 0), ("b", 1)]
    let u' := ofList [("a", 0), ("b", 1), ("z", 0)]
    let p : Program := [.add "b" "a", .sub "a" "b"]
    let e : Evaluator := { defaultDomain := .binary }
    let x := (Step.ofOp "seq").withSteps [(Step.ofOp "flip").withTarget "a", (Step.ofOp "flip").withTarget "b"]
    let q : Puzzle := { domain := "binary", initial := s, goal := create ["b"] 1, steps := [x] }
    let q' : Puzzle := { domain := "binary", initial := u, goal := t', steps := [x] }
    (s.agrees t = true ∧ t.agrees s = true ∧ t.agrees u = true ∧ s.agrees u = true) ∧
      (p.execute s = .ok () s' ∧ p.execute t = .ok () t' ∧ s'.agrees t' = true) ∧
      (e.evaluate x s = .ok () s' ∧ e.evaluate x t = .ok () t' ∧ s'.agrees t' = true) ∧
      q.agrees q' = true ∧ q.play = .ok s' ∧ q'.play = .ok u' ∧ s'.agrees u' = true ∧
        ∃ b, q.check = .ok b ∧ q'.check = .ok b := by
  intro s t u s' t' u' p e x q q'
  obtain ⟨-, -, hsymm, htrans, hprogram, hevaluate, hpuzzle⟩ := agrees_congruence
  have hst : s.agrees t = true := by decide
  have htu : t.agrees u = true := by decide
  have hps : p.execute s = .ok () s' := by decide
  have hpt : p.execute t = .ok () t' := by decide
  have hxs : e.evaluate x s = .ok () s' := by decide
  have hxt : e.evaluate x t = .ok () t' := by decide
  have hqq' : q.agrees q' = true := by decide
  have hqs : q.play = .ok s' := by rfl
  have hqu : q'.play = .ok u' := by rfl
  exact ⟨⟨hst, hsymm s t hst, htu, htrans s t u hst htu⟩, ⟨hps, hpt, hprogram p s t s' t' hst hps hpt⟩,
    ⟨hxs, hxt, hevaluate e x s t s' t' hst hxs hxt⟩, hqq', hqs, hqu, hpuzzle q q' s' u' hqq' hqs hqu⟩

end State

end Reversible
