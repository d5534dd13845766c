import Reversible.Proofs.Atomic

namespace Reversible

namespace Evaluator

variable {e : Evaluator} {s : Step}

def isSequence (e : Evaluator) (s : Step) : Bool :=
  match e.domainOf s with
  | .ok .binary => s.op = "seq"
  | _ => false

theorem isSequence_iff : e.isSequence s = true ↔ e.domainOf s = .ok .binary ∧ s.op = "seq" := by
  unfold isSequence
  split
  · next h => simp [h]
  · next h =>
    simp only [Bool.false_eq_true, false_iff, not_and]
    intro hd
    exact absurd hd h

mutual

def flatten (e : Evaluator) : Step → List Step
  | ⟨d, op, t, ts, r, none⟩ =>
    if e.isSequence ⟨d, op, t, ts, r, none⟩ then [] else [⟨d, op, t, ts, r, none⟩]
  | ⟨d, op, t, ts, r, some ss⟩ =>
    if e.isSequence ⟨d, op, t, ts, r, some ss⟩ then flattenAll e ss else [⟨d, op, t, ts, r, some ss⟩]
termination_by structural s => s

def flattenAll (e : Evaluator) : List Step → List Step
  | [] => []
  | s :: ss => flatten e s ++ flattenAll e ss
termination_by structural ss => ss

end

theorem flattenAll_eq_flatMap (e : Evaluator) (ss : List Step) : e.flattenAll ss = ss.flatMap e.flatten := by
  induction ss with
  | nil => rfl
  | cons s ss ih => rw [flattenAll, ih, List.flatMap_cons]

theorem flatten_sequence (h : e.isSequence s = true) : e.flatten s = s.substeps.flatMap e.flatten := by
  obtain ⟨d, op, t, ts, r, ss⟩ := s
  cases ss with
  | none =>
    rw [flatten, if_pos h]
    rfl
  | some ss =>
    rw [flatten, if_pos h, flattenAll_eq_flatMap]
    rfl

theorem flatten_leaf (h : e.isSequence s = false) : e.flatten s = [s] := by
  obtain ⟨d, op, t, ts, r, ss⟩ := s
  have h' : ¬e.isSequence ⟨d, op, t, ts, r, ss⟩ = true := by simp [h]
  cases ss with
  | none => rw [flatten, if_neg h']
  | some ss => rw [flatten, if_neg h']

theorem isSequence_of_mem_flatten (t : Step) {u : Step} (h : u ∈ e.flatten t) : e.isSequence u = false := by
  induction t using Step.induction with
  | sequence t ih =>
    cases ht : e.isSequence t with
    | true =>
      rw [flatten_sequence ht] at h
      obtain ⟨v, hv, hu⟩ := List.mem_flatMap.mp h
      exact ih v hv hu
    | false =>
      rw [flatten_leaf ht] at h
      obtain rfl := List.mem_singleton.mp h
      exact ht

theorem lookup_sequence (h : e.isSequence s = true) : e.lookup s = .ok (.binary, .seq) := by
  obtain ⟨hd, hop⟩ := isSequence_iff.mp h
  have hfind : Gate.find? .binary "seq" = some .seq := by decide
  rw [lookup, hd, hop]
  simp [bind, Except.bind, hfind, pure, Except.pure]

theorem evaluate_sequence (he : e.linked = true) (h : e.isSequence s = true) :
    e.evaluate s = Action.atomically (e.evaluateAll s.substeps) := by
  rw [evaluate_eq_dispatch, dispatch, lookup_sequence h, Action.ofExcept, pure_bind]
  dsimp only
  by_cases hss : s.substeps = []
  · rw [if_pos hss, hss]
    rfl
  · rw [if_neg hss, if_pos he]

theorem evaluateAll_eq_forM (e : Evaluator) (ss : List Step) : e.evaluateAll ss = forM ss e.evaluate := by
  induction ss with
  | nil => rfl
  | cons s ss ih => rw [evaluateAll, ih, List.forM_cons]

theorem result_evaluateAll_append (e : Evaluator) (ss ts : List Step) (st : State) :
    (e.evaluateAll (ss ++ ts)).result st = (e.evaluateAll ss).result st >>= (e.evaluateAll ts).result := by
  simp only [evaluateAll_eq_forM, List.forM_append]
  exact Action.result_bind _ _ st

theorem evaluateAll_singleton (e : Evaluator) (s : Step) : e.evaluateAll [s] = e.evaluate s := by
  rw [evaluateAll, evaluateAll, bind_pure_unit]

theorem result_evaluateAll_flatMap {ss : List Step}
    (h : ∀ u ∈ ss, ∀ st, (e.evaluate u).result st = (e.evaluateAll (e.flatten u)).result st) (st : State) :
    (e.evaluateAll ss).result st = (e.evaluateAll (ss.flatMap e.flatten)).result st := by
  induction ss generalizing st with
  | nil => rfl
  | cons s ss ih =>
    have hs := h s List.mem_cons_self
    have hss := ih fun u hu => h u (List.mem_cons_of_mem s hu)
    have hcons : e.evaluateAll (s :: ss) = e.evaluateAll ([s] ++ ss) := rfl
    rw [hcons, result_evaluateAll_append, evaluateAll_singleton, hs st, List.flatMap_cons, result_evaluateAll_append]
    congr 1
    funext t
    exact hss t

theorem result_evaluate_eq_flatten (he : e.linked = true) (s : Step) (st : State) :
    (e.evaluate s).result st = (e.evaluateAll (e.flatten s)).result st := by
  induction s using Step.induction generalizing st with
  | sequence s ih =>
    cases hs : e.isSequence s with
    | true =>
      rw [evaluate_sequence he hs, flatten_sequence hs, Action.result_atomically]
      exact result_evaluateAll_flatMap ih st
    | false => rw [flatten_leaf hs, evaluateAll_singleton]

theorem evaluate_eq_of_flatten_eq (he : e.linked = true) {s t : Step} (h : e.flatten s = e.flatten t) :
    e.evaluate s = e.evaluate t := by
  funext st
  -- The leaves determine the result only. What a failure leaves behind is the state before it.
  apply (atomic_evaluate e s st).eq_of_result (atomic_evaluate e t st)
  rw [result_evaluate_eq_flatten he, result_evaluate_eq_flatten he, h]

theorem flatten_dissolve {s u : Step} (hs : e.isSequence s = true) (hu : e.isSequence u = true) (ss ts : List Step) :
    e.flatten (s.withSteps (ss ++ u :: ts)) = e.flatten (s.withSteps (ss ++ u.substeps ++ ts)) := by
  have hflatten : ∀ us, e.flatten (s.withSteps us) = us.flatMap e.flatten := by
    intro us
    have hus : e.isSequence (s.withSteps us) = true := hs
    exact flatten_sequence hus
  rw [hflatten, hflatten, List.flatMap_append, List.flatMap_cons, flatten_sequence hu, List.append_assoc,
    List.flatMap_append, List.flatMap_append]

end Evaluator

namespace Puzzle

variable {p : Puzzle} {e : Evaluator}

theorem linked_of_evaluator (h : p.evaluator = .ok e) : e.linked = true := by
  obtain ⟨d, -, hd⟩ := except_bind_eq_ok_iff.mp h
  cases hd
  rfl

theorem play_eq_result (h : p.evaluator = .ok e) : p.play = (e.evaluateAll p.steps).result p.initial := by
  rw [play, h]
  rfl

end Puzzle

namespace Evaluator

theorem evaluate_leaves_in_order (e : Evaluator) :
    (∀ t, ∀ u ∈ e.flatten t, e.isSequence u = false) ∧
      (e.linked = true →
        (∀ t s, (e.evaluate t).result s = (e.evaluateAll (e.flatten t)).result s) ∧
        (∀ t s fault, (e.evaluate t).result s = .error fault ↔
          ∃ j, Action.FailsAt e.evaluate (e.flatten t) s j fault) ∧
        (∀ t u, e.flatten t = e.flatten u → ∀ s, e.evaluate t s = e.evaluate u s) ∧
        ∀ t u, e.isSequence t = true → e.isSequence u = true → ∀ ss ts s,
          e.evaluate (t.withSteps (ss ++ u :: ts)) s = e.evaluate (t.withSteps (ss ++ u.substeps ++ ts)) s) ∧
      ∀ p : Puzzle, p.evaluator = .ok e →
        p.play = (e.evaluate (((Step.ofOp "seq").inDomain "binary").withSteps p.steps)).result p.initial := by
  refine ⟨?_, fun he => ⟨?_, ?_, ?_, ?_⟩, ?_⟩
  · intro t u hu
    exact isSequence_of_mem_flatten t hu
  · intro t s
    exact result_evaluate_eq_flatten he t s
  · intro t s fault
    rw [result_evaluate_eq_flatten he, evaluateAll_eq_forM]
    exact Action.result_forM_eq_error_iff
  · intro t u h s
    rw [evaluate_eq_of_flatten_eq he h]
  · intro t u ht hu ss ts s
    rw [evaluate_eq_of_flatten_eq he (flatten_dissolve ht hu ss ts)]
  · intro p hp
    have hsequence : e.isSequence (((Step.ofOp "seq").inDomain "binary").withSteps p.steps) = true := rfl
    rw [evaluate_sequence (Puzzle.linked_of_evaluator hp) hsequence, Action.result_atomically,
      Puzzle.play_eq_result hp]
    rfl

/-- In the natlog domain `seq` is no operation, so one of the leaves fails, and the flip before it comes to nothing. -/
theorem evaluate_leaves_in_order_natlog :
    let e : Evaluator := { defaultDomain := .natlog }
    let flip := ((Step.ofOp "flip").inDomain "binary").withTarget "a"
    let stray := (Step.ofOp "seq").withSteps [flip]
    let sequence := (Step.ofOp "seq").inDomain "binary"
    let t := sequence.withSteps [sequence.withSteps [flip, Step.ofOp "noop"], stray]
    let u := sequence.withSteps [flip, Step.ofOp "noop", stray]
    let s := State.ofList [("a", 0)]
    let p : Puzzle := { domain := "natlog", initial := s, goal := s, steps := [t] }
    (stray ∈ e.flatten t ∧ e.isSequence stray = false) ∧ e.linked = true ∧
      (Action.FailsAt e.evaluate (e.flatten t) s 2 (.unknownOperation .natlog "seq") ∧
        (e.evaluate t).result s = .error (.unknownOperation .natlog "seq")) ∧
      (e.flatten t = e.flatten u ∧ e.evaluate t s = e.evaluate u s) ∧
      (e.isSequence sequence = true ∧ e.isSequence u = true ∧
        e.evaluate (sequence.withSteps ([flip] ++ u :: [])) s =
          e.evaluate (sequence.withSteps ([flip] ++ u.substeps ++ [])) s) ∧
      p.evaluator = .ok e ∧ p.play = (e.evaluate (sequence.withSteps p.steps)).result p.initial := by
  intro e flip stray sequence t u s p
  obtain ⟨hleaves, htrees, hplay⟩ := evaluate_leaves_in_order e
  obtain ⟨-, herror, hsame, hdissolve⟩ := htrees rfl
  have hstray : stray ∈ e.flatten t := by decide
  have hfails : Action.FailsAt e.evaluate (e.flatten t) s 2 (.unknownOperation .natlog "seq") :=
    ⟨stray, State.ofList [("a", 1)], State.ofList [("a", 1)], rfl, by decide, by decide⟩
  have hflatten : e.flatten t = e.flatten u := rfl
  exact ⟨⟨hstray, hleaves t stray hstray⟩, rfl, ⟨hfails, (herror t s _).mpr ⟨2, hfails⟩⟩,
    ⟨hflatten, hsame t u hflatten s⟩, ⟨rfl, rfl, hdissolve sequence u rfl rfl [flip] [] s⟩, rfl, hplay p rfl⟩

end Evaluator

end Reversible
