import Reversible.Proofs.Execution
import Reversible.Proofs.Footprint

namespace Reversible

open Reversible.Action

namespace Gate

def InPlace (g : Gate) (t : Step) : Prop :=
  match g with
  | .flip => True
  | .swap => True
  | .xor => ∃ m n ns, t.targets = some (m :: n :: ns) ∧ m ≠ n ∧ (t.result = some m ∨ t.result = some n)
  | .seq => False
  | .noop => True

variable {g : Gate} {t : Step} {s s' : State} {m n : Name} {ns : List Name} {a b : Bool}

theorem swap_back (ht : t.targets = some (m :: n :: ns)) (hm : s.value? m = some (Domain.binary.toValue a))
    (hn : s.value? n = some (Domain.binary.toValue b)) :
    Gate.swap.Applies t ((s.insert m (Domain.binary.toValue b)).insert n (Domain.binary.toValue a)) s := by
  have happlies := Applies.swap ht (State.value?_exchanged hm hn) (State.value?_insert_self _ n _)
  rwa [State.exchange_twice hm hn] at happlies

theorem sum_back_first (ht : t.targets = some (m :: n :: ns)) (hr : t.result = some m) (hne : m ≠ n)
    (hm : s.value? m = some (Domain.binary.toValue a)) (hn : s.value? n = some (Domain.binary.toValue b)) :
    Gate.xor.Applies t (s.insert m (Domain.binary.toValue (a ^^ b))) s := by
  have hm' := State.value?_insert_self s m (Domain.binary.toValue (a ^^ b))
  have hn' := (State.value?_insert_of_ne s (Domain.binary.toValue (a ^^ b)) hne).trans hn
  have happlies := Applies.xor ht hr hm' hn' (Option.isSome_of_eq_some hm')
  rwa [Bool.xor_assoc, Bool.xor_self, Bool.xor_false, State.insert_insert_of_value? hm] at happlies

theorem sum_back_second (ht : t.targets = some (m :: n :: ns)) (hr : t.result = some n) (hne : m ≠ n)
    (hm : s.value? m = some (Domain.binary.toValue a)) (hn : s.value? n = some (Domain.binary.toValue b)) :
    Gate.xor.Applies t (s.insert n (Domain.binary.toValue (a ^^ b))) s := by
  have hm' := (State.value?_insert_of_ne s (Domain.binary.toValue (a ^^ b)) hne.symm).trans hm
  have hn' := State.value?_insert_self s n (Domain.binary.toValue (a ^^ b))
  have happlies := Applies.xor ht hr hm' hn' (Option.isSome_of_eq_some hn')
  rwa [← Bool.xor_assoc, Bool.xor_self, Bool.false_xor, State.insert_insert_of_value? hn] at happlies

theorem Applies.back (hg : g.InPlace t) (h : g.Applies t s s') : g.Applies t s' s := by
  cases h with
  | @flip t s n b ht hn =>
    have happlies := Applies.flip ht (State.value?_insert_self s n (Domain.binary.toValue !b))
    rwa [Bool.not_not, State.insert_insert_of_value? hn] at happlies
  | swap ht hm hn => exact swap_back ht hm hn
  | xor ht hr hm hn hresult =>
    obtain ⟨m, n, ns, ht', hne, hr'⟩ := hg
    rw [ht'] at ht
    cases ht
    obtain hr' | hr' := hr'
    · rw [hr'] at hr
      cases hr
      exact sum_back_first ht' hr' hne hm hn
    · rw [hr'] at hr
      cases hr
      exact sum_back_second ht' hr' hne hm hn
  | noop => exact .noop

end Gate

namespace Evaluator

variable {e : Evaluator} {t : Step} {s s' : State}

mutual

def mirror (e : Evaluator) : Step → Step
  | ⟨d, op, t, ts, r, none⟩ => ⟨d, op, t, ts, r, none⟩
  | ⟨d, op, t, ts, r, some ss⟩ =>
    if e.isSequence ⟨d, op, t, ts, r, some ss⟩ then ⟨d, op, t, ts, r, some (mirrorAll e ss).reverse⟩
    else ⟨d, op, t, ts, r, some (mirrorAll e ss)⟩
termination_by structural s => s

def mirrorAll (e : Evaluator) : List Step → List Step
  | [] => []
  | s :: ss => mirror e s :: mirrorAll e ss
termination_by structural ss => ss

end

theorem mirrorAll_eq_map (e : Evaluator) (ss : List Step) : e.mirrorAll ss = ss.map e.mirror := by
  induction ss with
  | nil => rfl
  | cons s ss ih => rw [mirrorAll, ih, List.map_cons]

theorem mirror_sequence (h : e.isSequence t = true) :
    e.mirror t = { t with steps := t.steps.map fun ss => (ss.map e.mirror).reverse } := by
  obtain ⟨d, op, g, gs, r, ss⟩ := t
  cases ss with
  | none => rfl
  | some ss => rw [mirror, if_pos h, mirrorAll_eq_map, Option.map_some]

theorem mirror_leaf (h : e.isSequence t = false) :
    e.mirror t = { t with steps := t.steps.map (List.map e.mirror) } := by
  obtain ⟨d, op, g, gs, r, ss⟩ := t
  cases ss with
  | none => rfl
  | some ss => rw [mirror, if_neg (by simp [h]), mirrorAll_eq_map, Option.map_some]

theorem isSequence_mirror (h : e.isSequence t = true) : e.isSequence (e.mirror t) = true := by
  rw [mirror_sequence h]
  exact h

theorem substeps_mirror (h : e.isSequence t = true) :
    (e.mirror t).substeps = (t.substeps.map e.mirror).reverse := by
  rw [mirror_sequence h, Step.substeps, Step.substeps]
  cases t.steps with
  | none => rfl
  | some ss => rfl

theorem evaluate_with_steps (h : e.isSequence t = false) (ss : Option (List Step)) :
    e.evaluate { t with steps := ss } = e.evaluate t := by
  rw [evaluate_eq_dispatch, evaluate_eq_dispatch, dispatch, dispatch]
  have hlookup : e.lookup { t with steps := ss } = e.lookup t := rfl
  rw [hlookup]
  cases hl : e.lookup t with
  | error fault => rfl
  | ok found =>
    obtain ⟨d, g⟩ := found
    cases g with
    | flip => rfl
    | swap => rfl
    | xor => rfl
    | noop => rfl
    | seq =>
      rw [isSequence_of_lookup hl] at h
      cases h

def InPlace (e : Evaluator) (t : Step) : Prop :=
  ∃ d g, e.lookup t = .ok (d, g) ∧ g.InPlace t

theorem InPlace.evaluate (ht : e.InPlace t) (h : e.evaluate t s = .ok () s') : e.evaluate t s' = .ok () s := by
  obtain ⟨d, g, hlookup, hg⟩ := ht
  obtain ⟨hseq, -⟩ | ⟨d', g', hlookup', happlies⟩ := cases_of_evaluate_eq_ok h
  · rw [lookup_sequence hseq] at hlookup
    cases hlookup
    cases hg
  · rw [hlookup'] at hlookup
    cases hlookup
    exact evaluate_of_applies hlookup' (happlies.back hg)

theorem evaluate_mirror_eq_ok_iff (he : e.linked = true) (ht : ∀ u ∈ e.flatten t, e.InPlace u) :
    e.evaluate (e.mirror t) s' = .ok () s ↔ e.evaluate t s = .ok () s' := by
  induction t using Step.induction generalizing s s' with
  | sequence t ih =>
    cases hseq : e.isSequence t with
    | true =>
      rw [flatten_sequence hseq] at ht
      rw [evaluate_sequence he hseq, evaluate_sequence he (isSequence_mirror hseq), substeps_mirror hseq,
        atomically_eq_ok_iff, atomically_eq_ok_iff, evaluateAll_eq_forM, evaluateAll_eq_forM, ← List.map_reverse,
        List.forM_map]
      apply forM_reverse_eq_ok_iff
      intro u hu s s'
      exact ih u hu fun v hv => ht v (List.mem_flatMap.mpr ⟨u, hu, hv⟩)
    | false =>
      rw [flatten_leaf hseq, List.forall_mem_singleton] at ht
      rw [mirror_leaf hseq, evaluate_with_steps hseq]
      exact ⟨ht.evaluate, ht.evaluate⟩

theorem evaluate_undone_by_mirror (e : Evaluator) (he : e.linked = true) (t : Step)
    (ht : ∀ u ∈ e.flatten t, e.InPlace u) (s s' : State) :
    e.evaluate t s = .ok () s' ↔ e.evaluate (e.mirror t) s' = .ok () s :=
  (evaluate_mirror_eq_ok_iff he ht).symm

/-- With a result of its own, a sum overwrites what nothing remembers, so it is not undone. -/
theorem evaluate_undone_by_mirror_nested :
    let e : Evaluator := { defaultDomain := .natlog }
    let step := fun op => (Step.ofOp op).inDomain "binary"
    let flip := (step "flip").withTarget "a"
    let swap := (step "swap").withTargets ["a", "b"]
    let same := (step "swap").withTargets ["a", "a"]
    let sum := (step "xor").withTargets ["a", "b"]
    let t := (step "seq").withSteps
      [flip, (step "seq").withSteps [sum.withResult "a", Step.ofOp "noop", same], swap]
    let u := (step "seq").withSteps
      [swap, (step "seq").withSteps [same, Step.ofOp "noop", sum.withResult "a"], flip]
    let s := State.ofList [("a", 0), ("b", 1), ("c", 7)]
    let s' := State.ofList [("a", 1), ("b", 0), ("c", 7)]
    let r := State.ofList [("a", 0), ("b", 1), ("c", 1)]
    e.linked = true ∧ (∀ v ∈ e.flatten t, e.InPlace v) ∧ e.mirror t = u ∧ e.evaluate t s = .ok () s' ∧
      e.evaluate u s' = .ok () s ∧
      e.evaluate (sum.withResult "c") s = .ok () r ∧ e.evaluate (e.mirror (sum.withResult "c")) r ≠ .ok () s := by
  intro e step flip swap same sum t u s s' r
  have hleaves : ∀ v ∈ e.flatten t, e.InPlace v := by
    have hflatten : e.flatten t = [flip, sum.withResult "a", Step.ofOp "noop", same, swap] := rfl
    simp only [hflatten, List.forall_mem_cons]
    refine ⟨⟨.binary, .flip, rfl, trivial⟩, ⟨.binary, .xor, rfl, ?_⟩, ⟨.natlog, .noop, rfl, trivial⟩,
      ⟨.binary, .swap, rfl, trivial⟩, ⟨.binary, .swap, rfl, trivial⟩, List.forall_mem_nil _⟩
    exact ⟨"a", "b", [], rfl, by decide, .inl rfl⟩
  have hmirror : e.mirror t = u := by rfl
  have hevaluate : e.evaluate t s = .ok () s' := by decide
  have hback := (evaluate_undone_by_mirror e rfl t hleaves s s').mp hevaluate
  rw [hmirror] at hback
  exact ⟨rfl, hleaves, hmirror, hevaluate, hback, by decide, by decide⟩

end Evaluator

end Reversible
