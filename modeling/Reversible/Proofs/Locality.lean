import Reversible.Proofs.Parallel

namespace Reversible

open Reversible.Action

namespace State

def SameOn (ns : List Name) (s s' : State) : Prop :=
  ∀ n ∈ ns, s.value? n = s'.value? n

instance (ns : List Name) (s s' : State) : Decidable (SameOn ns s s') :=
  inferInstanceAs (Decidable (∀ n ∈ ns, s.value? n = s'.value? n))

end State

namespace Gate

def Confined (ns : List Name) (s s' : State) (n : Name) (x y : Option Value) : Prop :=
  if n ∈ ns then x = y else x = s.value? n ∧ y = s'.value? n

variable {ns : List Name} {s s' : State}

theorem respects_confined {n : Name} (hn : n ∈ ns) : Respects (Pointwise (Confined ns s s')) Eq Eq n n := by
  apply respects_pointwise
  · intro x y h
    rw [Confined, if_pos hn] at h
    rw [h]
    exact readable_self (fun _ => rfl) (fun _ => rfl) y
  · rintro a _ rfl
    rw [Confined, if_pos hn]

theorem pointwise_confined (h : s.SameOn ns s') : Pointwise (Confined ns s s') s s' := by
  intro n
  unfold Confined
  split
  · next hn => exact h n hn
  · exact ⟨rfl, rfl⟩

end Gate

namespace Evaluator

variable {e : Evaluator} {t : Step} {s s' u u' : State}

theorem alike_of_sameOn (h : s.SameOn (e.footprint t) s') :
    Alike (Gate.Pointwise (Gate.Confined (e.footprint t) s s')) Eq Eq (e.evaluate t s) (e.evaluate t s') := by
  apply parallel_evaluate Gate.congruent_eq
  · intro n hn
    exact Gate.respects_confined hn
  · exact Gate.pointwise_confined h

theorem evaluate_extended (h : e.evaluate t s = .ok () u)
    (hs' : ∀ n, (s.value? n).isSome → s'.value? n = s.value? n) :
    ∃ u', e.evaluate t s' = .ok () u' ∧
      ∀ n, u'.value? n = if (s.value? n).isSome then u.value? n else s'.value? n := by
  -- Success on `s` shows that the whole footprint is there, so the variables added are outside it.
  have hfootprint : ∀ n ∈ e.footprint t, (s.value? n).isSome := fun n hn => isSome_of_mem_footprint h hn
  have hsame : s.SameOn (e.footprint t) s' := fun n hn => (hs' n (hfootprint n hn)).symm
  have halike := alike_of_sameOn hsame
  rw [h] at halike
  obtain ⟨_, u', hu', -, hconfined⟩ := halike.of_ok
  refine ⟨u', hu', ?_⟩
  intro n
  have hn := hconfined n
  unfold Gate.Confined at hn
  split at hn
  · next hmem => rw [if_pos (hfootprint n hmem), hn]
  · rw [hn.1, hn.2]
    split
    · next hsome => exact hs' n hsome
    · rfl

theorem evaluate_within_footprint (e : Evaluator) (t : Step) :
    (∀ s s', s.SameOn (e.footprint t) s' →
      (∃ fault, e.evaluate t s = .error fault s ∧ e.evaluate t s' = .error fault s') ∨
        ∃ u u', e.evaluate t s = .ok () u ∧ e.evaluate t s' = .ok () u' ∧ u.SameOn (e.footprint t) u' ∧
          ∀ n, n ∉ e.footprint t → u.value? n = s.value? n ∧ u'.value? n = s'.value? n) ∧
      ∀ s s' u, e.evaluate t s = .ok () u → (∀ n, (s.value? n).isSome → s'.value? n = s.value? n) →
        ∃ u', e.evaluate t s' = .ok () u' ∧
          ∀ n, u'.value? n = if (s.value? n).isSome then u.value? n else s'.value? n := by
  constructor
  · intro s s' h
    apply (outcomes_of_alike (alike_of_sameOn h)).imp_right
    rintro ⟨u, u', hu, hu', hconfined⟩
    refine ⟨u, u', hu, hu', ?_, ?_⟩
    · intro n hn
      have := hconfined n
      rwa [Gate.Confined, if_pos hn] at this
    · intro n hn
      have := hconfined n
      rwa [Gate.Confined, if_neg hn] at this
  · intro s s' u h hs'
    exact evaluate_extended h hs'

/-- The third target and the target of the `noop` are outside the footprint, so `z` need not be there, nor hold a bit. -/
theorem evaluate_within_footprint_surplus :
    let e : Evaluator := { defaultDomain := .natlog }
    let sum := (((Step.ofOp "xor").inDomain "binary").withTargets ["a", "b", "z"]).withResult "c"
    let t := ((Step.ofOp "seq").inDomain "binary").withSteps [sum, (Step.ofOp "noop").withTarget "z"]
    let s := State.ofList [("a", 1), ("b", 0), ("c", 7)]
    let s' := s.insert "z" (-5)
    let u := State.ofList [("a", 1), ("b", 0), ("c", 1)]
    (s.SameOn (e.footprint t) s' ∧
      ((∃ fault, e.evaluate t s = .error fault s ∧ e.evaluate t s' = .error fault s') ∨
        ∃ u u', e.evaluate t s = .ok () u ∧ e.evaluate t s' = .ok () u' ∧ u.SameOn (e.footprint t) u' ∧
          ∀ n, n ∉ e.footprint t → u.value? n = s.value? n ∧ u'.value? n = s'.value? n)) ∧
      "z" ∉ e.footprint t ∧ e.evaluate t s = .ok () u ∧ (∀ n, (s.value? n).isSome → s'.value? n = s.value? n) ∧
      ∃ u', e.evaluate t s' = .ok () u' ∧
        ∀ n, u'.value? n = if (s.value? n).isSome then u.value? n else s'.value? n := by
  intro e sum t s s' u
  have hsame : s.SameOn (e.footprint t) s' := by decide
  have hz : "z" ∉ e.footprint t := by decide
  have hu : e.evaluate t s = .ok () u := by decide
  have hs' : ∀ n, (s.value? n).isSome → s'.value? n = s.value? n := by
    intro n hn
    apply State.value?_insert_of_ne
    rintro rfl
    have hnone : (s.value? "z").isSome = false := by decide
    rw [hnone] at hn
    cases hn
  obtain ⟨hlocal, hextended⟩ := evaluate_within_footprint e t
  exact ⟨⟨hsame, hlocal s s' hsame⟩, hz, hu, hs', hextended s s' u hu hs'⟩

end Evaluator

end Reversible
