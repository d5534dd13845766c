import Reversible.Proofs.Parallel

namespace Reversible

open Reversible.Action

namespace State

def HoldsBit (s : State) (n : Name) : Prop :=
  s.value? n = some 0 ∨ s.value? n = some 1

def SameButBits (s s' : State) : Prop :=
  ∀ n, s.value? n = s'.value? n ∨ s.HoldsBit n ∧ s'.HoldsBit n

def AllBits (s : State) : Prop :=
  ∀ n, (s.value? n).isSome → s.HoldsBit n

variable {s s' : State} {n : Name}

theorem holdsBit_iff : s.HoldsBit n ↔ ∃ b, s.value? n = some (Domain.binary.toValue b) := by
  constructor
  · rintro (h | h)
    · exact ⟨false, h⟩
    · exact ⟨true, h⟩
  · rintro ⟨b, h⟩
    cases b with
    | false => exact .inl h
    | true => exact .inr h

theorem allBits_empty : empty.AllBits := by
  intro n hn
  rw [value?_empty] at hn
  cases hn

theorem AllBits.insert (h : s.AllBits) (n : Name) (b : Bool) : (s.insert n (Domain.binary.toValue b)).AllBits := by
  intro m hm
  rw [holdsBit_iff]
  by_cases hnm : n = m
  · subst hnm
    exact ⟨b, value?_insert_self s n _⟩
  · rw [value?_insert_of_ne s _ hnm] at hm ⊢
    exact holdsBit_iff.mp (h m hm)

theorem AllBits.sameButBits (h : s.AllBits) (h' : s'.AllBits) (hnames : ∀ n, s.contains n = s'.contains n) :
    s.SameButBits s' := by
  intro n
  have hn := hnames n
  rw [contains_eq, contains_eq] at hn
  by_cases hsome : (s.value? n).isSome
  · exact .inr ⟨h n hsome, h' n (hn ▸ hsome)⟩
  · have hnone : s.value? n = none := by simpa using hsome
    rw [hnone, Option.isSome_none] at hn
    have hnone' : s'.value? n = none := by simpa using hn.symm
    exact .inl (hnone.trans hnone'.symm)

end State

namespace Gate

def Blurred (_ : Name) (x y : Option Value) : Prop :=
  x = y ∨ ∃ a b, x = some (Domain.binary.toValue a) ∧ y = some (Domain.binary.toValue b)

theorem pointwise_blurred_iff {s s' : State} : Pointwise Blurred s s' ↔ s.SameButBits s' := by
  apply forall_congr'
  intro n
  apply or_congr Iff.rfl
  rw [State.holdsBit_iff, State.holdsBit_iff]
  constructor
  · rintro ⟨a, b, ha, hb⟩
    exact ⟨⟨a, ha⟩, b, hb⟩
  · rintro ⟨⟨a, ha⟩, b, hb⟩
    exact ⟨a, b, ha, hb⟩

theorem respects_blurred (n : Name) : Respects (Pointwise Blurred) Eq (fun _ _ => True) n n := by
  apply respects_pointwise
  · rintro x y (rfl | ⟨a, b, rfl, rfl⟩)
    · -- A value that is no bit is the same in both runs, and so is the fault about it.
      exact readable_self (fun _ => rfl) (fun _ => trivial) x
    · exact .bit trivial
  · intro a b _
    exact .inr ⟨a, b, rfl, rfl⟩

theorem congruent_blurred : Congruent Eq (fun _ _ => True) := by
  refine ⟨?_, ?_, ?_⟩
  · intro f _
    rfl
  · intro a b _
    trivial
  · intro a b a' b' _ _
    trivial

def SameBit (_ : Name) (x y : Option Value) : Prop :=
  x = y ∧ ∀ v, x = some v → ∃ b, v = Domain.binary.toValue b

def InDomain (f g : Fault) : Prop :=
  f = g ∧ ∀ d n v, f ≠ .outOfDomain d n v

theorem pointwise_sameBit {s : State} (h : s.AllBits) : Pointwise SameBit s s := by
  intro n
  refine ⟨rfl, ?_⟩
  intro v hv
  obtain ⟨b, hb⟩ := State.holdsBit_iff.mp (h n (Option.isSome_of_eq_some hv))
  rw [hv, Option.some.injEq] at hb
  exact ⟨b, hb⟩

theorem respects_sameBit (n : Name) : Respects (Pointwise SameBit) InDomain Eq n n := by
  apply respects_pointwise
  · rintro x _ ⟨rfl, hx⟩
    cases x with
    | none => exact .none ⟨rfl, by simp⟩
    | some v =>
      obtain ⟨b, rfl⟩ := hx v rfl
      exact .bit rfl
  · rintro a _ rfl
    refine ⟨rfl, ?_⟩
    rintro _ ⟨⟩
    exact ⟨a, rfl⟩

theorem congruent_inDomain : Congruent InDomain Eq := by
  refine ⟨?_, congruent_eq.negate, congruent_eq.sum⟩
  intro f hf
  refine ⟨rfl, ?_⟩
  rintro d n v rfl
  cases hf

end Gate

namespace Evaluator

variable {e : Evaluator} {t : Step} {s s' : State}

theorem alike_of_sameButBits (h : s.SameButBits s') :
    Alike (Gate.Pointwise Gate.Blurred) Eq Eq (e.evaluate t s) (e.evaluate t s') := by
  apply parallel_evaluate Gate.congruent_blurred
  · intro n _
    exact Gate.respects_blurred n
  · exact Gate.pointwise_blurred_iff.mpr h

theorem verdict_of_sameButBits (h : s.SameButBits s') : verdict (e.evaluate t) s = verdict (e.evaluate t) s' := by
  obtain ⟨fault, hs, hs'⟩ | ⟨u, u', hs, hs', -⟩ := outcomes_of_alike (alike_of_sameButBits h)
  · rw [verdict_of_error hs, verdict_of_error hs']
  · rw [verdict_of_ok hs, verdict_of_ok hs']

theorem verdict_ne_outOfDomain (h : s.AllBits) (d : Domain) (n : Name) (v : Value) :
    verdict (e.evaluate t) s ≠ .error (.outOfDomain d n v) := by
  have halike : Alike (Gate.Pointwise Gate.SameBit) Gate.InDomain Eq (e.evaluate t s) (e.evaluate t s) := by
    apply parallel_evaluate Gate.congruent_inDomain
    · intro n _
      exact Gate.respects_sameBit n
    · exact Gate.pointwise_sameBit h
  cases hs : e.evaluate t s with
  | ok _ u => simp [verdict_of_ok hs]
  | error fault u =>
    rw [hs] at halike
    obtain ⟨-, -⟩ | ⟨-, hfault⟩ := halike
    rw [verdict_of_error hs]
    intro heq
    exact hfault d n v (Except.error.inj heq)

theorem evaluate_blind_to_bits (e : Evaluator) (t : Step) :
    (∀ s s', s.SameButBits s' →
      (∃ fault, e.evaluate t s = .error fault s ∧ e.evaluate t s' = .error fault s') ∨
        ∃ u u', e.evaluate t s = .ok () u ∧ e.evaluate t s' = .ok () u' ∧ u.SameButBits u') ∧
      (∀ s s', s.AllBits → s'.AllBits → (∀ n, s.contains n = s'.contains n) →
        verdict (e.evaluate t) s = verdict (e.evaluate t) s') ∧
      ∀ s, s.AllBits → ∀ d n v, verdict (e.evaluate t) s ≠ .error (.outOfDomain d n v) := by
  refine ⟨?_, ?_, ?_⟩
  · intro s s' h
    apply (outcomes_of_alike (alike_of_sameButBits h)).imp_right
    rintro ⟨u, u', hu, hu', hblurred⟩
    exact ⟨u, u', hu, hu', Gate.pointwise_blurred_iff.mp hblurred⟩
  · intro s s' h h' hnames
    exact verdict_of_sameButBits (h.sameButBits h' hnames)
  · intro s h d n v
    exact verdict_ne_outOfDomain h d n v

theorem evaluate_blind_to_bits_overwritten :
    let e : Evaluator := { defaultDomain := .binary }
    let t := (Step.ofOp "seq").withSteps
      [((Step.ofOp "xor").withTargets ["a", "b"]).withResult "c", (Step.ofOp "flip").withTarget "c"]
    let r := State.ofList [("b", 0), ("c", 7)]
    let s := r.insert "a" 1
    let s' := r.insert "a" 0
    let q := State.ofList [("a", 1), ("b", 0)]
    let q' := State.ofList [("a", 0), ("b", 0)]
    (s.SameButBits s' ∧
      ((∃ fault, e.evaluate t s = .error fault s ∧ e.evaluate t s' = .error fault s') ∨
        ∃ u u', e.evaluate t s = .ok () u ∧ e.evaluate t s' = .ok () u' ∧ u.SameButBits u')) ∧
      (q.AllBits ∧ q'.AllBits ∧ (∀ n, q.contains n = q'.contains n) ∧
        verdict (e.evaluate t) q = verdict (e.evaluate t) q') ∧
      verdict (e.evaluate t) q ≠ .error (.outOfDomain .binary "c" 7) := by
  intro e t r s s' q q'
  have hs : s.SameButBits s' := by
    intro n
    by_cases hn : "a" = n
    · subst hn
      exact .inr ⟨.inr (r.value?_insert_self "a" 1), .inl (r.value?_insert_self "a" 0)⟩
    · exact .inl ((r.value?_insert_of_ne 1 hn).trans (r.value?_insert_of_ne 0 hn).symm)
  have hq : q.AllBits := (State.allBits_empty.insert "a" true).insert "b" false
  have hq' : q'.AllBits := (State.allBits_empty.insert "a" false).insert "b" false
  have hnames : ∀ n, q.contains n = q'.contains n := by
    intro n
    simp only [q, q', State.ofList, List.foldl_cons, List.foldl_nil, State.contains_insert]
  obtain ⟨hsame, hverdict, hdomain⟩ := evaluate_blind_to_bits e t
  exact ⟨⟨hs, hsame s s' hs⟩, ⟨hq, hq', hnames, hverdict q q' hq hq' hnames⟩, hdomain q hq .binary "c" 7⟩

end Evaluator

end Reversible
