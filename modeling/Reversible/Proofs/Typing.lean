import Reversible.Proofs.BitBlind
import Reversible.Proofs.Equality

namespace Reversible

open Reversible.Action

namespace State

structure StaysTyped (s s' : State) : Prop where
  names : ∀ n, (s'.value? n).isSome = (s.value? n).isSome
  values : ∀ n, s'.value? n = s.value? n ∨ s'.HoldsBit n

variable {s r s' : State} {n : Name}

theorem staysTyped_refl (s : State) : s.StaysTyped s where
  names _ := rfl
  values _ := .inl rfl

theorem StaysTyped.trans (hr : s.StaysTyped r) (hs' : r.StaysTyped s') : s.StaysTyped s' where
  names n := (hs'.names n).trans (hr.names n)
  values n := by
    obtain hkept | hbit := hs'.values n
    · rw [HoldsBit, hkept]
      exact hr.values n
    · exact .inr hbit

theorem staysTyped_insert (hn : (s.value? n).isSome) (b : Bool) :
    s.StaysTyped (s.insert n (Domain.binary.toValue b)) where
  names := isSome_value?_insert hn
  values m := by
    by_cases hnm : n = m
    · subst hnm
      exact .inr (holdsBit_iff.mpr ⟨b, value?_insert_self s n _⟩)
    · exact .inl (value?_insert_of_ne s _ hnm)

theorem StaysTyped.allBits (h : s.StaysTyped s') (hs : s.AllBits) : s'.AllBits := by
  intro n hn
  obtain hkept | hbit := h.values n
  · rw [HoldsBit, hkept]
    exact hs n (h.names n ▸ hn)
  · exact hbit

theorem StaysTyped.names_eq (h : s.StaysTyped s') : s'.names = s.names :=
  State.names_eq h.names

theorem StaysTyped.size_eq (h : s.StaysTyped s') : s'.size = s.size := by
  rw [← length_names, h.names_eq, length_names]

end State

namespace Gate

theorem Applies.staysTyped {g : Gate} {t : Step} {s s' : State} (h : g.Applies t s s') : s.StaysTyped s' := by
  cases h with
  | flip ht hn => exact State.staysTyped_insert (Option.isSome_of_eq_some hn) _
  | swap ht hm hn =>
    have hfirst := State.staysTyped_insert (Option.isSome_of_eq_some hm)
    apply (hfirst _).trans
    apply State.staysTyped_insert
    rw [(hfirst _).names]
    exact Option.isSome_of_eq_some hn
  | xor ht hr hm hn hresult => exact State.staysTyped_insert hresult _
  | noop => exact State.staysTyped_refl s

end Gate

namespace Evaluator

variable {e : Evaluator} {s s' : State}

theorem staysTyped_of_evaluate {t : Step} (h : e.evaluate t s = .ok () s') : s.StaysTyped s' := by
  apply relates_of_evaluate State.staysTyped_refl _ _ h
  · intro s r s' hr hs'
    exact hr.trans hs'
  · intro g u s s' hg
    exact hg.staysTyped

theorem staysTyped_of_evaluateAll {ts : List Step} (h : e.evaluateAll ts s = .ok () s') : s.StaysTyped s' := by
  apply relates_of_evaluateAll State.staysTyped_refl _ _ h
  · intro s r s' hr hs'
    exact hr.trans hs'
  · intro u _ s s' hu
    exact staysTyped_of_evaluate hu

theorem evaluate_well_typed :
    (∀ (e : Evaluator) (t : Step) (s s' : State), e.evaluate t s = .ok () s' →
      s'.names = s.names ∧ ∀ n, s'.value? n = s.value? n ∨ s'.HoldsBit n) ∧
      ∀ (p : Puzzle) (s : State), p.play = .ok s →
        s.names = p.initial.names ∧ s.size = p.initial.size ∧ (p.initial.AllBits → s.AllBits) := by
  constructor
  · intro e t s s' h
    have htyped := staysTyped_of_evaluate h
    exact ⟨htyped.names_eq, htyped.values⟩
  · intro p s h
    obtain ⟨e, -, hall⟩ := Puzzle.play_eq_ok_iff.mp h
    have htyped := staysTyped_of_evaluateAll hall
    exact ⟨htyped.names_eq, htyped.size_eq, htyped.allBits⟩

theorem evaluate_well_typed_mixed :
    let e : Evaluator := { defaultDomain := .binary }
    let t := (Step.ofOp "seq").withSteps
      [((Step.ofOp "xor").withTargets ["a", "b"]).withResult "c",
        (Step.ofOp "seq").withSteps [(Step.ofOp "swap").withTargets ["c", "a"], (Step.ofOp "flip").withTarget "b"]]
    let s := State.ofList [("a", 1), ("b", 1), ("c", 7), ("z", -5)]
    let s' := State.ofList [("a", 0), ("b", 0), ("c", 1), ("z", -5)]
    let r := State.ofList [("a", 1), ("b", 0), ("c", 0)]
    let r' := State.ofList [("a", 1), ("b", 1), ("c", 1)]
    let p : Puzzle := { domain := "binary", initial := r, goal := r', steps := [t] }
    (e.evaluate t s = .ok () s' ∧ s'.names = s.names ∧ ∀ n, s'.value? n = s.value? n ∨ s'.HoldsBit n) ∧
      p.play = .ok r' ∧ r'.names = r.names ∧ r'.size = r.size ∧ r.AllBits ∧ r'.AllBits := by
  intro e t s s' r r' p
  obtain ⟨htrees, hpuzzles⟩ := evaluate_well_typed
  have ht : e.evaluate t s = .ok () s' := by decide
  have hp : p.play = .ok r' := by rfl
  have hr : r.AllBits := ((State.allBits_empty.insert "a" true).insert "b" false).insert "c" false
  obtain ⟨hnames, hsize, hbits⟩ := hpuzzles p r' hp
  exact ⟨⟨ht, htrees e t s s' ht⟩, hp, hnames, hsize, hr, hbits hr⟩

end Evaluator

end Reversible
