import Reversible.Evaluator
import Reversible.Proofs.Sequence

namespace Reversible

namespace Action

variable {σ α β : Type} {s : σ}

def Atomic (act : Action σ α) (s : σ) : Prop :=
  ∀ fault t, act s = .error fault t → t = s

theorem atomic_pure (a : α) (s : σ) : Atomic (pure a) s := by
  intro fault t h
  exact absurd h pure_ne_error

theorem atomic_throw (fault : Fault) (s : σ) : Atomic (throw fault : Action σ α) s := by
  intro fault' t h
  exact (throw_eq_error_iff.mp h).2

theorem atomic_atomically (act : Action σ α) (s : σ) : Atomic (atomically act) s := by
  intro fault t h
  unfold atomically at h
  cases hact : act s with
  | ok a u => simp [hact] at h
  | error f u =>
    simp only [hact, EStateM.Result.error.injEq] at h
    exact h.2.symm

theorem leaves_ofExcept (x : Except Fault α) (s : σ) : leaves (ofExcept x) s = s := by
  cases x with
  | ok a => rfl
  | error fault => rfl

theorem leaves_bind {act : Action σ α} {f : α → Action σ β} (hact : leaves act s = s) (hf : ∀ a, leaves (f a) s = s) :
    leaves (act >>= f) s = s := by
  cases h : act s with
  | ok a t =>
    rw [leaves_of_ok h] at hact
    subst hact
    rw [leaves, bind_of_ok h]
    exact hf a
  | error fault t =>
    rw [leaves_of_error h] at hact
    rw [leaves_of_error (bind_of_error h), hact]

theorem atomic_bind {act : Action σ α} {f : α → Action σ β} (hact : leaves act s = s)
    (hf : ∀ a, act s = .ok a s → Atomic (f a) s) : Atomic (act >>= f) s := by
  intro fault t h
  obtain hfirst | ⟨a, u, ha, hnext⟩ := bind_eq_error_iff.mp h
  · rw [leaves_of_error hfirst] at hact
    exact hact
  · -- `act` has left the state alone, so the rest starts from `s` too.
    rw [leaves_of_ok ha] at hact
    subst hact
    exact hf a ha fault t hnext

theorem Atomic.eq_of_result {act act' : Action σ Unit} (h : Atomic act s) (h' : Atomic act' s)
    (hresult : act.result s = act'.result s) : act s = act' s := by
  cases hs : act s with
  | ok a t =>
    have ht : act'.result s = .ok t := hresult ▸ result_eq_ok_iff.mpr ⟨a, hs⟩
    obtain ⟨b, hb⟩ := result_eq_ok_iff.mp ht
    exact hb.symm
  | error fault t =>
    have ht : act'.result s = .error fault := hresult ▸ result_eq_error_iff.mpr ⟨t, hs⟩
    obtain ⟨u, hu⟩ := result_eq_error_iff.mp ht
    rw [hu, h fault t hs, h' fault u hu]

end Action

open Reversible.Action

namespace State

theorem leaves_read (n : Name) (s : State) : leaves (read n) s = s := by
  unfold leaves read
  cases s.value? n with
  | none => rfl
  | some v => rfl

theorem atomic_write (n : Name) (v : Value) (s : State) : Atomic (write n v) s := by
  intro fault t h
  exact (write_eq_error_iff.mp h).2.2

end State

namespace Domain

variable {d : Domain} {n : Name} {s t : State}

theorem read_eq_ok_iff {x : d.Symbol} :
    d.read n s = .ok x t ↔ ∃ v, s.value? n = some v ∧ d.ofValue? v = some x ∧ t = s := by
  simp only [read, State.read_bind_eq_ok_iff]
  apply exists_congr
  intro v
  apply and_congr_right
  intro _
  cases h : d.ofValue? v with
  | none => simp [throw_ne_ok]
  | some y => simp [pure_eq_ok_iff, eq_comm]

theorem leaves_read (d : Domain) (n : Name) (s : State) : leaves (d.read n) s = s := by
  apply Action.leaves_bind (State.leaves_read n s)
  intro v
  cases d.ofValue? v with
  | none => rfl
  | some x => rfl

theorem atomic_write_write {m : Name} (hn : (s.value? n).isSome) (x y : d.Symbol) :
    Atomic (do d.write m x; d.write n y) s := by
  intro fault t h
  obtain ⟨-, -, ht⟩ | ⟨-, h⟩ := State.write_bind_eq_error_iff.mp h
  · exact ht
  · -- The second write could fail only for want of its variable, which was there before the first.
    have hmissing := (State.write_eq_error_iff.mp h).1
    rw [State.value?_insert] at hmissing
    split at hmissing
    · contradiction
    · rw [hmissing] at hn
      contradiction

end Domain

namespace Gate

theorem atomic_applyFlip (s : Step) (st : State) : Atomic (applyFlip s) st := by
  apply atomic_bind (leaves_ofExcept _ st)
  intro n _
  apply atomic_bind (Domain.leaves_read _ n st)
  intro b _
  exact State.atomic_write n _ st

theorem atomic_applySwap (s : Step) (st : State) : Atomic (applySwap s) st := by
  apply atomic_bind (leaves_ofExcept _ st)
  rintro ⟨m, n⟩ _
  apply atomic_bind (Domain.leaves_read _ m st)
  intro a _
  apply atomic_bind (Domain.leaves_read _ n st)
  intro b hb
  obtain ⟨v, hv, -⟩ := Domain.read_eq_ok_iff.mp hb
  apply Domain.atomic_write_write
  rw [hv]
  rfl

theorem atomic_applyXor (s : Step) (st : State) : Atomic (applyXor s) st := by
  apply atomic_bind (leaves_ofExcept _ st)
  intro r _
  apply atomic_bind (leaves_ofExcept _ st)
  rintro ⟨m, n⟩ _
  apply atomic_bind (Domain.leaves_read _ m st)
  intro a _
  apply atomic_bind (Domain.leaves_read _ n st)
  intro b _
  exact State.atomic_write r _ st

end Gate

namespace Evaluator

variable {e : Evaluator}

theorem evaluate_eq_dispatch (e : Evaluator) (s : Step) : e.evaluate s = e.dispatch s (e.evaluateAll s.substeps) := by
  obtain ⟨d, op, t, ts, r, ss⟩ := s
  cases ss with
  | none => rfl
  | some ss => rfl

theorem atomic_dispatch (s : Step) (inner : Action State Unit) (st : State) : Atomic (e.dispatch s inner) st := by
  apply atomic_bind (leaves_ofExcept _ st)
  rintro ⟨d, g⟩ _
  cases g with
  | flip => exact Gate.atomic_applyFlip s st
  | swap => exact Gate.atomic_applySwap s st
  | xor => exact Gate.atomic_applyXor s st
  | noop => exact atomic_pure () st
  | seq =>
    -- The steps inside run on a copy, so nothing need be known about them.
    dsimp only
    split
    · exact atomic_pure () st
    · split
      · exact atomic_atomically inner st
      · exact atomic_throw .unlinkedSequence st

theorem atomic_evaluate (e : Evaluator) (s : Step) (st : State) : Atomic (e.evaluate s) st := by
  rw [evaluate_eq_dispatch]
  exact atomic_dispatch s _ st

theorem evaluate_error_unchanged (e : Evaluator) (t : Step) (s s' : State) (fault : Fault)
    (h : e.evaluate t s = .error fault s') : s' = s :=
  atomic_evaluate e t s fault s' h

theorem evaluate_error_unchanged_deep :
    let e : Evaluator := { defaultDomain := .binary }
    let inner := (Step.ofOp "seq").withSteps
      [(Step.ofOp "swap").withTargets ["a", "b"], (Step.ofOp "flip").withTarget "c"]
    let t := (Step.ofOp "seq").withSteps [(Step.ofOp "flip").withTarget "a", inner]
    let s := State.create ["a", "b"] 0
    let s' := State.ofList [("a", 0), ("b", 0)]
    e.evaluate t s = .error (.unknownVariable "c") s' ∧ s' = s := by
  intro e inner t s s'
  have h : e.evaluate t s = .error (.unknownVariable "c") s' := by decide
  exact ⟨h, evaluate_error_unchanged e t s s' _ h⟩

end Evaluator

end Reversible
