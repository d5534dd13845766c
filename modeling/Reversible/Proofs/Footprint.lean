import Reversible.Proofs.Flattening

namespace Reversible

namespace Action

variable {σ α β : Type} {x : Except Fault α} {f : α → Action σ β} {s t : σ} {b : β}

theorem ofExcept_bind_eq_ok_iff : (ofExcept x >>= f) s = .ok b t ↔ ∃ a, x = .ok a ∧ f a s = .ok b t := by
  cases x with
  | ok a => simp [ofExcept]
  | error fault => simp [ofExcept, bind_eq_ok_iff, throw_ne_ok]

theorem atomically_eq_ok_iff {act : Action σ β} : atomically act s = .ok b t ↔ act s = .ok b t := by
  unfold atomically
  cases act s with
  | ok a u => rfl
  | error fault u => simp

end Action

open Reversible.Action

namespace Domain

theorem ofValue?_binary_eq_some_iff {v : Value} {b : Bool} : binary.ofValue? v = some b ↔ v = binary.toValue b := by
  constructor
  · intro h
    simp only [ofValue?] at h
    split at h
    · cases h
      assumption
    · split at h
      · cases h
        assumption
      · cases h
  · rintro rfl
    cases b <;> rfl

theorem read_bind_eq_ok_iff {d : Domain} {n : Name} {s t : State} {α : Type} {f : d.Symbol → Action State α} {a : α} :
    (d.read n >>= f) s = .ok a t ↔ ∃ v x, s.value? n = some v ∧ d.ofValue? v = some x ∧ f x s = .ok a t := by
  simp only [bind_eq_ok_iff, read_eq_ok_iff]
  constructor
  · rintro ⟨x, _, ⟨v, hv, hx, rfl⟩, h⟩
    exact ⟨v, x, hv, hx, h⟩
  · rintro ⟨v, x, hv, hx, h⟩
    exact ⟨x, s, ⟨v, hv, hx, rfl⟩, h⟩

end Domain

namespace Step

variable {t : Step} {m n : Name}

theorem requireTarget_eq_ok_iff : t.requireTarget = .ok n ↔ t.target = some n := by
  unfold requireTarget
  cases t.target <;> simp

theorem requireTargetPair_eq_ok_iff : t.requireTargetPair = .ok (m, n) ↔ ∃ ns, t.targets = some (m :: n :: ns) := by
  unfold requireTargetPair
  split
  · next a b ns h => simp [h]
  · next h =>
    simp only [reduceCtorEq, false_iff, not_exists]
    intro ns hns
    exact h m n ns hns

theorem requireResult_eq_ok_iff : t.requireResult = .ok n ↔ t.result = some n := by
  unfold requireResult
  cases t.result <;> simp

end Step

namespace Gate

def operands : Gate → Step → List Name
  | .flip, t => t.target.toList
  | .swap, t => (t.targets.getD []).take 2
  | .xor, t => (t.targets.getD []).take 2 ++ t.result.toList
  | .seq, _ => []
  | .noop, _ => []

/-- What a successful gate does to a state. A sequence is none of its own: its steps do all. -/
inductive Applies : Gate → Step → State → State → Prop
  | flip {t : Step} {s : State} {n : Name} {b : Bool} (ht : t.target = some n)
      (hn : s.value? n = some (Domain.binary.toValue b)) : Applies .flip t s (s.insert n (Domain.binary.toValue !b))
  | swap {t : Step} {s : State} {m n : Name} {ns : List Name} {a b : Bool} (ht : t.targets = some (m :: n :: ns))
      (hm : s.value? m = some (Domain.binary.toValue a)) (hn : s.value? n = some (Domain.binary.toValue b)) :
      Applies .swap t s ((s.insert m (Domain.binary.toValue b)).insert n (Domain.binary.toValue a))
  | xor {t : Step} {s : State} {m n r : Name} {ns : List Name} {a b : Bool} (ht : t.targets = some (m :: n :: ns))
      (hr : t.result = some r) (hm : s.value? m = some (Domain.binary.toValue a))
      (hn : s.value? n = some (Domain.binary.toValue b)) (hresult : (s.value? r).isSome) :
      Applies .xor t s (s.insert r (Domain.binary.toValue (a ^^ b)))
  | noop {t : Step} {s : State} : Applies .noop t s s

variable {t : Step} {s s' : State} {g : Gate} {n : Name}

theorem applies_of_applyFlip (h : applyFlip t s = .ok () s') : Applies .flip t s s' := by
  obtain ⟨n, ht, h⟩ := ofExcept_bind_eq_ok_iff.mp h
  obtain ⟨v, b, hv, hb, h⟩ := Domain.read_bind_eq_ok_iff.mp h
  obtain ⟨-, rfl⟩ := State.write_eq_ok_iff.mp h
  rw [Domain.ofValue?_binary_eq_some_iff.mp hb] at hv
  exact .flip (Step.requireTarget_eq_ok_iff.mp ht) hv

theorem applies_of_applySwap (h : applySwap t s = .ok () s') : Applies .swap t s s' := by
  obtain ⟨⟨m, n⟩, ht, h⟩ := ofExcept_bind_eq_ok_iff.mp h
  obtain ⟨v, a, hv, ha, h⟩ := Domain.read_bind_eq_ok_iff.mp h
  obtain ⟨w, b, hw, hb, h⟩ := Domain.read_bind_eq_ok_iff.mp h
  obtain ⟨-, h⟩ := State.write_bind_eq_ok_iff.mp h
  obtain ⟨-, rfl⟩ := State.write_eq_ok_iff.mp h
  rw [Domain.ofValue?_binary_eq_some_iff.mp ha] at hv
  rw [Domain.ofValue?_binary_eq_some_iff.mp hb] at hw
  obtain ⟨ns, ht⟩ := Step.requireTargetPair_eq_ok_iff.mp ht
  exact .swap ht hv hw

theorem applies_of_applyXor (h : applyXor t s = .ok () s') : Applies .xor t s s' := by
  obtain ⟨r, hr, h⟩ := ofExcept_bind_eq_ok_iff.mp h
  obtain ⟨⟨m, n⟩, ht, h⟩ := ofExcept_bind_eq_ok_iff.mp h
  obtain ⟨v, a, hv, ha, h⟩ := Domain.read_bind_eq_ok_iff.mp h
  obtain ⟨w, b, hw, hb, h⟩ := Domain.read_bind_eq_ok_iff.mp h
  obtain ⟨hresult, rfl⟩ := State.write_eq_ok_iff.mp h
  rw [Domain.ofValue?_binary_eq_some_iff.mp ha] at hv
  rw [Domain.ofValue?_binary_eq_some_iff.mp hb] at hw
  obtain ⟨ns, ht⟩ := Step.requireTargetPair_eq_ok_iff.mp ht
  exact .xor ht (Step.requireResult_eq_ok_iff.mp hr) hv hw hresult

theorem applyFlip_of_applies (h : Applies .flip t s s') : applyFlip t s = .ok () s' := by
  cases h with
  | flip ht hn =>
    apply ofExcept_bind_eq_ok_iff.mpr ⟨_, Step.requireTarget_eq_ok_iff.mpr ht, ?_⟩
    apply Domain.read_bind_eq_ok_iff.mpr ⟨_, _, hn, Domain.ofValue?_binary_eq_some_iff.mpr rfl, ?_⟩
    exact State.write_eq_ok_iff.mpr ⟨Option.isSome_of_eq_some hn, rfl⟩

theorem applySwap_of_applies (h : Applies .swap t s s') : applySwap t s = .ok () s' := by
  cases h with
  | swap ht hm hn =>
    apply ofExcept_bind_eq_ok_iff.mpr ⟨_, Step.requireTargetPair_eq_ok_iff.mpr ⟨_, ht⟩, ?_⟩
    apply Domain.read_bind_eq_ok_iff.mpr ⟨_, _, hm, Domain.ofValue?_binary_eq_some_iff.mpr rfl, ?_⟩
    apply Domain.read_bind_eq_ok_iff.mpr ⟨_, _, hn, Domain.ofValue?_binary_eq_some_iff.mpr rfl, ?_⟩
    have hm' := Option.isSome_of_eq_some hm
    apply State.write_bind_eq_ok_iff.mpr ⟨hm', ?_⟩
    apply State.write_eq_ok_iff.mpr ⟨?_, rfl⟩
    rw [State.isSome_value?_insert hm']
    exact Option.isSome_of_eq_some hn

theorem applyXor_of_applies (h : Applies .xor t s s') : applyXor t s = .ok () s' := by
  cases h with
  | xor ht hr hm hn hresult =>
    apply ofExcept_bind_eq_ok_iff.mpr ⟨_, Step.requireResult_eq_ok_iff.mpr hr, ?_⟩
    apply ofExcept_bind_eq_ok_iff.mpr ⟨_, Step.requireTargetPair_eq_ok_iff.mpr ⟨_, ht⟩, ?_⟩
    apply Domain.read_bind_eq_ok_iff.mpr ⟨_, _, hm, Domain.ofValue?_binary_eq_some_iff.mpr rfl, ?_⟩
    apply Domain.read_bind_eq_ok_iff.mpr ⟨_, _, hn, Domain.ofValue?_binary_eq_some_iff.mpr rfl, ?_⟩
    exact State.write_eq_ok_iff.mpr ⟨hresult, rfl⟩

theorem operands_swap {m n : Name} {ns : List Name} (ht : t.targets = some (m :: n :: ns)) :
    Gate.swap.operands t = [m, n] := by
  rw [operands, ht]
  rfl

theorem operands_xor {m n r : Name} {ns : List Name} (ht : t.targets = some (m :: n :: ns)) (hr : t.result = some r) :
    Gate.xor.operands t = [m, n, r] := by
  rw [operands, ht, hr]
  rfl

theorem Applies.isSome_of_mem_operands (h : Applies g t s s') (hn : n ∈ g.operands t) : (s.value? n).isSome := by
  cases h with
  | flip ht hv =>
    rw [operands, ht, Option.toList_some, List.mem_singleton] at hn
    rw [hn]
    exact Option.isSome_of_eq_some hv
  | swap ht hv hw =>
    rw [operands_swap ht] at hn
    simp only [List.mem_cons, List.not_mem_nil, or_false] at hn
    obtain rfl | rfl := hn
    · exact Option.isSome_of_eq_some hv
    · exact Option.isSome_of_eq_some hw
  | xor ht hr hv hw hresult =>
    rw [operands_xor ht hr] at hn
    simp only [List.mem_cons, List.not_mem_nil, or_false] at hn
    obtain rfl | rfl | rfl := hn
    · exact Option.isSome_of_eq_some hv
    · exact Option.isSome_of_eq_some hw
    · exact hresult
  | noop => cases hn

theorem Applies.isSome_value? (h : Applies g t s s') (n : Name) : (s'.value? n).isSome = (s.value? n).isSome := by
  cases h with
  | flip ht hv => exact State.isSome_value?_insert (Option.isSome_of_eq_some hv) n
  | swap ht hv hw =>
    exact State.isSome_value?_insert_insert (Option.isSome_of_eq_some hv) (Option.isSome_of_eq_some hw) n
  | xor ht hr hv hw hresult => exact State.isSome_value?_insert hresult n
  | noop => rfl

theorem mem_of_find? {d : Domain} {op : String} (h : find? d op = some g) : g ∈ ofDomain d ∧ g.name = op := by
  refine ⟨List.mem_of_find?_eq_some h, ?_⟩
  simpa using List.find?_some h

end Gate

namespace Evaluator

variable {e : Evaluator} {t : Step} {s s' : State} {n : Name}

theorem lookup_eq_ok_iff {d : Domain} {g : Gate} :
    e.lookup t = .ok (d, g) ↔ e.domainOf t = .ok d ∧ Gate.find? d t.op = some g := by
  unfold lookup
  cases e.domainOf t with
  | error fault => simp [bind, Except.bind]
  | ok d' =>
    cases h : Gate.find? d' t.op with
    | none =>
      simp only [bind, Except.bind, h, throw, throwThe, MonadExceptOf.throw, reduceCtorEq, Except.ok.injEq, false_iff,
        not_and]
      rintro rfl
      rw [h]
      exact Option.some_ne_none g |>.symm
    | some g' =>
      simp only [bind, Except.bind, h, pure, Except.pure, Except.ok.injEq, Prod.mk.injEq]
      constructor
      · rintro ⟨rfl, rfl⟩
        exact ⟨rfl, h⟩
      · rintro ⟨rfl, hg⟩
        rw [h, Option.some.injEq] at hg
        exact ⟨rfl, hg⟩

theorem isSequence_of_lookup {d : Domain} (h : e.lookup t = .ok (d, .seq)) : e.isSequence t = true := by
  obtain ⟨hd, hg⟩ := lookup_eq_ok_iff.mp h
  obtain ⟨hmem, hop⟩ := Gate.mem_of_find? hg
  -- Only the binary domain has sequences.
  cases d with
  | binary => exact isSequence_iff.mpr ⟨hd, hop.symm⟩
  | ternary => cases hmem
  | natlog => simp [Gate.ofDomain] at hmem

theorem cases_of_evaluate_eq_ok (h : e.evaluate t s = .ok () s') :
    (e.isSequence t = true ∧ e.evaluateAll t.substeps s = .ok () s') ∨
      ∃ d g, e.lookup t = .ok (d, g) ∧ g.Applies t s s' := by
  rw [evaluate_eq_dispatch] at h
  obtain ⟨⟨d, g⟩, hlookup, h⟩ := ofExcept_bind_eq_ok_iff.mp h
  cases g with
  | flip => exact .inr ⟨d, .flip, hlookup, Gate.applies_of_applyFlip h⟩
  | swap => exact .inr ⟨d, .swap, hlookup, Gate.applies_of_applySwap h⟩
  | xor => exact .inr ⟨d, .xor, hlookup, Gate.applies_of_applyXor h⟩
  | noop =>
    obtain ⟨-, rfl⟩ := pure_eq_ok_iff.mp h
    exact .inr ⟨d, .noop, hlookup, .noop⟩
  | seq =>
    refine .inl ⟨isSequence_of_lookup hlookup, ?_⟩
    dsimp only at h
    split at h
    · next hss =>
      rw [hss]
      exact h
    · split at h
      · exact atomically_eq_ok_iff.mp h
      · exact absurd h throw_ne_ok

theorem evaluate_of_applies {d : Domain} {g : Gate} (hlookup : e.lookup t = .ok (d, g)) (h : g.Applies t s s') :
    e.evaluate t s = .ok () s' := by
  rw [evaluate_eq_dispatch]
  apply ofExcept_bind_eq_ok_iff.mpr ⟨(d, g), hlookup, ?_⟩
  cases g with
  | flip => exact Gate.applyFlip_of_applies h
  | swap => exact Gate.applySwap_of_applies h
  | xor => exact Gate.applyXor_of_applies h
  | noop =>
    cases h
    rfl
  | seq => cases h

def operands (e : Evaluator) (t : Step) : List Name :=
  match e.lookup t with
  | .ok (_, g) => g.operands t
  | .error _ => []

def footprint (e : Evaluator) (t : Step) : List Name :=
  (e.flatten t).flatMap e.operands

theorem operands_of_lookup {d : Domain} {g : Gate} (h : e.lookup t = .ok (d, g)) : e.operands t = g.operands t := by
  rw [operands, h]

theorem footprint_sequence (h : e.isSequence t = true) : e.footprint t = t.substeps.flatMap e.footprint := by
  rw [footprint, flatten_sequence h, List.flatMap_assoc]
  rfl

theorem footprint_leaf (h : e.isSequence t = false) : e.footprint t = e.operands t := by
  rw [footprint, flatten_leaf h, List.flatMap_singleton]

theorem footprint_of_lookup {d : Domain} {g : Gate} (h : e.lookup t = .ok (d, g)) (hg : g ≠ .seq) :
    e.footprint t = g.operands t := by
  cases ht : e.isSequence t with
  | true =>
    rw [lookup_sequence ht] at h
    cases h
    exact absurd rfl hg
  | false => rw [footprint_leaf ht, operands_of_lookup h]

theorem evaluateAll_cons_eq_ok_iff {u : Step} {us : List Step} :
    e.evaluateAll (u :: us) s = .ok () s' ↔ ∃ r, e.evaluate u s = .ok () r ∧ e.evaluateAll us r = .ok () s' := by
  rw [evaluateAll, bind_unit_eq_ok_iff]

section Invariant

variable {R : State → State → Prop} (hrefl : ∀ s, R s s) (htrans : ∀ s r s', R s r → R r s' → R s s')

include hrefl htrans

theorem relates_of_evaluateAll {us : List Step} (hus : ∀ u ∈ us, ∀ s s', e.evaluate u s = .ok () s' → R s s')
    (h : e.evaluateAll us s = .ok () s') : R s s' := by
  induction us generalizing s with
  | nil =>
    obtain ⟨-, rfl⟩ := pure_eq_ok_iff.mp h
    exact hrefl s'
  | cons u us ih =>
    obtain ⟨r, hu, hrest⟩ := evaluateAll_cons_eq_ok_iff.mp h
    have hr := hus u List.mem_cons_self s r hu
    have hs' := ih (fun v hv => hus v (List.mem_cons_of_mem u hv)) hrest
    exact htrans s r s' hr hs'

theorem relates_of_evaluate (hgate : ∀ g u s s', Gate.Applies g u s s' → R s s') (h : e.evaluate t s = .ok () s') :
    R s s' := by
  induction t using Step.induction generalizing s s' with
  | sequence t ih =>
    obtain ⟨-, hall⟩ | ⟨d, g, -, hg⟩ := cases_of_evaluate_eq_ok h
    · exact relates_of_evaluateAll hrefl htrans (fun u hu _ _ hu' => ih u hu hu') hall
    · exact hgate g t s s' hg

end Invariant

theorem isSome_value?_of_evaluate (h : e.evaluate t s = .ok () s') (n : Name) :
    (s'.value? n).isSome = (s.value? n).isSome := by
  apply relates_of_evaluate (R := fun s s' => (s'.value? n).isSome = (s.value? n).isSome) _ _ _ h
  · intro s
    rfl
  · intro s r s' hr hs'
    exact hs'.trans hr
  · intro g u s s' hg
    exact hg.isSome_value? n

theorem exists_evaluate_of_evaluateAll {us : List Step} {u : Step} (h : e.evaluateAll us s = .ok () s') (hu : u ∈ us) :
    ∃ r r', (∀ n, (r.value? n).isSome = (s.value? n).isSome) ∧ e.evaluate u r = .ok () r' := by
  induction us generalizing s with
  | nil => cases hu
  | cons v us ih =>
    obtain ⟨q, hv, hrest⟩ := evaluateAll_cons_eq_ok_iff.mp h
    obtain rfl | hu := List.mem_cons.mp hu
    · exact ⟨s, q, fun n => rfl, hv⟩
    · obtain ⟨r, r', hr, hr'⟩ := ih hrest hu
      exact ⟨r, r', fun n => (hr n).trans (isSome_value?_of_evaluate hv n), hr'⟩

theorem isSome_of_mem_footprint (h : e.evaluate t s = .ok () s') (hn : n ∈ e.footprint t) : (s.value? n).isSome := by
  induction t using Step.induction generalizing s s' with
  | sequence t ih =>
    obtain ⟨ht, hall⟩ | ⟨d, g, hlookup, hg⟩ := cases_of_evaluate_eq_ok h
    · rw [footprint_sequence ht] at hn
      obtain ⟨u, hu, hnu⟩ := List.mem_flatMap.mp hn
      obtain ⟨r, r', hr, hr'⟩ := exists_evaluate_of_evaluateAll hall hu
      rw [← hr n]
      exact ih u hu hr' hnu
    · have hseq : g ≠ .seq := by
        rintro rfl
        cases hg
      rw [footprint_of_lookup hlookup hseq] at hn
      exact hg.isSome_of_mem_operands hn

end Evaluator

end Reversible
