import Mathlib.Data.Fin.VecNotation
import Mathlib.Data.Option.NAry
import Reversible.Proofs.Admission
import Reversible.Proofs.Footprint

/-!
States combined name by name. A program of instructions carries the sum of two states to the sum of what it makes of
each, so it is linear; a tree of steps carries the exclusive-or of three states to the exclusive-or of what it makes of
each, so it is affine.
-/

namespace Reversible

namespace Action

variable {σ ι α : Type} {combine : (ι → σ) → σ} {act act' : Action σ Unit}

/-- Where the action succeeds on each state of a family, it succeeds on their combination, and what it makes of that is
the combination of what it makes of each. -/
def Carries (combine : (ι → σ) → σ) (act : Action σ Unit) : Prop :=
  ∀ s s' : ι → σ, (∀ k, act (s k) = .ok () (s' k)) → act (combine s) = .ok () (combine s')

theorem carries_pure : Carries combine (pure ()) := by
  intro s s' h
  obtain rfl : s' = s := funext fun k => (pure_eq_ok_iff.mp (h k)).2
  rfl

theorem Carries.bind (hact : Carries combine act) (hact' : Carries combine act') :
    Carries combine (act >>= fun _ => act') := by
  intro s s' h
  choose u hu hs' using fun k => bind_unit_eq_ok_iff.mp (h k)
  exact bind_unit_eq_ok_iff.mpr ⟨combine u, hact s u hu, hact' u s' hs'⟩

theorem Carries.atomically (hact : Carries combine act) : Carries combine (atomically act) := by
  intro s s' h
  exact atomically_eq_ok_iff.mpr (hact s s' fun k => atomically_eq_ok_iff.mp (h k))

theorem carries_forM {run : α → Action σ Unit} {items : List α} (h : ∀ i ∈ items, Carries combine (run i)) :
    Carries combine (forM items run) := by
  induction items with
  | nil => exact carries_pure
  | cons i items ih =>
    obtain ⟨hi, hitems⟩ := List.forall_mem_cons.mp h
    rw [List.forM_cons]
    exact hi.bind (ih hitems)

end Action

open Reversible.Action

namespace State

def zipWith (f : Value → Value → Value) (s t : State) : State :=
  ⟨s.values.filterMap fun n v => (t.value? n).map (f v)⟩

instance : Add State where
  add := zipWith (· + ·)

/-- Of states that hold bits, this is the exclusive-or of the bits at each name. -/
instance : XorOp State where
  xor := zipWith (· ^^^ ·)

variable {f : Value → Value → Value} {s t x y z : State} {n : Name} {v w : Value} {a b c : Bool}

theorem value?_zipWith (f : Value → Value → Value) (s t : State) (n : Name) :
    (zipWith f s t).value? n = Option.map₂ f (s.value? n) (t.value? n) :=
  Std.ExtTreeMap.getElem?_filterMap'

theorem value?_zipWith_of_value? (hs : s.value? n = some v) (ht : t.value? n = some w) :
    (zipWith f s t).value? n = some (f v w) := by
  rw [value?_zipWith, hs, ht, Option.map₂_some_some]

theorem zipWith_insert (f : Value → Value → Value) (s t : State) (n : Name) (v w : Value) :
    zipWith f (s.insert n v) (t.insert n w) = (zipWith f s t).insert n (f v w) := by
  apply ext_value?
  intro m
  simp only [value?_zipWith, value?_insert]
  split
  · rfl
  · rfl

theorem value?_add (hs : s.value? n = some v) (ht : t.value? n = some w) : (s + t).value? n = some (v + w) :=
  value?_zipWith_of_value? hs ht

theorem add_insert (s t : State) (n : Name) (v w : Value) :
    s.insert n v + t.insert n w = (s + t).insert n (v + w) :=
  zipWith_insert _ s t n v w

theorem add_self_eq_iff : s + s = s ↔ ∀ n v, s.value? n = some v → v = 0 := by
  constructor
  · intro h n v hv
    have hsum := value?_add hv hv
    rw [h, hv, Option.some.injEq] at hsum
    exact Int64.add_eq_right.mp hsum.symm
  · intro h
    apply ext_value?
    intro n
    cases hn : s.value? n with
    | none =>
      change (zipWith _ s s).value? n = none
      rw [value?_zipWith, hn, Option.map₂_none_left]
    | some v =>
      obtain rfl := h n v hn
      exact value?_add hn hn

theorem toValue_xor (a b : Bool) :
    Domain.binary.toValue a ^^^ Domain.binary.toValue b = Domain.binary.toValue (a ^^ b) := by
  cases a <;> cases b <;> rfl

theorem value?_xor (hx : x.value? n = some (Domain.binary.toValue a))
    (hy : y.value? n = some (Domain.binary.toValue b)) :
    (x ^^^ y).value? n = some (Domain.binary.toValue (a ^^ b)) := by
  rw [← toValue_xor]
  exact value?_zipWith_of_value? hx hy

theorem xor_insert (x y : State) (n : Name) (a b : Bool) :
    x.insert n (Domain.binary.toValue a) ^^^ y.insert n (Domain.binary.toValue b) =
      (x ^^^ y).insert n (Domain.binary.toValue (a ^^ b)) := by
  rw [← toValue_xor]
  exact zipWith_insert _ x y n _ _

theorem isSome_value?_xor (hx : (x.value? n).isSome) (hy : (y.value? n).isSome) : ((x ^^^ y).value? n).isSome := by
  obtain ⟨v, hv⟩ := Option.isSome_iff_exists.mp hx
  obtain ⟨w, hw⟩ := Option.isSome_iff_exists.mp hy
  exact Option.isSome_of_eq_some (value?_zipWith_of_value? hv hw)

end State

namespace Instruction

variable {i : Instruction} {s t s' t' : State}

theorem Executes.superpose (hs : Executes i s s') (ht : Executes i t t') : Executes i (s + t) (s' + t') := by
  cases hs with
  | @add _ a b x y hne ha hb =>
    cases ht with
    | @add _ _ _ x' y' _ ha' hb' =>
      have hsum : x + y + (x' + y') = x + x' + (y + y') := by ac_rfl
      rw [State.add_insert, hsum]
      exact .add hne (State.value?_add ha ha') (State.value?_add hb hb')
  | @sub _ a b x y hne ha hb =>
    cases ht with
    | @sub _ _ _ x' y' _ ha' hb' =>
      have hdifference : x - y + (x' - y') = x + x' - (y + y') := by grind
      rw [State.add_insert, hdifference]
      exact .sub hne (State.value?_add ha ha') (State.value?_add hb hb')
  | swap ha hb =>
    cases ht with
    | swap ha' hb' =>
      rw [State.add_insert, State.add_insert]
      exact .swap (State.value?_add ha ha') (State.value?_add hb hb')
  | @negate _ a x ha =>
    cases ht with
    | @negate _ _ x' ha' =>
      have hnegative : -x + -x' = -(x + x') := by grind
      rw [State.add_insert, hnegative]
      exact .negate (State.value?_add ha ha')
  | noop =>
    cases ht
    exact .noop

end Instruction

namespace Program

theorem carries_sum (p : Program) : Carries (fun s : Fin 2 → State => s 0 + s 1) p.execute := by
  rw [execute_eq_forM]
  apply carries_forM
  intro i _ s s' h
  have hexecutes := fun k => Instruction.executes_of_execute (h k)
  exact ((hexecutes 0).superpose (hexecutes 1)).execute

theorem execute_sum {p : Program} {s t s' t' : State} (hs : p.execute s = .ok () s') (ht : p.execute t = .ok () t') :
    p.execute (s + t) = .ok () (s' + t') :=
  p.carries_sum ![s, t] ![s', t'] (Fin.forall_fin_two.mpr ⟨hs, ht⟩)

theorem isSome_value?_of_execute {p : Program} {s s' : State} (h : p.execute s = .ok () s') (n : Name) :
    (s'.value? n).isSome = (s.value? n).isSome := by
  rw [← isSome_value?_leaves p s n, leaves_of_ok h]

theorem execute_zero {p : Program} {s s' : State} (hs : ∀ n v, s.value? n = some v → v = 0)
    (h : p.execute s = .ok () s') : s' = s := by
  -- The state is its own sum with itself, so its outcome is too.
  have hsum := execute_sum h h
  rw [State.add_self_eq_iff.mpr hs, h] at hsum
  have hzero := State.add_self_eq_iff.mp (EStateM.Result.ok.inj hsum).2.symm
  apply State.ext_value?
  intro n
  have hnames := isSome_value?_of_execute h n
  cases hn : s.value? n with
  | none => simpa [hn] using hnames
  | some v =>
    rw [hn, Option.isSome_some, Option.isSome_iff_exists] at hnames
    obtain ⟨w, hw⟩ := hnames
    rw [hw, hzero n w hw, hs n v hn]

theorem execute_linear (p : Program) :
    (∀ s t s' t', p.execute s = .ok () s' → p.execute t = .ok () t' → p.execute (s + t) = .ok () (s' + t')) ∧
      ∀ s s', (∀ n v, s.value? n = some v → v = 0) → p.execute s = .ok () s' → s' = s := by
  constructor
  · intro s t s' t' hs ht
    exact execute_sum hs ht
  · intro s s' hs h
    exact execute_zero hs h

/-- The least value is its own negative, and `b` overflows in the run on `s` but not in the run on `t`. -/
theorem execute_linear_at_the_edges :
    let p : Program := [.negate "a", .add "b" "a", .swap "a" "c", .swap "a" "a", .sub "b" "a"]
    let s := State.ofList [("a", Int64.minValue), ("b", 1), ("c", 5)]
    let t := State.ofList [("a", Int64.minValue), ("b", Int64.maxValue), ("c", -4)]
    let u := State.ofList [("a", 0), ("b", Int64.minValue), ("c", 1)]
    let s' := State.ofList [("a", 5), ("b", Int64.maxValue - 3), ("c", Int64.minValue)]
    let t' := State.ofList [("a", -4), ("b", 3), ("c", Int64.minValue)]
    let u' := State.ofList [("a", 1), ("b", Int64.maxValue), ("c", 0)]
    let z := State.create ["a", "b", "c"] 0
    let z' := State.create ["c", "b", "a"] 0
    (p.execute s = .ok () s' ∧ p.execute t = .ok () t' ∧ s + t = u ∧ s' + t' = u' ∧ p.execute u = .ok () u') ∧
      (∀ n v, z.value? n = some v → v = 0) ∧ p.execute z = .ok () z' ∧ z' = z := by
  intro p s t u s' t' u' z z'
  obtain ⟨hlinear, hfixed⟩ := execute_linear p
  have hs : p.execute s = .ok () s' := by decide
  have ht : p.execute t = .ok () t' := by decide
  have hu : s + t = u := by decide +kernel
  have hu' : s' + t' = u' := by decide +kernel
  have hsum := hlinear s t s' t' hs ht
  rw [hu, hu'] at hsum
  have hz : ∀ n v, z.value? n = some v → v = 0 := State.add_self_eq_iff.mp (by decide +kernel)
  have hz' : p.execute z = .ok () z' := by decide
  exact ⟨⟨hs, ht, hu, hu', hsum⟩, hz, hz', hfixed z z' hz hz'⟩

end Program

namespace Gate

variable {g : Gate} {t : Step} {s s' x y z x' y' z' : State} {m n r : Name} {ns : List Name}

theorem applies_flip_iff (ht : t.target = some n) :
    Gate.flip.Applies t s s' ↔
      ∃ a, s.value? n = some (Domain.binary.toValue a) ∧ s' = s.insert n (Domain.binary.toValue !a) := by
  constructor
  · intro h
    cases h with
    | flip ht' hn =>
      rw [ht, Option.some.injEq] at ht'
      subst ht'
      exact ⟨_, hn, rfl⟩
  · rintro ⟨a, hn, rfl⟩
    exact .flip ht hn

theorem applies_swap_iff (ht : t.targets = some (m :: n :: ns)) :
    Gate.swap.Applies t s s' ↔
      ∃ a b, s.value? m = some (Domain.binary.toValue a) ∧ s.value? n = some (Domain.binary.toValue b) ∧
        s' = (s.insert m (Domain.binary.toValue b)).insert n (Domain.binary.toValue a) := by
  constructor
  · intro h
    cases h with
    | swap ht' hm hn =>
      rw [ht] at ht'
      cases ht'
      exact ⟨_, _, hm, hn, rfl⟩
  · rintro ⟨a, b, hm, hn, rfl⟩
    exact .swap ht hm hn

theorem applies_xor_iff (ht : t.targets = some (m :: n :: ns)) (hr : t.result = some r) :
    Gate.xor.Applies t s s' ↔
      ∃ a b, s.value? m = some (Domain.binary.toValue a) ∧ s.value? n = some (Domain.binary.toValue b) ∧
        (s.value? r).isSome ∧ s' = s.insert r (Domain.binary.toValue (a ^^ b)) := by
  constructor
  · intro h
    cases h with
    | xor ht' hr' hm hn hresult =>
      rw [ht] at ht'
      rw [hr] at hr'
      cases ht'
      cases hr'
      exact ⟨_, _, hm, hn, hresult, rfl⟩
  · rintro ⟨a, b, hm, hn, hresult, rfl⟩
    exact .xor ht hr hm hn hresult

theorem Applies.superpose (hx : g.Applies t x x') (hy : g.Applies t y y') (hz : g.Applies t z z') :
    g.Applies t (x ^^^ y ^^^ z) (x' ^^^ y' ^^^ z') := by
  cases hx with
  | @flip t x n a ht ha =>
    obtain ⟨b, hb, rfl⟩ := (applies_flip_iff ht).mp hy
    obtain ⟨c, hc, rfl⟩ := (applies_flip_iff ht).mp hz
    rw [State.xor_insert, State.xor_insert]
    have hnot : ((!a) ^^ (!b) ^^ (!c)) = !(a ^^ b ^^ c) := by simp
    rw [hnot]
    exact .flip ht (State.value?_xor (State.value?_xor ha hb) hc)
  | @swap t x m n ns a a' ht ha ha' =>
    obtain ⟨b, b', hb, hb', rfl⟩ := (applies_swap_iff ht).mp hy
    obtain ⟨c, c', hc, hc', rfl⟩ := (applies_swap_iff ht).mp hz
    simp only [State.xor_insert]
    exact .swap ht (State.value?_xor (State.value?_xor ha hb) hc) (State.value?_xor (State.value?_xor ha' hb') hc')
  | @xor t x m n r ns a a' ht hr ha ha' hrx =>
    obtain ⟨b, b', hb, hb', hry, rfl⟩ := (applies_xor_iff ht hr).mp hy
    obtain ⟨c, c', hc, hc', hrz, rfl⟩ := (applies_xor_iff ht hr).mp hz
    have hsum : ∀ a a' b b' c c' : Bool,
        ((a ^^ a') ^^ (b ^^ b') ^^ (c ^^ c')) = ((a ^^ b ^^ c) ^^ (a' ^^ b' ^^ c')) := by decide
    rw [State.xor_insert, State.xor_insert, hsum]
    exact .xor ht hr (State.value?_xor (State.value?_xor ha hb) hc) (State.value?_xor (State.value?_xor ha' hb') hc')
      (State.isSome_value?_xor (State.isSome_value?_xor hrx hry) hrz)
  | noop =>
    cases hy
    cases hz
    exact .noop

end Gate

namespace Evaluator

variable {e : Evaluator} {t : Step}

theorem applies_of_evaluate {d : Domain} {g : Gate} {s s' : State} (hlookup : e.lookup t = .ok (d, g))
    (hseq : e.isSequence t = false) (h : e.evaluate t s = .ok () s') : g.Applies t s s' := by
  obtain ⟨hseq', -⟩ | ⟨d', g', hlookup', happlies⟩ := cases_of_evaluate_eq_ok h
  · rw [hseq] at hseq'
    cases hseq'
  · rw [hlookup] at hlookup'
    cases hlookup'
    exact happlies

theorem carries_parity (he : e.linked = true) (t : Step) :
    Carries (fun s : Fin 3 → State => s 0 ^^^ s 1 ^^^ s 2) (e.evaluate t) := by
  induction t using Step.induction with
  | sequence t ih =>
    cases hseq : e.isSequence t with
    | true =>
      rw [evaluate_sequence he hseq, evaluateAll_eq_forM]
      exact (carries_forM ih).atomically
    | false =>
      intro s s' h
      obtain ⟨hseq', -⟩ | ⟨d, g, hlookup, -⟩ := cases_of_evaluate_eq_ok (h 0)
      · rw [hseq] at hseq'
        cases hseq'
      have happlies := fun k => applies_of_evaluate hlookup hseq (h k)
      exact evaluate_of_applies hlookup ((happlies 0).superpose (happlies 1) (happlies 2))

theorem evaluate_affine (e : Evaluator) (he : e.linked = true) (t : Step) (x y z x' y' z' : State)
    (hx : e.evaluate t x = .ok () x') (hy : e.evaluate t y = .ok () y') (hz : e.evaluate t z = .ok () z') :
    e.evaluate t (x ^^^ y ^^^ z) = .ok () (x' ^^^ y' ^^^ z') :=
  carries_parity he t ![x, y, z] ![x', y', z'] (by simp [Fin.forall_fin_succ, hx, hy, hz])

theorem evaluate_affine_aliased :
    let e : Evaluator := { defaultDomain := .binary }
    let t := (Step.ofOp "seq").withSteps
      [((Step.ofOp "xor").withTargets ["a", "b"]).withResult "a",
        (Step.ofOp "seq").withSteps
          [(Step.ofOp "swap").withTargets ["b", "b"], ((Step.ofOp "xor").withTargets ["c", "c"]).withResult "b"],
        (Step.ofOp "flip").withTarget "c"]
    let x := State.ofList [("a", 0), ("b", 0), ("c", 0)]
    let y := State.ofList [("a", 1), ("b", 1), ("c", 0)]
    let z := State.ofList [("a", 0), ("b", 1), ("c", 1)]
    let u := State.ofList [("a", 1), ("b", 0), ("c", 1)]
    let x' := State.ofList [("a", 0), ("b", 0), ("c", 1)]
    let y' := State.ofList [("a", 0), ("b", 0), ("c", 1)]
    let z' := State.ofList [("a", 1), ("b", 0), ("c", 0)]
    let u' := State.ofList [("a", 1), ("b", 0), ("c", 0)]
    e.linked = true ∧
      (e.evaluate t x = .ok () x' ∧ e.evaluate t y = .ok () y' ∧ e.evaluate t z = .ok () z') ∧
      x ^^^ y ^^^ z = u ∧ x' ^^^ y' ^^^ z' = u' ∧ e.evaluate t u = .ok () u' := by
  intro e t x y z u x' y' z' u'
  have hx : e.evaluate t x = .ok () x' := by decide
  have hy : e.evaluate t y = .ok () y' := by decide
  have hz : e.evaluate t z = .ok () z' := by decide
  have hu : x ^^^ y ^^^ z = u := by decide +kernel
  have hu' : x' ^^^ y' ^^^ z' = u' := by decide +kernel
  have hparity := evaluate_affine e rfl t x y z x' y' z' hx hy hz
  rw [hu, hu'] at hparity
  exact ⟨rfl, ⟨hx, hy, hz⟩, hu, hu', hparity⟩

end Evaluator

end Reversible
