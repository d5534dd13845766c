import Reversible.Proofs.Footprint
import Reversible.Proofs.Renaming

/-!
Two runs side by side, of which the second may use other variables. Where reads and writes cannot tell two states apart,
no gate can, and no tree of steps: both runs succeed, or both fail.
-/

namespace Reversible

namespace Action

variable {σ α β γ : Type} {R : σ → σ → Prop} {E : Fault → Fault → Prop} {A : α → α → Prop} {B : β → β → Prop}

inductive Alike (R : σ → σ → Prop) (E : Fault → Fault → Prop) (A : α → α → Prop) :
    EStateM.Result Fault σ α → EStateM.Result Fault σ α → Prop
  | ok {a b : α} {s t : σ} (hvalue : A a b) (hstate : R s t) : Alike R E A (.ok a s) (.ok b t)
  | error {f g : Fault} {s t : σ} (hfault : E f g) : Alike R E A (.error f s) (.error g t)

theorem Alike.of_ok {a : α} {s : σ} {y : EStateM.Result Fault σ α} (h : Alike R E A (.ok a s) y) :
    ∃ b t, y = .ok b t ∧ A a b ∧ R s t := by
  cases h with
  | ok hab hst => exact ⟨_, _, rfl, hab, hst⟩

theorem Alike.of_error {f : Fault} {s : σ} {y : EStateM.Result Fault σ α} (h : Alike R E A (.error f s) y) :
    ∃ g t, y = .error g t ∧ E f g := by
  cases h with
  | error hfg => exact ⟨_, _, rfl, hfg⟩

def Parallel (R : σ → σ → Prop) (E : Fault → Fault → Prop) (A : α → α → Prop) (act act' : Action σ α) : Prop :=
  ∀ s t, R s t → Alike R E A (act s) (act' t)

theorem parallel_pure {a b : α} (h : A a b) : Parallel R E A (pure a) (pure b) := by
  intro s t hst
  exact .ok h hst

theorem parallel_throw {f g : Fault} (h : E f g) : Parallel R E A (throw f) (throw g) := by
  intro s t hst
  exact .error h

theorem Parallel.bind {act act' : Action σ α} {f f' : α → Action σ β} (hact : Parallel R E A act act')
    (hf : ∀ a b, A a b → Parallel R E B (f a) (f' b)) : Parallel R E B (act >>= f) (act' >>= f') := by
  intro s t hst
  have h := hact s t hst
  change Alike R E B (EStateM.bind act f s) (EStateM.bind act' f' t)
  unfold EStateM.bind
  revert h
  generalize act s = x
  generalize act' t = y
  rintro (⟨hab, hst'⟩ | ⟨hfg⟩)
  · exact hf _ _ hab _ _ hst'
  · exact .error hfg

theorem Parallel.atomically {act act' : Action σ α} (hact : Parallel R E A act act') :
    Parallel R E A (atomically act) (atomically act') := by
  intro s t hst
  have h := hact s t hst
  unfold Action.atomically
  revert h
  generalize act s = x
  generalize act' t = y
  rintro (⟨hab, hst'⟩ | ⟨hfg⟩)
  · exact .ok hab hst'
  · exact .error hfg

theorem parallel_ofExcept_bind {x : Except Fault α} {y : Except Fault γ} {g : α → γ} {f : α → Action σ β}
    {f' : γ → Action σ β} (hy : y = x.map g) (herror : ∀ fault, x = .error fault → E fault fault)
    (hok : ∀ a, x = .ok a → Parallel R E B (f a) (f' (g a))) :
    Parallel R E B (ofExcept x >>= f) (ofExcept y >>= f') := by
  subst hy
  cases x with
  | ok a => exact hok a rfl
  | error fault =>
    intro s t hst
    exact .error (herror fault rfl)

end Action

open Reversible.Action

namespace Fault

def about? : Fault → Option Name
  | unknownVariable n => some n
  | aliasedOperands _ n => some n
  | outOfDomain _ n _ => some n
  | missingOperand _ _ => none
  | unknownDomain _ => none
  | unknownOperation _ _ => none
  | unlinkedSequence => none

end Fault

namespace Step

variable {t : Step} {fault : Fault}

theorem about?_of_requireTarget (h : t.requireTarget = .error fault) : fault.about? = none := by
  unfold requireTarget at h
  split at h
  · cases h
  · cases h
    rfl

theorem about?_of_requireTargetPair (h : t.requireTargetPair = .error fault) : fault.about? = none := by
  unfold requireTargetPair at h
  split at h
  · cases h
  · cases h
    rfl

theorem about?_of_requireResult (h : t.requireResult = .error fault) : fault.about? = none := by
  unfold requireResult at h
  split at h
  · cases h
  · cases h
    rfl

end Step

namespace Domain

theorem about?_of_parse {name : String} {fault : Fault} (h : Domain.parse name = .error fault) :
    fault.about? = none := by
  unfold parse at h
  split at h
  · cases h
  · cases h
    rfl

variable {d : Domain} {n : Name} {s : State}

theorem read_of_none (hs : s.value? n = none) : d.read n s = .error (.unknownVariable n) s :=
  bind_of_error (State.read_eq_error_iff.mpr ⟨hs, rfl, rfl⟩)

theorem read_of_symbol {v : Value} {x : d.Symbol} (hs : s.value? n = some v) (hv : d.ofValue? v = some x) :
    d.read n s = .ok x s :=
  read_eq_ok_iff.mpr ⟨v, hs, hv, rfl⟩

theorem read_of_foreign {v : Value} (hs : s.value? n = some v) (hv : d.ofValue? v = none) :
    d.read n s = .error (.outOfDomain d n v) s := by
  unfold read
  rw [bind_of_ok (State.read_eq_ok_iff.mpr ⟨hs, rfl⟩), hv]
  rfl

theorem write_of_none {x : d.Symbol} (hs : s.value? n = none) : d.write n x s = .error (.unknownVariable n) s :=
  State.write_eq_error_iff.mpr ⟨hs, rfl, rfl⟩

theorem write_of_some {v : Value} {x : d.Symbol} (hs : s.value? n = some v) :
    d.write n x s = .ok () (s.insert n (d.toValue x)) :=
  State.write_eq_ok_iff.mpr ⟨Option.isSome_of_eq_some hs, rfl⟩

end Domain

namespace Gate

structure Respects (R : State → State → Prop) (E : Fault → Fault → Prop) (B : Bool → Bool → Prop) (n n' : Name) :
    Prop where
  read : Parallel R E B (Domain.binary.read n) (Domain.binary.read n')
  write : ∀ a b, B a b → Parallel R E Eq (Domain.binary.write n a) (Domain.binary.write n' b)

/-- What gates compute from related bits are related bits, and a fault that is about no variable is related to itself. -/
structure Congruent (E : Fault → Fault → Prop) (B : Bool → Bool → Prop) : Prop where
  fault : ∀ f, f.about? = none → E f f
  negate : ∀ a b, B a b → B (!a) (!b)
  sum : ∀ a b a' b', B a b → B a' b' → B (a ^^ a') (b ^^ b')

variable {R : State → State → Prop} {E : Fault → Fault → Prop} {B : Bool → Bool → Prop} {t : Step} {f : Name → Name}

theorem congruent_eq : Congruent Eq Eq := by
  refine ⟨?_, ?_, ?_⟩
  · intro f _
    rfl
  · rintro a _ rfl
    rfl
  · rintro a _ a' _ rfl rfl
    rfl

theorem parallel_applyFlip (hE : Congruent E B) (h : ∀ n ∈ Gate.flip.operands t, Respects R E B n (f n)) :
    Parallel R E Eq (applyFlip t) (applyFlip (t.rename f)) := by
  apply parallel_ofExcept_bind (t.requireTarget_rename f) (fun g hg => hE.fault g (Step.about?_of_requireTarget hg))
  intro n hn
  have hn : Respects R E B n (f n) := by
    apply h
    rw [operands, Step.requireTarget_eq_ok_iff.mp hn]
    exact List.mem_singleton_self n
  apply hn.read.bind
  intro a b hab
  exact hn.write _ _ (hE.negate a b hab)

theorem parallel_applySwap (hE : Congruent E B) (h : ∀ n ∈ Gate.swap.operands t, Respects R E B n (f n)) :
    Parallel R E Eq (applySwap t) (applySwap (t.rename f)) := by
  apply parallel_ofExcept_bind (t.requireTargetPair_rename f)
    (fun g hg => hE.fault g (Step.about?_of_requireTargetPair hg))
  rintro ⟨m, n⟩ hmn
  obtain ⟨ns, ht⟩ := Step.requireTargetPair_eq_ok_iff.mp hmn
  simp only [operands_swap ht, List.forall_mem_cons] at h
  obtain ⟨hm, hn, -⟩ := h
  apply hm.read.bind
  intro a a' ha
  apply hn.read.bind
  intro b b' hb
  apply (hm.write b b' hb).bind
  intro _ _ _
  exact hn.write a a' ha

theorem parallel_applyXor (hE : Congruent E B) (h : ∀ n ∈ Gate.xor.operands t, Respects R E B n (f n)) :
    Parallel R E Eq (applyXor t) (applyXor (t.rename f)) := by
  apply parallel_ofExcept_bind (t.requireResult_rename f) (fun g hg => hE.fault g (Step.about?_of_requireResult hg))
  intro r hr
  apply parallel_ofExcept_bind (t.requireTargetPair_rename f)
    (fun g hg => hE.fault g (Step.about?_of_requireTargetPair hg))
  rintro ⟨m, n⟩ hmn
  obtain ⟨ns, ht⟩ := Step.requireTargetPair_eq_ok_iff.mp hmn
  simp only [operands_xor ht (Step.requireResult_eq_ok_iff.mp hr), List.forall_mem_cons] at h
  obtain ⟨hm, hn, hr, -⟩ := h
  apply hm.read.bind
  intro a a' ha
  apply hn.read.bind
  intro b b' hb
  exact hr.write _ _ (hE.sum a a' b b' ha hb)

def Pointwise (W : Name → Option Value → Option Value → Prop) (s s' : State) : Prop :=
  ∀ n, W n (s.value? n) (s'.value? n)

inductive Readable (E : Fault → Fault → Prop) (B : Bool → Bool → Prop) (n : Name) : Option Value → Option Value → Prop
  | none (hfault : E (.unknownVariable n) (.unknownVariable n)) : Readable E B n .none .none
  | foreign {v : Value} (hv : Domain.binary.ofValue? v = .none)
      (hfault : E (.outOfDomain .binary n v) (.outOfDomain .binary n v)) : Readable E B n (some v) (some v)
  | bit {a b : Bool} (hbit : B a b) :
      Readable E B n (some (Domain.binary.toValue a)) (some (Domain.binary.toValue b))

theorem pointwise_insert {W : Name → Option Value → Option Value → Prop} {s s' : State} {n : Name} {v w : Value}
    (hss : Pointwise W s s') (hvw : W n (some v) (some w)) : Pointwise W (s.insert n v) (s'.insert n w) := by
  intro m
  rw [State.value?_insert, State.value?_insert]
  by_cases hnm : n = m
  · subst hnm
    rwa [if_pos rfl, if_pos rfl]
  · rw [if_neg hnm, if_neg hnm]
    exact hss m

theorem respects_pointwise {W : Name → Option Value → Option Value → Prop} {n : Name}
    (hread : ∀ x y, W n x y → Readable E B n x y)
    (hwrite : ∀ a b, B a b → W n (some (Domain.binary.toValue a)) (some (Domain.binary.toValue b))) :
    Respects (Pointwise W) E B n n := by
  constructor
  · intro s s' hss
    have h := hread _ _ (hss n)
    generalize hs : s.value? n = x at h
    generalize hs' : s'.value? n = y at h
    cases h with
    | none hfault =>
      rw [Domain.read_of_none hs, Domain.read_of_none hs']
      exact .error hfault
    | foreign hv hfault =>
      rw [Domain.read_of_foreign hs hv, Domain.read_of_foreign hs' hv]
      exact .error hfault
    | bit hbit =>
      rw [Domain.read_of_symbol hs (Domain.ofValue?_binary_eq_some_iff.mpr rfl),
        Domain.read_of_symbol hs' (Domain.ofValue?_binary_eq_some_iff.mpr rfl)]
      exact .ok hbit hss
  · intro a b hab s s' hss
    have h := hread _ _ (hss n)
    have hinsert := pointwise_insert hss (hwrite a b hab)
    generalize hs : s.value? n = x at h
    generalize hs' : s'.value? n = y at h
    cases h with
    | none hfault =>
      rw [Domain.write_of_none hs, Domain.write_of_none hs']
      exact .error hfault
    | foreign hv hfault =>
      rw [Domain.write_of_some hs, Domain.write_of_some hs']
      exact .ok rfl hinsert
    | bit hbit =>
      rw [Domain.write_of_some hs, Domain.write_of_some hs']
      exact .ok rfl hinsert

theorem readable_self {n : Name} (hfault : ∀ f, E f f) (hbit : ∀ b, B b b) (x : Option Value) : Readable E B n x x := by
  cases x with
  | none => exact .none (hfault _)
  | some v =>
    cases hv : Domain.binary.ofValue? v with
    | none => exact .foreign hv (hfault _)
    | some b =>
      rw [Domain.ofValue?_binary_eq_some_iff.mp hv]
      exact .bit (hbit b)

end Gate

namespace Evaluator

open Gate (Respects Congruent)

variable {e : Evaluator} {t : Step} {R : State → State → Prop} {E : Fault → Fault → Prop} {B : Bool → Bool → Prop}
  {f : Name → Name}

theorem about?_of_lookup {fault : Fault} (h : e.lookup t = .error fault) : fault.about? = none := by
  unfold lookup at h
  cases hd : e.domainOf t with
  | error f =>
    rw [hd] at h
    cases h
    unfold domainOf at hd
    split at hd
    · cases hd
    · exact Domain.about?_of_parse hd
  | ok d =>
    simp only [hd, bind, Except.bind] at h
    split at h
    · cases h
    · cases h
      rfl

theorem parallel_evaluateAll {us : List Step}
    (h : ∀ u ∈ us, Parallel R E Eq (e.evaluate u) (e.evaluate (u.rename f))) :
    Parallel R E Eq (e.evaluateAll us) (e.evaluateAll (us.map (Step.rename f))) := by
  induction us with
  | nil => exact parallel_pure rfl
  | cons u us ih =>
    rw [List.map_cons, evaluateAll, evaluateAll]
    apply (h u List.mem_cons_self).bind
    intro _ _ _
    exact ih fun v hv => h v (List.mem_cons_of_mem u hv)

theorem parallel_evaluate_rename (hE : Congruent E B) (h : ∀ n ∈ e.footprint t, Respects R E B n (f n)) :
    Parallel R E Eq (e.evaluate t) (e.evaluate (t.rename f)) := by
  induction t using Step.induction with
  | sequence t ih =>
    have hsame : e.lookup (t.rename f) = (e.lookup t).map id := by rw [lookup_rename, Except.map_id, id]
    rw [evaluate_eq_dispatch, evaluate_eq_dispatch]
    apply parallel_ofExcept_bind hsame (fun g hg => hE.fault g (about?_of_lookup hg))
    rintro ⟨d, g⟩ hlookup
    have hleaf : g ≠ .seq → ∀ n ∈ g.operands t, Respects R E B n (f n) := by
      intro hg
      rw [← footprint_of_lookup hlookup hg]
      exact h
    cases g with
    | flip => exact Gate.parallel_applyFlip hE (hleaf (by decide))
    | swap => exact Gate.parallel_applySwap hE (hleaf (by decide))
    | xor => exact Gate.parallel_applyXor hE (hleaf (by decide))
    | noop => exact parallel_pure rfl
    | seq =>
      rw [footprint_sequence (isSequence_of_lookup hlookup)] at h
      have hall : Parallel R E Eq (e.evaluateAll t.substeps) (e.evaluateAll (t.rename f).substeps) := by
        rw [Step.substeps_rename]
        apply parallel_evaluateAll
        intro u hu
        exact ih u hu fun n hn => h n (List.mem_flatMap.mpr ⟨u, hu, hn⟩)
      have hnil : (t.rename f).substeps = [] ↔ t.substeps = [] := by
        rw [Step.substeps_rename, List.map_eq_nil_iff]
      simp only [id, hnil]
      split
      · exact parallel_pure rfl
      · split
        · exact hall.atomically
        · exact parallel_throw (hE.fault _ rfl)

theorem parallel_evaluate (hE : Congruent E B) (h : ∀ n ∈ e.footprint t, Respects R E B n n) :
    Parallel R E Eq (e.evaluate t) (e.evaluate t) := by
  have hrename := parallel_evaluate_rename (f := id) hE h
  rwa [Step.rename_id] at hrename

theorem outcomes_of_alike {s s' : State} (h : Alike R Eq Eq (e.evaluate t s) (e.evaluate t s')) :
    (∃ fault, e.evaluate t s = .error fault s ∧ e.evaluate t s' = .error fault s') ∨
      ∃ u u', e.evaluate t s = .ok () u ∧ e.evaluate t s' = .ok () u' ∧ R u u' := by
  cases hs : e.evaluate t s with
  | ok _ u =>
    rw [hs] at h
    obtain ⟨_, u', hs', -, hu⟩ := h.of_ok
    exact .inr ⟨u, u', rfl, hs', hu⟩
  | error fault u =>
    rw [hs] at h
    obtain ⟨_, u', hs', rfl⟩ := h.of_error
    -- A failure leaves the states as they were.
    obtain rfl := atomic_evaluate e t s fault u hs
    obtain rfl := atomic_evaluate e t s' fault u' hs'
    exact .inl ⟨fault, rfl, hs'⟩

end Evaluator

end Reversible
