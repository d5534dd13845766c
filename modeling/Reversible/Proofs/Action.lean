import Reversible.State

namespace Reversible

section Sequence

variable {ε σ α β : Type}

def leaves (act : EStateM ε σ α) (s : σ) : σ :=
  match act s with
  | .ok _ t => t
  | .error _ t => t

theorem leaves_of_ok {act : EStateM ε σ α} {s t : σ} {a : α} (h : act s = .ok a t) : leaves act s = t := by
  simp only [leaves, h]

theorem leaves_of_error {act : EStateM ε σ α} {s t : σ} {e : ε} (h : act s = .error e t) : leaves act s = t := by
  simp only [leaves, h]

theorem bind_of_ok {act : EStateM ε σ α} {f : α → EStateM ε σ β} {s t : σ} {a : α} (h : act s = .ok a t) :
    (act >>= f) s = f a t := by
  change EStateM.bind act f s = f a t
  simp only [EStateM.bind, h]

theorem bind_of_error {act : EStateM ε σ α} {f : α → EStateM ε σ β} {s t : σ} {e : ε} (h : act s = .error e t) :
    (act >>= f) s = .error e t := by
  change EStateM.bind act f s = .error e t
  simp only [EStateM.bind, h]

theorem leaves_bind_pure {act : EStateM ε σ α} {b : β} {s : σ} : leaves (act >>= fun _ => pure b) s = leaves act s := by
  cases h : act s with
  | ok a t => rw [leaves_of_ok h, leaves, bind_of_ok h]; rfl
  | error e t => rw [leaves_of_error h, leaves_of_error (bind_of_error h)]

theorem bind_eq_ok_iff {act : EStateM ε σ α} {f : α → EStateM ε σ β} {s u : σ} {b : β} :
    (act >>= f) s = .ok b u ↔ ∃ a t, act s = .ok a t ∧ f a t = .ok b u := by
  cases h : act s with
  | ok a t => simp [bind_of_ok h, and_assoc]
  | error e t => simp [bind_of_error h]

theorem bind_unit_eq_ok_iff {act : EStateM ε σ Unit} {f : Unit → EStateM ε σ β} {s u : σ} {b : β} :
    (act >>= f) s = .ok b u ↔ ∃ t, act s = .ok () t ∧ f () t = .ok b u := by
  rw [bind_eq_ok_iff]
  constructor
  · rintro ⟨_, t, h⟩
    exact ⟨t, h⟩
  · rintro ⟨t, h⟩
    exact ⟨(), t, h⟩

theorem bind_eq_error_iff {act : EStateM ε σ α} {f : α → EStateM ε σ β} {s u : σ} {e : ε} :
    (act >>= f) s = .error e u ↔ act s = .error e u ∨ ∃ a t, act s = .ok a t ∧ f a t = .error e u := by
  cases h : act s with
  | ok a t => simp [bind_of_ok h, and_assoc]
  | error e t => simp [bind_of_error h]

theorem pure_eq_ok_iff {s t : σ} {a b : α} : (pure a : EStateM ε σ α) s = .ok b t ↔ b = a ∧ t = s := by
  change EStateM.Result.ok a s = .ok b t ↔ _
  simp [eq_comm]

theorem pure_ne_error {s t : σ} {a : α} {e : ε} : (pure a : EStateM ε σ α) s ≠ .error e t := by
  change EStateM.Result.ok a s ≠ .error e t
  simp

theorem throw_ne_ok {s t : σ} {a : α} {e : ε} : (throw e : EStateM ε σ α) s ≠ .ok a t := by
  change EStateM.Result.error e s ≠ .ok a t
  simp

theorem throw_eq_error_iff {s t : σ} {e e' : ε} :
    (throw e : EStateM ε σ α) s = .error e' t ↔ e' = e ∧ t = s := by
  change EStateM.Result.error e s = .error e' t ↔ _
  simp [eq_comm]

theorem except_bind_eq_ok_iff {x : Except ε α} {f : α → Except ε β} {b : β} :
    (x >>= f) = .ok b ↔ ∃ a, x = .ok a ∧ f a = .ok b := by
  cases x with
  | ok a => simp [bind, Except.bind]
  | error e => simp [bind, Except.bind]

theorem except_map_eq_error_iff {x : Except ε α} {f : α → β} {e : ε} : x.map f = .error e ↔ x = .error e := by
  cases x with
  | ok a => simp [Except.map]
  | error e' => simp [Except.map]

end Sequence

namespace State

variable {α : Type} {s t : State} {n : Name} {v : Value} {a : α} {fault : Fault}

theorem read_eq_ok_iff : read n s = .ok v t ↔ s.value? n = some v ∧ t = s := by
  unfold read
  cases s.value? n with
  | none => simp
  | some w => simp [eq_comm]

theorem read_eq_error_iff : read n s = .error fault t ↔ s.value? n = none ∧ fault = .unknownVariable n ∧ t = s := by
  unfold read
  cases s.value? n with
  | none => simp [eq_comm]
  | some w => simp

theorem write_eq_ok_iff {u : Unit} : write n v s = .ok u t ↔ (s.value? n).isSome ∧ t = s.insert n v := by
  unfold write
  cases s.value? n with
  | none => simp
  | some w => simp [eq_comm]

theorem write_eq_error_iff :
    write n v s = .error fault t ↔ s.value? n = none ∧ fault = .unknownVariable n ∧ t = s := by
  unfold write
  cases s.value? n with
  | none => simp [eq_comm]
  | some w => simp

theorem read_bind_eq_ok_iff {f : Value → Action State α} :
    (read n >>= f) s = .ok a t ↔ ∃ v, s.value? n = some v ∧ f v s = .ok a t := by
  simp only [bind_eq_ok_iff, read_eq_ok_iff]
  constructor
  · rintro ⟨v, _, ⟨hv, rfl⟩, h⟩
    exact ⟨v, hv, h⟩
  · rintro ⟨v, hv, h⟩
    exact ⟨v, s, ⟨hv, rfl⟩, h⟩

theorem read_bind_eq_error_iff {f : Value → Action State α} :
    (read n >>= f) s = .error fault t ↔
      (s.value? n = none ∧ fault = .unknownVariable n ∧ t = s) ∨
        ∃ v, s.value? n = some v ∧ f v s = .error fault t := by
  simp only [bind_eq_error_iff, read_eq_ok_iff, read_eq_error_iff]
  apply or_congr Iff.rfl
  constructor
  · rintro ⟨v, _, ⟨hv, rfl⟩, h⟩
    exact ⟨v, hv, h⟩
  · rintro ⟨v, hv, h⟩
    exact ⟨v, s, ⟨hv, rfl⟩, h⟩

theorem write_bind_eq_ok_iff {f : Unit → Action State α} :
    (write n v >>= f) s = .ok a t ↔ (s.value? n).isSome ∧ f () (s.insert n v) = .ok a t := by
  simp only [bind_eq_ok_iff, write_eq_ok_iff]
  constructor
  · rintro ⟨_, _, ⟨hv, rfl⟩, h⟩
    exact ⟨hv, h⟩
  · rintro ⟨hv, h⟩
    exact ⟨(), _, ⟨hv, rfl⟩, h⟩

theorem write_bind_eq_error_iff {f : Unit → Action State α} :
    (write n v >>= f) s = .error fault t ↔
      (s.value? n = none ∧ fault = .unknownVariable n ∧ t = s) ∨
        ((s.value? n).isSome ∧ f () (s.insert n v) = .error fault t) := by
  simp only [bind_eq_error_iff, write_eq_ok_iff, write_eq_error_iff]
  apply or_congr Iff.rfl
  constructor
  · rintro ⟨_, _, ⟨hv, rfl⟩, h⟩
    exact ⟨hv, h⟩
  · rintro ⟨hv, h⟩
    exact ⟨(), _, ⟨hv, rfl⟩, h⟩

end State

end Reversible
