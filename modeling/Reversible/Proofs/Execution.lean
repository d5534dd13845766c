import Reversible.Instruction
import Reversible.Proofs.Sequence

namespace Reversible

namespace State

variable {s : State} {a b : Name} {x y : Value}

theorem insert_insert_of_value? (h : s.value? a = some x) (v : Value) : (s.insert a v).insert a x = s := by
  apply ext_value?
  intro n
  by_cases hn : a = n
  · subst hn
    rw [value?_insert_self, h]
  · rw [value?_insert_of_ne _ _ hn, value?_insert_of_ne _ _ hn]

theorem value?_exchanged (ha : s.value? a = some x) (hb : s.value? b = some y) :
    ((s.insert a y).insert b x).value? a = some y := by
  by_cases hab : b = a
  · subst hab
    rw [value?_insert_self, ← ha, hb]
  · rw [value?_insert_of_ne _ _ hab, value?_insert_self]

theorem exchange_twice (ha : s.value? a = some x) (hb : s.value? b = some y) :
    ((((s.insert a y).insert b x).insert a x).insert b y) = s := by
  apply ext_value?
  intro n
  by_cases hbn : b = n
  · subst hbn
    rw [value?_insert_self, hb]
  by_cases han : a = n
  · subst han
    rw [value?_insert_of_ne _ _ hbn, value?_insert_self, ha]
  · simp only [value?_insert, if_neg han, if_neg hbn]

end State

namespace Instruction

inductive Executes : Instruction → State → State → Prop
  | add {s : State} {a b : Name} {x y : Value} (hne : a ≠ b) (ha : s.value? a = some x) (hb : s.value? b = some y) :
      Executes (add a b) s (s.insert a (x + y))
  | sub {s : State} {a b : Name} {x y : Value} (hne : a ≠ b) (ha : s.value? a = some x) (hb : s.value? b = some y) :
      Executes (sub a b) s (s.insert a (x - y))
  | swap {s : State} {a b : Name} {x y : Value} (ha : s.value? a = some x) (hb : s.value? b = some y) :
      Executes (swap a b) s ((s.insert a y).insert b x)
  | negate {s : State} {a : Name} {x : Value} (ha : s.value? a = some x) : Executes (negate a) s (s.insert a (-x))
  | noop {s : State} : Executes noop s s

theorem distinct_bind_eq_ok_iff {op : Opcode} {a b : Name} {s t : State} {f : Unit → Action State Unit} {u : Unit} :
    (distinct op a b >>= f) s = .ok u t ↔ a ≠ b ∧ f () s = .ok u t := by
  by_cases h : a = b
  · simp [distinct, h, bind_eq_ok_iff, throw_ne_ok]
  · simp [distinct, h]

theorem distinct_bind_eq_error_iff {op : Opcode} {a b : Name} {s t : State} {f : Unit → Action State Unit}
    {fault : Fault} :
    (distinct op a b >>= f) s = .error fault t ↔
      (a = b ∧ fault = .aliasedOperands op a ∧ t = s) ∨ (a ≠ b ∧ f () s = .error fault t) := by
  by_cases h : a = b
  · simp [distinct, h, bind_eq_error_iff, throw_eq_error_iff, throw_ne_ok]
  · simp [distinct, h]

def combine (op : Opcode) (f : Value → Value → Value) (a b : Name) : Action State Unit := do
  distinct op a b
  let x ← State.read a
  let y ← State.read b
  State.write a (f x y)

theorem combine_eq_ok_iff {op : Opcode} {f : Value → Value → Value} {a b : Name} {s t : State} {u : Unit} :
    combine op f a b s = .ok u t ↔
      a ≠ b ∧ ∃ x y, s.value? a = some x ∧ s.value? b = some y ∧ t = s.insert a (f x y) := by
  simp only [combine, distinct_bind_eq_ok_iff, State.read_bind_eq_ok_iff, State.write_eq_ok_iff]
  apply and_congr Iff.rfl
  constructor
  · rintro ⟨x, ha, y, hb, -, ht⟩
    exact ⟨x, y, ha, hb, ht⟩
  · rintro ⟨x, y, ha, hb, ht⟩
    exact ⟨x, ha, y, hb, by rw [ha, Option.isSome_some], ht⟩

theorem eq_of_combine_error {op : Opcode} {f : Value → Value → Value} {a b : Name} {s t : State} {fault : Fault}
    (h : combine op f a b s = .error fault t) : t = s := by
  simp only [combine, distinct_bind_eq_error_iff, State.read_bind_eq_error_iff, State.write_eq_error_iff] at h
  obtain ⟨-, -, ht⟩ | ⟨-, ⟨-, -, ht⟩ | ⟨x, -, ⟨-, -, ht⟩ | ⟨y, -, -, -, ht⟩⟩⟩ := h <;> exact ht

theorem executes_of_execute {i : Instruction} {s t : State} (h : i.execute s = .ok () t) : Executes i s t := by
  cases i with
  | add a b =>
    obtain ⟨hne, x, y, ha, hb, rfl⟩ := combine_eq_ok_iff.mp h
    exact .add hne ha hb
  | sub a b =>
    obtain ⟨hne, x, y, ha, hb, rfl⟩ := combine_eq_ok_iff.mp h
    exact .sub hne ha hb
  | swap a b =>
    simp only [execute, State.read_bind_eq_ok_iff, State.write_bind_eq_ok_iff, State.write_eq_ok_iff] at h
    obtain ⟨x, ha, y, hb, -, -, rfl⟩ := h
    exact .swap ha hb
  | negate a =>
    simp only [execute, State.read_bind_eq_ok_iff, State.write_eq_ok_iff] at h
    obtain ⟨x, ha, -, rfl⟩ := h
    exact .negate ha
  | noop =>
    obtain ⟨-, rfl⟩ := pure_eq_ok_iff.mp h
    exact .noop

theorem Executes.execute {i : Instruction} {s t : State} (h : Executes i s t) : i.execute s = .ok () t := by
  cases h with
  | add hne ha hb => exact combine_eq_ok_iff.mpr ⟨hne, _, _, ha, hb, rfl⟩
  | sub hne ha hb => exact combine_eq_ok_iff.mpr ⟨hne, _, _, ha, hb, rfl⟩
  | swap ha hb =>
    simp [Instruction.execute, State.read_bind_eq_ok_iff, State.write_bind_eq_ok_iff, State.write_eq_ok_iff,
      State.value?_insert, ha, hb]
  | negate ha => simp [Instruction.execute, State.read_bind_eq_ok_iff, State.write_eq_ok_iff, ha]
  | noop => exact pure_eq_ok_iff.mpr ⟨rfl, rfl⟩

theorem execute_eq_ok_iff {i : Instruction} {s t : State} : i.execute s = .ok () t ↔ Executes i s t :=
  ⟨executes_of_execute, Executes.execute⟩

theorem eq_of_execute_error {i : Instruction} {s t : State} {fault : Fault} (h : i.execute s = .error fault t) :
    t = s := by
  cases i with
  | add a b => exact eq_of_combine_error h
  | sub a b => exact eq_of_combine_error h
  | swap a b =>
    simp only [execute, State.read_bind_eq_error_iff, State.write_bind_eq_error_iff, State.write_eq_error_iff] at h
    obtain ⟨-, -, ht⟩ | ⟨x, -, ⟨-, -, ht⟩ | ⟨y, hb, ⟨-, -, ht⟩ | ⟨-, hmissing, -, -⟩⟩⟩ := h
    · exact ht
    · exact ht
    · exact ht
    · -- the write of the first operand cannot remove the second
      simp only [State.value?_insert, hb] at hmissing
      split at hmissing <;> contradiction
  | negate a =>
    simp only [execute, State.read_bind_eq_error_iff, State.write_eq_error_iff] at h
    obtain ⟨-, -, ht⟩ | ⟨x, -, -, -, ht⟩ := h <;> exact ht
  | noop => exact absurd h pure_ne_error

theorem Executes.inverse {i : Instruction} {s t : State} (h : Executes i s t) : Executes i.inverse t s := by
  cases h with
  | @add s a b x y hne ha hb =>
    have hs := Executes.sub hne (s.value?_insert_self a (x + y)) ((s.value?_insert_of_ne (x + y) hne).trans hb)
    rwa [Int64.add_sub_cancel, State.insert_insert_of_value? ha] at hs
  | @sub s a b x y hne ha hb =>
    have hs := Executes.add hne (s.value?_insert_self a (x - y)) ((s.value?_insert_of_ne (x - y) hne).trans hb)
    rwa [Int64.sub_add_cancel, State.insert_insert_of_value? ha] at hs
  | @swap s a b x y ha hb =>
    have hs := Executes.swap (State.value?_exchanged ha hb) ((s.insert a y).value?_insert_self b x)
    rwa [State.exchange_twice ha hb] at hs
  | @negate s a x ha =>
    have hs := Executes.negate (s.value?_insert_self a (-x))
    rwa [Int64.neg_neg, State.insert_insert_of_value? ha] at hs
  | noop => exact .noop

theorem execute_inverse_iff {i : Instruction} {s t : State} :
    i.inverse.execute t = .ok () s ↔ i.execute s = .ok () t := by
  rw [execute_eq_ok_iff, execute_eq_ok_iff]
  constructor
  · intro h
    simpa only [inverse_inverse] using h.inverse
  · exact Executes.inverse

end Instruction

namespace Program

theorem execute_nil_eq_ok_iff {s t : State} : execute [] s = .ok () t ↔ t = s := by
  simp only [execute, pure_eq_ok_iff, true_and]

theorem execute_cons_eq_ok_iff {i : Instruction} {p : Program} {s t : State} :
    execute (i :: p) s = .ok () t ↔ ∃ u, i.execute s = .ok () u ∧ p.execute u = .ok () t := by
  rw [execute, bind_unit_eq_ok_iff]

theorem execute_eq_forM (p : Program) : p.execute = forM p Instruction.execute := by
  induction p with
  | nil => rfl
  | cons i p ih => rw [execute, ih, List.forM_cons]

theorem execute_append (p q : Program) : execute (p ++ q) = p.execute >>= fun _ => q.execute := by
  simp only [execute_eq_forM, List.forM_append]

theorem execute_append_eq_ok_iff {p q : Program} {s t : State} :
    execute (p ++ q) s = .ok () t ↔ ∃ u, p.execute s = .ok () u ∧ q.execute u = .ok () t := by
  rw [execute_append, bind_unit_eq_ok_iff]

theorem execute_snoc_eq_ok_iff {p : Program} {i : Instruction} {s t : State} :
    execute (p ++ [i]) s = .ok () t ↔ ∃ u, p.execute s = .ok () u ∧ i.execute u = .ok () t := by
  simp only [execute_append_eq_ok_iff, execute_cons_eq_ok_iff, execute_nil_eq_ok_iff, exists_eq_right']

def FailsAt (p : Program) (s : State) (j : Nat) (fault : Fault) : Prop :=
  ∃ i t u, p[j]? = some i ∧ execute (p.take j) s = .ok () t ∧ i.execute t = .error fault u

theorem failsAt_iff {p : Program} {s : State} {j : Nat} {fault : Fault} :
    p.FailsAt s j fault ↔ Action.FailsAt Instruction.execute p s j fault := by
  simp only [FailsAt, Action.FailsAt, execute_eq_forM]

theorem FailsAt.execute_eq_error {p : Program} {s : State} {j : Nat} {fault : Fault} (h : p.FailsAt s j fault) :
    ∃ t, p.execute s = .error fault t := by
  rw [execute_eq_forM]
  exact (failsAt_iff.mp h).forM_eq_error

theorem failsAt_of_execute_error {p : Program} {s t : State} {fault : Fault} (h : p.execute s = .error fault t) :
    ∃ j, p.FailsAt s j fault := by
  rw [execute_eq_forM] at h
  obtain ⟨j, hj⟩ := Action.failsAt_of_forM_eq_error h
  exact ⟨j, failsAt_iff.mpr hj⟩

end Program

end Reversible
