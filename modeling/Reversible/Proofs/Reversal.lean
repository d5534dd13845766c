import Reversible.Proofs.Execution

namespace Reversible

namespace Instruction

theorem invert_eq_ok_iff {i : Instruction} {s t : State} : i.invert t = .ok () s ↔ i.execute s = .ok () t :=
  execute_inverse_iff

theorem execute_injective {i : Instruction} {s t u : State} (hs : i.execute s = .ok () u)
    (ht : i.execute t = .ok () u) : s = t := by
  have hs' : i.invert u = .ok () s := invert_eq_ok_iff.mpr hs
  have ht' : i.invert u = .ok () t := invert_eq_ok_iff.mpr ht
  rw [hs'] at ht'
  cases ht'
  rfl

end Instruction

namespace Program

theorem inverse_cons (i : Instruction) (p : Program) : inverse (i :: p) = inverse p ++ [i.inverse] := by
  simp [inverse]

theorem inverse_append (p q : Program) : inverse (p ++ q) = inverse q ++ inverse p := by
  simp [inverse]

theorem inverse_inverse (p : Program) : p.inverse.inverse = p := by
  induction p with
  | nil => rfl
  | cons i p ih =>
    rw [inverse_cons, inverse_append, ih]
    simp [inverse]

theorem execute_inverse_iff {p : Program} {s t : State} : p.inverse.execute t = .ok () s ↔ p.execute s = .ok () t := by
  rw [inverse, ← List.map_reverse, execute_eq_forM, execute_eq_forM, List.forM_map]
  apply Action.forM_reverse_eq_ok_iff
  intro i _ s t
  exact Instruction.execute_inverse_iff

theorem execute_iff_inverse (p : Program) :
    (∀ s t, p.execute s = .ok () t ↔ p.inverse.execute t = .ok () s) ∧ p.inverse.inverse = p ∧
      ∀ i : Instruction,
        (∀ s t, i.execute s = .ok () t ↔ i.invert t = .ok () s) ∧
        (∀ s t, i.invert s = .ok () t ↔ i.execute t = .ok () s) ∧
        ∀ s t u, i.execute s = .ok () u → i.execute t = .ok () u → s = t := by
  refine ⟨?_, inverse_inverse p, ?_⟩
  · intro s t
    exact execute_inverse_iff.symm
  · intro i
    refine ⟨?_, ?_, ?_⟩
    · intro s t
      exact Instruction.invert_eq_ok_iff.symm
    · intro s t
      exact Instruction.invert_eq_ok_iff
    · intro s t u hs ht
      exact Instruction.execute_injective hs ht

theorem execute_iff_inverse_at_the_edges :
    let i : Instruction := .add "a" "b"
    let s := State.ofList [("a", Int64.maxValue), ("b", 1)]
    let t := State.ofList [("a", 0), ("b", 1), ("a", Int64.maxValue)]
    let u := State.ofList [("a", Int64.minValue), ("b", 1)]
    i.execute s = .ok () u ∧ i.execute t = .ok () u ∧ s = t := by
  intro i s t u
  have hs : i.execute s = .ok () u := by decide
  have ht : i.execute t = .ok () u := by decide
  exact ⟨hs, ht, (execute_iff_inverse [i]).2.2 i |>.2.2 s t u hs ht⟩

end Program

end Reversible
