import Reversible.Proofs.Execution
import Reversible.Proofs.Locality

namespace Reversible

namespace State

theorem SameOn.insert {ns : List Name} {s t : State} (h : s.SameOn ns t) (n : Name) (v : Value) :
    (s.insert n v).SameOn ns (t.insert n v) := by
  intro m hm
  rw [value?_insert, value?_insert, h m hm]

end State

namespace Instruction

def writes : Instruction → List Name
  | add a _ => [a]
  | sub a _ => [a]
  | swap a b => [a, b]
  | negate a => [a]
  | noop => []

variable {i : Instruction} {s s' t : State} {n : Name} {ns : List Name}

theorem writes_subset_operands (i : Instruction) : i.writes ⊆ i.operands := by
  cases i <;> simp [writes, operands]

theorem Executes.value?_of_not_mem_writes (h : Executes i s s') (hn : n ∉ i.writes) : s'.value? n = s.value? n := by
  cases h with
  | add hne ha hb => exact State.value?_insert_of_ne s _ (List.ne_of_not_mem_cons hn).symm
  | sub hne ha hb => exact State.value?_insert_of_ne s _ (List.ne_of_not_mem_cons hn).symm
  | swap ha hb =>
    obtain ⟨hna, hnb⟩ := List.ne_and_not_mem_of_not_mem_cons hn
    rw [State.value?_insert_of_ne _ _ (List.ne_of_not_mem_cons hnb).symm, State.value?_insert_of_ne _ _ hna.symm]
  | negate ha => exact State.value?_insert_of_ne s _ (List.ne_of_not_mem_cons hn).symm
  | noop => rfl

theorem Executes.of_sameOn (h : Executes i s s') (hns : i.operands ⊆ ns) (hst : s.SameOn ns t) :
    ∃ t', Executes i t t' ∧ s'.SameOn ns t' := by
  have hsame : ∀ {n : Name} {v : Value}, n ∈ i.operands → s.value? n = some v → t.value? n = some v := by
    intro n v hn hv
    rw [← hst n (hns hn), hv]
  cases h with
  | add hne ha hb =>
    exact ⟨_, .add hne (hsame List.mem_cons_self ha) (hsame (List.mem_cons_of_mem _ List.mem_cons_self) hb),
      hst.insert _ _⟩
  | sub hne ha hb =>
    exact ⟨_, .sub hne (hsame List.mem_cons_self ha) (hsame (List.mem_cons_of_mem _ List.mem_cons_self) hb),
      hst.insert _ _⟩
  | swap ha hb =>
    exact ⟨_, .swap (hsame List.mem_cons_self ha) (hsame (List.mem_cons_of_mem _ List.mem_cons_self) hb),
      (hst.insert _ _).insert _ _⟩
  | negate ha => exact ⟨_, .negate (hsame List.mem_cons_self ha), hst.insert _ _⟩
  | noop => exact ⟨t, .noop, hst⟩

end Instruction

namespace Program

def writes (p : Program) : List Name :=
  p.flatMap Instruction.writes

def Independent (p q : Program) : Prop :=
  (∀ n ∈ p.writes, n ∉ q.operands) ∧ ∀ n ∈ q.writes, n ∉ p.operands

instance (p q : Program) : Decidable (Independent p q) :=
  inferInstanceAs (Decidable (_ ∧ _))

variable {p q : Program} {s s' t : State} {n : Name} {ns : List Name}

theorem Independent.symm (h : Independent p q) : Independent q p :=
  ⟨h.2, h.1⟩

theorem writes_subset_operands (p : Program) : p.writes ⊆ p.operands := by
  intro n hn
  obtain ⟨i, hi, hni⟩ := List.mem_flatMap.mp hn
  exact List.mem_flatMap.mpr ⟨i, hi, i.writes_subset_operands hni⟩

theorem value?_of_not_mem_writes (h : p.execute s = .ok () s') (hn : n ∉ p.writes) : s'.value? n = s.value? n := by
  induction p generalizing s with
  | nil => rw [execute_nil_eq_ok_iff.mp h]
  | cons i p ih =>
    obtain ⟨u, hi, hp⟩ := execute_cons_eq_ok_iff.mp h
    rw [writes, List.flatMap_cons, List.mem_append, not_or] at hn
    exact (ih hp hn.2).trans ((Instruction.executes_of_execute hi).value?_of_not_mem_writes hn.1)

theorem execute_of_sameOn (h : p.execute s = .ok () s') (hns : p.operands ⊆ ns) (hst : s.SameOn ns t) :
    ∃ t', p.execute t = .ok () t' ∧ s'.SameOn ns t' := by
  induction p generalizing s t with
  | nil =>
    rw [execute_nil_eq_ok_iff.mp h]
    exact ⟨t, execute_nil_eq_ok_iff.mpr rfl, hst⟩
  | cons i p ih =>
    obtain ⟨u, hi, hp⟩ := execute_cons_eq_ok_iff.mp h
    rw [operands, List.flatMap_cons, List.append_subset] at hns
    obtain ⟨v, hv, huv⟩ := (Instruction.executes_of_execute hi).of_sameOn hns.1 hst
    obtain ⟨t', ht', hst'⟩ := ih hp hns.2 huv
    exact ⟨t', execute_cons_eq_ok_iff.mpr ⟨v, hv.execute, ht'⟩, hst'⟩

theorem Independent.execute_swap (hind : p.Independent q) (h : execute (p ++ q) s = .ok () s') :
    execute (q ++ p) s = .ok () s' := by
  obtain ⟨u, hp, hq⟩ := execute_append_eq_ok_iff.mp h
  -- `q` finds its operands as they were before `p`, and `p` then finds its own as they were before `q`.
  have hus : u.SameOn q.operands s := by
    intro n hn
    exact value?_of_not_mem_writes hp fun hw => hind.1 n hw hn
  obtain ⟨v, hq', hsv⟩ := execute_of_sameOn hq (List.Subset.refl _) hus
  have hsv' : s.SameOn p.operands v := by
    intro n hn
    exact (value?_of_not_mem_writes hq' fun hw => hind.2 n hw hn).symm
  obtain ⟨w, hp', huw⟩ := execute_of_sameOn hp (List.Subset.refl _) hsv'
  have hw : w = s' := by
    apply State.ext_value?
    intro n
    by_cases hnp : n ∈ p.writes
    · have hnq : n ∉ q.writes := fun hnq => hind.1 n hnp (q.writes_subset_operands hnq)
      rw [value?_of_not_mem_writes hq hnq, huw n (p.writes_subset_operands hnp)]
    · rw [value?_of_not_mem_writes hp' hnp]
      by_cases hnq : n ∈ q.writes
      · exact (hsv n (q.writes_subset_operands hnq)).symm
      · rw [value?_of_not_mem_writes hq' hnq, value?_of_not_mem_writes hq hnq, value?_of_not_mem_writes hp hnp]
  rw [← hw]
  exact execute_append_eq_ok_iff.mpr ⟨v, hq', hp'⟩

theorem execute_independent (p q : Program) (h : p.Independent q) (s s' : State) :
    execute (p ++ q) s = .ok () s' ↔ execute (q ++ p) s = .ok () s' :=
  ⟨h.execute_swap, h.symm.execute_swap⟩

theorem execute_independent_shared :
    let p : Program := [.add "a" "c", .swap "a" "b", .noop]
    let q : Program := [.sub "d" "c", .negate "d"]
    let s := State.ofList [("a", 1), ("b", 2), ("c", Int64.maxValue), ("d", 0)]
    let s' := State.ofList [("a", 2), ("b", Int64.minValue), ("c", Int64.maxValue), ("d", Int64.maxValue)]
    p.Independent q ∧ execute (p ++ q) s = .ok () s' ∧ execute (q ++ p) s = .ok () s' := by
  intro p q s s'
  have h : p.Independent q := by decide
  have hpq : execute (p ++ q) s = .ok () s' := by decide
  exact ⟨h, hpq, (execute_independent p q h s s').mp hpq⟩

end Program

end Reversible
