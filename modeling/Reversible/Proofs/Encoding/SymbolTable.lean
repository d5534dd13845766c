import Reversible.Encoding.SymbolTable
import Reversible.Proofs.Action

namespace Reversible.SymbolTable

/-- Tables that come from the empty one by interning names, whether or not there was room for them. -/
inductive Reachable : SymbolTable → Prop
  | empty : Reachable empty
  | intern {t : SymbolTable} (n : Name) (h : Reachable t) : Reachable (leaves (intern n) t)

structure WellFormed (t : SymbolTable) : Prop where
  nodup : t.names.Nodup
  size_le : t.size ≤ capacity

theorem intern_of_register? {t : SymbolTable} {n : Name} {r : Nat} (h : t.register? n = some r) :
    intern n t = .ok r t := by
  simp only [intern, h]

theorem intern_of_new {t : SymbolTable} {n : Name} (h : t.register? n = none) (hroom : t.size < capacity) :
    intern n t = .ok t.size ⟨t.names ++ [n]⟩ := by
  simp only [intern, h, if_pos hroom]

theorem intern_of_full {t : SymbolTable} {n : Name} (h : t.register? n = none) (hfull : ¬t.size < capacity) :
    intern n t = .error .tooManyVariables t := by
  simp only [intern, h, if_neg hfull]

theorem wellFormed_empty : WellFormed empty where
  nodup := List.nodup_nil
  size_le := Nat.zero_le capacity

theorem WellFormed.append {t : SymbolTable} {n : Name} (ht : t.WellFormed) (h : t.register? n = none)
    (hroom : t.size < capacity) : WellFormed ⟨t.names ++ [n]⟩ where
  nodup := by
    have hn : n ∉ t.names := List.idxOf?_eq_none_iff.mp h
    rw [List.nodup_append]
    refine ⟨ht.nodup, by simp, ?_⟩
    intro m hm k hk heq
    rw [List.mem_singleton] at hk
    subst hk
    exact hn (heq ▸ hm)
  size_le := by
    simp only [size, List.length_append, List.length_singleton] at hroom ⊢
    omega

theorem WellFormed.intern {t : SymbolTable} (ht : t.WellFormed) (n : Name) :
    (leaves (SymbolTable.intern n) t).WellFormed := by
  cases h : t.register? n with
  | some r =>
    rw [leaves_of_ok (intern_of_register? h)]
    exact ht
  | none =>
    by_cases hroom : t.size < capacity
    · rw [leaves_of_ok (intern_of_new h hroom)]
      exact ht.append h hroom
    · rw [leaves_of_error (intern_of_full h hroom)]
      exact ht

theorem Reachable.wellFormed {t : SymbolTable} (h : t.Reachable) : t.WellFormed := by
  induction h with
  | empty => exact wellFormed_empty
  | intern n _ ih => exact ih.intern n

theorem nameAt?_of_register? {t : SymbolTable} {n : Name} {r : Nat} (h : t.register? n = some r) :
    t.nameAt? r = some n := by
  obtain ⟨hr, hn, -⟩ := List.idxOf?_eq_some_iff.mp h
  exact List.getElem?_eq_some_iff.mpr ⟨hr, hn⟩

theorem WellFormed.register?_eq_some_iff {t : SymbolTable} (ht : t.WellFormed) {n : Name} {r : Nat} :
    t.register? n = some r ↔ t.nameAt? r = some n := by
  refine ⟨nameAt?_of_register?, fun h => ?_⟩
  obtain ⟨hr, hn⟩ := List.getElem?_eq_some_iff.mp h
  refine List.idxOf?_eq_some_iff.mpr ⟨hr, hn, fun j hj hjn => ?_⟩
  have hne := List.pairwise_iff_getElem.mp ht.nodup j r (by omega) hr hj
  exact hne (hjn.trans hn.symm)

theorem WellFormed.register_lt {t : SymbolTable} (ht : t.WellFormed) {n : Name} {r : Nat} (h : t.nameAt? r = some n) :
    r < 0x1000000 := by
  obtain ⟨hr, -⟩ := List.getElem?_eq_some_iff.mp h
  exact Nat.lt_of_lt_of_le hr ht.size_le

def Covers (t : SymbolTable) (names : List Name) : Prop :=
  ∀ n ∈ names, (t.register? n).isSome

theorem covers_nil (t : SymbolTable) : t.Covers [] := List.forall_mem_nil _

theorem covers_append_iff {t : SymbolTable} {names names' : List Name} :
    t.Covers (names ++ names') ↔ t.Covers names ∧ t.Covers names' := List.forall_mem_append

theorem WellFormed.covers_cons {t : SymbolTable} (ht : t.WellFormed) {n : Name} {r : Nat} {names : List Name}
    (hn : t.nameAt? r = some n) (hnames : t.Covers names) : t.Covers (n :: names) := by
  rw [Covers, List.forall_mem_cons, ht.register?_eq_some_iff.mpr hn]
  exact ⟨rfl, hnames⟩

theorem Covers.exists_nameAt? {t : SymbolTable} {names : List Name} (h : t.Covers names) {n : Name} (hn : n ∈ names) :
    ∃ r, t.nameAt? r = some n := by
  obtain ⟨r, hr⟩ := Option.isSome_iff_exists.mp (h n hn)
  exact ⟨r, nameAt?_of_register? hr⟩

end Reversible.SymbolTable
