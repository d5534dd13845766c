import Mathlib.Data.List.Induction
import Reversible.State

namespace Reversible.State

variable {entries : List (Name × Value)}

theorem nodup_names (s : State) : (s.entries.map Prod.fst).Nodup := by
  have hkeys : s.entries.map Prod.fst = s.values.keys := Std.ExtTreeMap.map_fst_toList_eq_keys
  rw [hkeys]
  exact Std.ExtTreeMap.nodup_keys

theorem ofList_snoc (entries : List (Name × Value)) (e : Name × Value) :
    ofList (entries ++ [e]) = (ofList entries).insert e.1 e.2 := by
  rw [ofList, List.foldl_append]
  rfl

theorem value?_ofList (h : (entries.map Prod.fst).Nodup) {n : Name} {v : Value} :
    (ofList entries).value? n = some v ↔ (n, v) ∈ entries := by
  induction entries using List.reverseRecOn with
  | nil => simp [ofList]
  | append_singleton es e ih =>
    obtain ⟨m, w⟩ := e
    rw [List.map_append, List.map_singleton, List.nodup_append] at h
    obtain ⟨hes, -, hdisjoint⟩ := h
    rw [ofList_snoc, value?_insert, List.mem_append, List.mem_singleton, ← ih hes]
    by_cases hm : m = n
    · have habsent : (ofList es).value? n ≠ some v := by
        intro hv
        have hmem := List.mem_map_of_mem (f := Prod.fst) ((ih hes).mp hv)
        exact hdisjoint _ hmem m List.mem_cons_self hm.symm
      simp [hm, habsent, eq_comm]
    · simp [hm, Ne.symm hm]

theorem ofList_eq_of_perm {s : State} (h : entries.Perm s.entries) : ofList entries = s := by
  apply ext_value?
  intro n
  apply Option.ext
  intro v
  have hnames := (h.map Prod.fst).nodup_iff.mpr s.nodup_names
  rw [value?_ofList hnames, h.mem_iff, mem_entries]

theorem names_eq {s t : State} (h : ∀ n, (s.value? n).isSome = (t.value? n).isSome) : s.names = t.names := by
  have hs : s.names.Pairwise fun m n => compare m n = .lt := Std.ExtTreeMap.ordered_keys
  have ht : t.names.Pairwise fun m n => compare m n = .lt := Std.ExtTreeMap.ordered_keys
  apply List.Perm.eq_of_pairwise _ hs ht
  · apply (List.perm_ext_iff_of_nodup Std.ExtTreeMap.nodup_keys Std.ExtTreeMap.nodup_keys).mpr
    intro n
    change n ∈ s.names ↔ n ∈ t.names
    rw [mem_names, mem_names, h]
  · intro m n _ _ hmn hnm
    rw [Std.OrientedCmp.gt_of_lt hmn] at hnm
    cases hnm

theorem length_names (s : State) : s.names.length = s.size :=
  Std.ExtTreeMap.length_keys

end Reversible.State
