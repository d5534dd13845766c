import Reversible.Proofs.Distinct
import Reversible.Proofs.Encoding.SymbolTable

namespace Reversible.SymbolTable

variable {t u : SymbolTable} {n : Name}

theorem exists_intern_eq_ok_iff (ht : t.WellFormed) :
    (∃ r, intern n t = .ok r u) ↔ u.names = (t.names ++ [n]).eraseDups ∧ u.size ≤ capacity := by
  have hmem : n ∈ t.names ↔ t.register? n ≠ none := by
    rw [register?, Ne, List.idxOf?_eq_none_iff, not_not]
  rw [eraseDups_snoc, eraseDups_of_nodup ht.nodup]
  cases h : t.register? n with
  | some r =>
    rw [if_pos (hmem.mpr (by simp [h])), intern_of_register? h]
    constructor
    · rintro ⟨_, hu⟩
      cases hu
      exact ⟨rfl, ht.size_le⟩
    · rintro ⟨hu, -⟩
      cases u
      cases hu
      exact ⟨r, rfl⟩
  | none =>
    rw [if_neg (mt hmem.mp (by simp [h]))]
    by_cases hroom : t.size < capacity
    · rw [intern_of_new h hroom]
      constructor
      · rintro ⟨_, hu⟩
        cases hu
        exact ⟨rfl, (ht.append h hroom).size_le⟩
      · rintro ⟨hu, -⟩
        cases u
        cases hu
        exact ⟨t.size, rfl⟩
    · rw [intern_of_full h hroom]
      constructor
      · rintro ⟨_, hu⟩
        cases hu
      · rintro ⟨hu, hsize⟩
        rw [size, hu, List.length_append] at hsize
        exact absurd hsize hroom

theorem wellFormed_of_names {names : List Name} (h : t.names = names.eraseDups) (hsize : t.size ≤ capacity) :
    t.WellFormed where
  nodup := h ▸ nodup_eraseDups names
  size_le := hsize

theorem internAll_eq_ok_iff (ht : t.WellFormed) {names : List Name} :
    internAll names t = .ok () u ↔ u.names = (t.names ++ names).eraseDups ∧ u.size ≤ capacity := by
  induction names generalizing t with
  | nil =>
    rw [internAll, pure_eq_ok_iff, List.append_nil, eraseDups_of_nodup ht.nodup]
    constructor
    · rintro ⟨-, rfl⟩
      exact ⟨rfl, ht.size_le⟩
    · rintro ⟨hu, -⟩
      cases u
      cases hu
      exact ⟨rfl, rfl⟩
  | cons n names ih =>
    have hnames : ((t.names ++ [n]).eraseDups ++ names).eraseDups = (t.names ++ n :: names).eraseDups := by
      rw [eraseDups_append_left, List.append_assoc, List.singleton_append]
    rw [internAll, bind_eq_ok_iff, ← hnames]
    constructor
    · rintro ⟨r, v, hv, hu⟩
      obtain ⟨hnew, hsize⟩ := (exists_intern_eq_ok_iff ht).mp ⟨r, hv⟩
      rw [← hnew]
      exact (ih (wellFormed_of_names hnew hsize)).mp hu
    · rintro ⟨hu, hsize⟩
      -- The table in between is no larger than the last one.
      have hle : (t.names ++ [n]).eraseDups.length ≤ capacity := by
        rw [size, hu, List.eraseDups_append, eraseDups_of_nodup (nodup_eraseDups _), List.length_append] at hsize
        omega
      obtain ⟨r, hv⟩ := (exists_intern_eq_ok_iff (u := ⟨(t.names ++ [n]).eraseDups⟩) ht).mpr ⟨rfl, hle⟩
      exact ⟨r, _, hv, (ih (wellFormed_of_names rfl hle)).mpr ⟨hu, hsize⟩⟩

theorem ofNames_eq_ok_iff {names : List Name} :
    ofNames names = .ok t ↔ t.names = names.eraseDups ∧ t.size ≤ capacity := by
  have h : internAll names empty = .ok () t ↔ t.names = ([] ++ names).eraseDups ∧ t.size ≤ capacity :=
    internAll_eq_ok_iff wellFormed_empty
  rw [List.nil_append] at h
  rw [← h, ofNames]
  cases internAll names empty with
  | ok _ u => simp
  | error e u => simp

theorem idxOf_of_register? (ht : t.WellFormed) {r : Nat} (h : t.register? n = some r) : t.names.idxOf n = r := by
  obtain ⟨hr, rfl⟩ := List.getElem?_eq_some_iff.mp (nameAt?_of_register? h)
  exact ht.nodup.idxOf_getElem r hr

theorem idxOf_eraseDups_of_register? (ht : t.WellFormed) {names : List Name} (hnames : t.names <+: names.eraseDups)
    {r : Nat} (h : t.register? n = some r) : names.eraseDups.idxOf n = r := by
  obtain ⟨rest, hrest⟩ := hnames
  have hmem : n ∈ t.names := List.mem_of_getElem? (nameAt?_of_register? h)
  rw [← hrest, List.idxOf_append_of_mem hmem, idxOf_of_register? ht h]

theorem register_lt_iff_of_prefix (ht : t.WellFormed) {names : List Name} (hnames : t.names <+: names.eraseDups)
    {m : Name} {a b : Nat} (hm : t.register? m = some a) (hn : t.register? n = some b) :
    a < b ↔ names.idxOf m < names.idxOf n := by
  have hmem : ∀ {k r}, t.register? k = some r → k ∈ names := by
    intro k r hk
    exact List.mem_eraseDups.mp (hnames.subset (List.mem_of_getElem? (nameAt?_of_register? hk)))
  rw [← idxOf_eraseDups_of_register? ht hnames hm, ← idxOf_eraseDups_of_register? ht hnames hn]
  exact idxOf_eraseDups_lt_iff (hmem hm) (hmem hn)

theorem register_lt_iff (ht : t.WellFormed) {names : List Name} (hnames : t.names = names.eraseDups) {m : Name}
    {a b : Nat} (hm : t.register? m = some a) (hn : t.register? n = some b) :
    a < b ↔ names.idxOf m < names.idxOf n :=
  register_lt_iff_of_prefix ht (hnames ▸ List.prefix_rfl) hm hn

inductive Extends (t : SymbolTable) : SymbolTable → Prop
  | refl : Extends t t
  | intern {u : SymbolTable} (n : Name) (h : Extends t u) : Extends t (leaves (intern n) u)

theorem names_leaves_intern (n : Name) (t : SymbolTable) : t.names <+: (leaves (intern n) t).names := by
  cases h : t.register? n with
  | some r => rw [leaves_of_ok (intern_of_register? h)]
  | none =>
    by_cases hroom : t.size < capacity
    · rw [leaves_of_ok (intern_of_new h hroom)]
      exact List.prefix_append t.names [n]
    · rw [leaves_of_error (intern_of_full h hroom)]

theorem Extends.wellFormed (h : Extends t u) (ht : t.WellFormed) : u.WellFormed := by
  induction h with
  | refl => exact ht
  | intern n _ ih => exact ih.intern n

theorem Extends.names (h : Extends t u) : t.names <+: u.names := by
  induction h with
  | refl => exact List.prefix_rfl
  | intern n _ ih => exact ih.trans (names_leaves_intern n _)

theorem nameAt?_of_prefix (h : t.names <+: u.names) {r : Nat} (hr : t.nameAt? r = some n) : u.nameAt? r = some n := by
  obtain ⟨names, hnames⟩ := h
  rw [nameAt?, ← hnames, List.getElem?_append_left (List.getElem?_eq_some_iff.mp hr).1]
  exact hr

theorem Extends.nameAt? (h : Extends t u) {r : Nat} (hr : t.nameAt? r = some n) : u.nameAt? r = some n :=
  nameAt?_of_prefix h.names hr

end Reversible.SymbolTable
