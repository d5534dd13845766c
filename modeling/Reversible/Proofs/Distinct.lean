import Mathlib.Data.Finset.Card
import Mathlib.Data.List.Basic
import Mathlib.Data.Set.Function

namespace Reversible

variable {α β : Type} [DecidableEq α] [DecidableEq β]

theorem eraseDups_snoc (l : List α) (a : α) :
    (l ++ [a]).eraseDups = if a ∈ l then l.eraseDups else l.eraseDups ++ [a] := by
  rw [List.eraseDups_append]
  by_cases h : a ∈ l
  · simp [List.removeAll, h]
  · simp [List.removeAll, h, List.eraseDups_cons]

theorem nodup_eraseDups (l : List α) : l.eraseDups.Nodup := by
  induction l using List.reverseRecOn with
  | nil => simp
  | append_singleton l a ih =>
    rw [eraseDups_snoc]
    split
    · exact ih
    · next h => simpa [List.nodup_append, ih] using fun b hb (hab : b = a) => h (hab ▸ hb)

theorem length_eraseDups (l : List α) : l.eraseDups.length = l.toFinset.card := by
  rw [← List.toFinset_card_of_nodup (nodup_eraseDups l)]
  congr 1
  ext a
  simp

theorem eraseDups_of_nodup {l : List α} (h : l.Nodup) : l.eraseDups = l := by
  induction l using List.reverseRecOn with
  | nil => rfl
  | append_singleton l a ih =>
    obtain ⟨hl, -, ha⟩ := List.nodup_append.mp h
    have hnew : a ∉ l := fun hmem => ha a hmem a List.mem_cons_self rfl
    rw [eraseDups_snoc, if_neg hnew, ih hl]

theorem eraseDups_append_left (l k : List α) : (l.eraseDups ++ k).eraseDups = (l ++ k).eraseDups := by
  have hmem : k.removeAll l.eraseDups = k.removeAll l := by
    simp [List.removeAll]
  rw [List.eraseDups_append, List.eraseDups_append, eraseDups_of_nodup (nodup_eraseDups l), hmem]

theorem take_eraseDups_append (l k : List α) (n : Nat) :
    (l.eraseDups.take n ++ k).eraseDups.take n = (l ++ k).eraseDups.take n := by
  by_cases h : l.eraseDups.length ≤ n
  · rw [List.take_of_length_le h, eraseDups_append_left]
  · -- The first `n` distinct items are all in `l`.
    have hle : n ≤ l.eraseDups.length := Nat.le_of_not_le h
    have hnodup : (l.eraseDups.take n).Nodup := (nodup_eraseDups l).sublist (List.take_sublist n _)
    rw [List.eraseDups_append, eraseDups_of_nodup hnodup, List.take_left' (List.length_take_of_le hle),
      List.eraseDups_append, List.take_append_of_le_length hle]

theorem eraseDups_map {f : α → β} {l : List α} (hf : Set.InjOn f {a | a ∈ l}) :
    (l.map f).eraseDups = l.eraseDups.map f := by
  induction l using List.reverseRecOn with
  | nil => rfl
  | append_singleton l a ih =>
    have hl : Set.InjOn f {b | b ∈ l} := hf.mono fun b hb => List.mem_append_left [a] hb
    have hmem : f a ∈ l.map f ↔ a ∈ l := by
      constructor
      · intro h
        obtain ⟨b, hb, hba⟩ := List.mem_map.mp h
        have heq : b = a := hf (List.mem_append_left [a] hb) (by simp) hba
        exact heq ▸ hb
      · exact List.mem_map_of_mem
    rw [List.map_append, List.map_cons, List.map_nil, eraseDups_snoc, eraseDups_snoc, ih hl]
    by_cases h : a ∈ l
    · rw [if_pos (hmem.mpr h), if_pos h]
    · rw [if_neg (mt hmem.mp h), if_neg h, List.map_append, List.map_cons, List.map_nil]

theorem idxOf_snoc_lt_iff {l : List α} {a b c : α} (hc : c ∉ l) (ha : a ∈ l ∨ a = c) (hb : b ∈ l ∨ b = c) :
    (l ++ [c]).idxOf a < (l ++ [c]).idxOf b ↔ a ∈ l ∧ (b ∈ l → l.idxOf a < l.idxOf b) := by
  have hlast : (l ++ [c]).idxOf c = l.length := by
    simp [List.idxOf_append_of_notMem hc]
  obtain ha | rfl := ha
  · obtain hb | rfl := hb
    · simp [List.idxOf_append_of_mem ha, List.idxOf_append_of_mem hb, ha, hb]
    · simp [hlast, List.idxOf_append_of_mem ha, List.idxOf_lt_length_of_mem ha, ha, hc]
  · obtain hb | rfl := hb
    · have hlt := List.idxOf_lt_length_of_mem hb
      simp [hlast, List.idxOf_append_of_mem hb, hc, Nat.le_of_lt hlt]
    · simp [hc]

theorem idxOf_eraseDups_lt_iff {l : List α} {a b : α} (ha : a ∈ l) (hb : b ∈ l) :
    l.eraseDups.idxOf a < l.eraseDups.idxOf b ↔ l.idxOf a < l.idxOf b := by
  induction l using List.reverseRecOn with
  | nil => exact absurd ha List.not_mem_nil
  | append_singleton l c ih =>
    rw [List.mem_append, List.mem_singleton] at ha hb
    rw [eraseDups_snoc]
    by_cases hc : c ∈ l
    · have ha' : a ∈ l := ha.elim id fun h => h ▸ hc
      have hb' : b ∈ l := hb.elim id fun h => h ▸ hc
      rw [if_pos hc, ih ha' hb', List.idxOf_append_of_mem ha', List.idxOf_append_of_mem hb']
    · -- A new item comes last in both lists, so only the order of the others is left to compare.
      have hc' : c ∉ l.eraseDups := mt List.mem_eraseDups.mp hc
      rw [if_neg hc, idxOf_snoc_lt_iff hc ha hb, idxOf_snoc_lt_iff hc' (by simpa using ha) (by simpa using hb)]
      simp only [List.mem_eraseDups]
      constructor
      · rintro ⟨ha, h⟩
        exact ⟨ha, fun hb => (ih ha hb).mp (h hb)⟩
      · rintro ⟨ha, h⟩
        exact ⟨ha, fun hb => (ih ha hb).mpr (h hb)⟩

end Reversible
