import Reversible.Proofs.Action

namespace Reversible.Action

variable {σ α ι : Type}

section Result

variable {act : Action σ α} {s t : σ} {fault : Fault}

theorem result_eq_ok_iff : act.result s = .ok t ↔ ∃ a, act s = .ok a t := by
  unfold result
  cases act s with
  | ok a u => simp
  | error f u => simp

theorem result_eq_error_iff : act.result s = .error fault ↔ ∃ t, act s = .error fault t := by
  unfold result
  cases act s with
  | ok a u => simp
  | error f u => simp

def verdict (act : Action σ α) (s : σ) : Except Fault Unit :=
  (act.result s).map fun _ => ()

theorem verdict_of_ok {a : α} (h : act s = .ok a t) : verdict act s = .ok () := by
  rw [verdict, result_eq_ok_iff.mpr ⟨a, h⟩]
  rfl

theorem verdict_of_error (h : act s = .error fault t) : verdict act s = .error fault := by
  rw [verdict, result_eq_error_iff.mpr ⟨t, h⟩]
  rfl

theorem verdict_congr {act' : Action σ α} {s' : σ} (h : act s = act' s') : verdict act s = verdict act' s' := by
  rw [verdict, verdict, result, result, h]

theorem verdict_eq_ok_iff {act : Action σ Unit} : verdict act s = .ok () ↔ ∃ t, act s = .ok () t := by
  cases h : act s with
  | ok _ u => simp [verdict_of_ok h]
  | error f u => simp [verdict_of_error h]

theorem verdict_eq_error_iff : verdict act s = .error fault ↔ ∃ t, act s = .error fault t := by
  cases h : act s with
  | ok a u => simp [verdict_of_ok h]
  | error f u => simp [verdict_of_error h]

theorem result_atomically (act : Action σ α) (s : σ) : (atomically act).result s = act.result s := by
  unfold result atomically
  cases act s with
  | ok a t => rfl
  | error f t => rfl

theorem result_bind (act : Action σ α) (next : Action σ Unit) (s : σ) :
    Action.result (act >>= fun _ => next) s = act.result s >>= next.result := by
  cases h : act s with
  | ok a t =>
    have hact : act.result s = .ok t := result_eq_ok_iff.mpr ⟨a, h⟩
    rw [hact, result, bind_of_ok h]
    rfl
  | error f t =>
    have hact : act.result s = .error f := result_eq_error_iff.mpr ⟨t, h⟩
    rw [hact, result, bind_of_error h]
    rfl

end Result

section Items

variable {run : ι → Action σ Unit} {items : List ι} {s : σ} {j : Nat} {fault : Fault}

def FailsAt (run : ι → Action σ Unit) (items : List ι) (s : σ) (j : Nat) (fault : Fault) : Prop :=
  ∃ i t u, items[j]? = some i ∧ forM (items.take j) run s = .ok () t ∧ run i t = .error fault u

theorem FailsAt.forM_eq_error (h : FailsAt run items s j fault) : ∃ t, forM items run s = .error fault t := by
  obtain ⟨i, t, u, hi, ht, hu⟩ := h
  obtain ⟨hj, rfl⟩ := List.getElem?_eq_some_iff.mp hi
  have hsplit : items = items.take j ++ items[j] :: items.drop (j + 1) := by
    rw [← List.drop_eq_getElem_cons hj, List.take_append_drop]
  refine ⟨u, ?_⟩
  rw [hsplit, List.forM_append, bind_of_ok ht, List.forM_cons]
  exact bind_of_error hu

theorem failsAt_of_forM_eq_error {t : σ} (h : forM items run s = .error fault t) :
    ∃ j, FailsAt run items s j fault := by
  induction items generalizing s with
  | nil => exact absurd h pure_ne_error
  | cons i items ih =>
    rw [List.forM_cons] at h
    obtain hi | ⟨_, u, hi, hrest⟩ := bind_eq_error_iff.mp h
    · exact ⟨0, i, s, t, rfl, rfl, hi⟩
    · obtain ⟨j, k, v, w, hk, hv, hw⟩ := ih hrest
      refine ⟨j + 1, k, v, w, hk, ?_, hw⟩
      rw [List.take_succ_cons, List.forM_cons, bind_of_ok hi]
      exact hv

theorem result_forM_eq_error_iff :
    Action.result (forM items run) s = .error fault ↔ ∃ j, FailsAt run items s j fault := by
  rw [result_eq_error_iff]
  constructor
  · rintro ⟨t, h⟩
    exact failsAt_of_forM_eq_error h
  · rintro ⟨j, h⟩
    exact h.forM_eq_error

theorem forM_cons_eq_ok_iff {i : ι} {t : σ} :
    forM (i :: items) run s = .ok () t ↔ ∃ u, run i s = .ok () u ∧ forM items run u = .ok () t := by
  rw [List.forM_cons, bind_unit_eq_ok_iff]

theorem forM_snoc_eq_ok_iff {i : ι} {t : σ} :
    forM (items ++ [i]) run s = .ok () t ↔ ∃ u, forM items run s = .ok () u ∧ run i u = .ok () t := by
  rw [List.forM_append, bind_unit_eq_ok_iff, List.forM_cons, List.forM_nil, bind_pure_unit]

theorem forM_reverse_eq_ok_iff {undo : ι → Action σ Unit} {t : σ}
    (h : ∀ i ∈ items, ∀ s t, undo i t = .ok () s ↔ run i s = .ok () t) :
    forM items.reverse undo t = .ok () s ↔ forM items run s = .ok () t := by
  induction items generalizing s with
  | nil =>
    rw [List.reverse_nil, List.forM_nil, List.forM_nil, pure_eq_ok_iff, pure_eq_ok_iff]
    simp only [true_and]
    exact eq_comm
  | cons i items ih =>
    obtain ⟨hi, hitems⟩ := List.forall_mem_cons.mp h
    rw [List.reverse_cons, forM_snoc_eq_ok_iff, forM_cons_eq_ok_iff]
    -- What `i` leads to is where the others end when they are taken back.
    constructor
    · rintro ⟨u, hrest, hlast⟩
      exact ⟨u, (hi s u).mp hlast, (ih hitems).mp hrest⟩
    · rintro ⟨u, hfirst, hrest⟩
      exact ⟨u, (ih hitems).mpr hrest, (hi s u).mpr hfirst⟩

end Items

end Reversible.Action
