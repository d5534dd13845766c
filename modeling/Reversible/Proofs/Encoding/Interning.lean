import Reversible.Proofs.Encoding.Numbering
import Reversible.Proofs.Encoding.Word

/-!
What encoding one instruction does to the table. It adds the operands that have no register yet, as far as there is room
for them. If just one register is free and two are needed, encoding fails, but the first operand keeps the last register.
-/

namespace Reversible

namespace SymbolTable

def unassigned (t : SymbolTable) (ns : List Name) : List Name :=
  (ns.filter fun n => (t.register? n).isNone).eraseDups

variable {t u : SymbolTable} {n : Name} {ns : List Name}

theorem eraseDups_append_names (ht : t.WellFormed) (ns : List Name) :
    (t.names ++ ns).eraseDups = t.names ++ t.unassigned ns := by
  have hnew : ns.removeAll t.names = ns.filter fun n => (t.register? n).isNone := by
    apply List.filter_congr
    intro n _
    rw [register?, ← Option.not_isSome, Bool.eq_iff_iff]
    simp
  rw [List.eraseDups_append, eraseDups_of_nodup ht.nodup, hnew, unassigned]

theorem length_unassigned_le (t : SymbolTable) (ns : List Name) : (t.unassigned ns).length ≤ ns.length := by
  have hfilter : (ns.filter fun n => (t.register? n).isNone).length ≤ ns.length := List.length_filter_le _ _
  rw [unassigned, length_eraseDups]
  exact (List.toFinset_card_le _).trans hfilter

theorem register?_append {r : Nat} (h : t.register? n = some r) (ns : List Name) :
    register? ⟨t.names ++ ns⟩ n = some r := by
  obtain ⟨hr, hn, hfirst⟩ := List.idxOf?_eq_some_iff.mp h
  apply List.idxOf?_eq_some_iff.mpr
  refine ⟨by rw [List.length_append]; omega, by rw [List.getElem_append_left hr, hn], ?_⟩
  intro j hj
  rw [List.getElem_append_left (Nat.lt_trans hj hr)]
  exact hfirst j hj

theorem intern_eq_error_iff {e : Error} :
    intern n t = .error e u ↔ t.register? n = none ∧ ¬t.size < capacity ∧ u = t := by
  cases h : t.register? n with
  | some r => simp [intern_of_register? h]
  | none =>
    by_cases hroom : t.size < capacity
    · simp [intern_of_new h hroom, hroom]
    · cases e
      simp [intern_of_full h hroom, hroom, eq_comm]

theorem names_leaves_internAll (ht : t.WellFormed) (ns : List Name) :
    (leaves (internAll ns) t).names = (t.names ++ ns).eraseDups.take capacity := by
  induction ns generalizing t with
  | nil =>
    rw [List.append_nil, eraseDups_of_nodup ht.nodup, List.take_of_length_le ht.size_le]
    rfl
  | cons n ns ih =>
    have hnames : ((t.names ++ [n]).eraseDups ++ ns).eraseDups = (t.names ++ n :: ns).eraseDups := by
      rw [eraseDups_append_left, List.append_assoc, List.singleton_append]
    cases h : intern n t with
    | ok r u =>
      obtain ⟨hu, hsize⟩ := (exists_intern_eq_ok_iff ht).mp ⟨r, h⟩
      have hrest : internAll (n :: ns) t = internAll ns u := bind_of_ok h
      rw [leaves, hrest, ← hnames, ← hu]
      exact ih (wellFormed_of_names hu hsize)
    | error e u =>
      -- The table is full, so the names that follow change nothing.
      obtain ⟨-, hfull, rfl⟩ := intern_eq_error_iff.mp h
      have hsize : u.names.length = capacity := Nat.le_antisymm ht.size_le (Nat.le_of_not_lt hfull)
      have hfails : internAll (n :: ns) u = .error e u := bind_of_error h
      rw [leaves_of_error hfails, eraseDups_append_names ht, List.take_left' hsize]

theorem leaves_internAll (ht : t.WellFormed) (ns : List Name) :
    leaves (internAll ns) t = ⟨t.names ++ (t.unassigned ns).take (capacity - t.size)⟩ := by
  have hnames := names_leaves_internAll ht ns
  rw [eraseDups_append_names ht, List.take_append, List.take_of_length_le ht.size_le] at hnames
  cases hu : leaves (internAll ns) t
  rw [hu] at hnames
  exact congrArg mk hnames

theorem exists_internAll_eq_ok_iff (ht : t.WellFormed) :
    (∃ u, internAll ns t = .ok () u) ↔ t.size + (t.unassigned ns).length ≤ capacity := by
  have hsize : size ⟨t.names ++ t.unassigned ns⟩ = t.size + (t.unassigned ns).length := List.length_append
  simp only [internAll_eq_ok_iff ht, eraseDups_append_names ht]
  rw [← hsize]
  constructor
  · rintro ⟨⟨names⟩, rfl, hu⟩
    exact hu
  · intro h
    exact ⟨⟨_⟩, rfl, h⟩

end SymbolTable

namespace Encoding

open SymbolTable

variable {t : SymbolTable} {i : Instruction}

theorem encode_bind_pure (i : Instruction) : (encode i >>= fun _ => pure ()) = internAll i.operands := by
  cases i <;> simp [encode, internAll, Instruction.operands]

theorem leaves_encode (ht : t.WellFormed) (i : Instruction) :
    leaves (encode i) t = ⟨t.names ++ (t.unassigned i.operands).take (capacity - t.size)⟩ := by
  rw [← leaves_internAll ht, ← encode_bind_pure, leaves_bind_pure]

theorem exists_encode_eq_ok_iff (ht : t.WellFormed) :
    (∃ e u, encode i t = .ok e u) ↔ t.size + (t.unassigned i.operands).length ≤ capacity := by
  rw [← exists_internAll_eq_ok_iff ht, ← encode_bind_pure]
  simp only [bind_eq_ok_iff, pure_eq_ok_iff, true_and]
  constructor
  · rintro ⟨e, u, h⟩
    exact ⟨u, e, u, h, rfl⟩
  · rintro ⟨v, e, u, h, -⟩
    exact ⟨e, u, h⟩

theorem encode_of_room (ht : t.WellFormed) (h : t.size + (t.unassigned i.operands).length ≤ capacity) :
    ∃ e, encode i t = .ok e ⟨t.names ++ t.unassigned i.operands⟩ := by
  obtain ⟨e, u, hu⟩ := (exists_encode_eq_ok_iff ht).mpr h
  have hleaves := leaves_encode ht i
  rw [leaves_of_ok hu, List.take_of_length_le (by omega)] at hleaves
  exact ⟨e, hleaves ▸ hu⟩

theorem encode_without_room (ht : t.WellFormed) (h : capacity < t.size + (t.unassigned i.operands).length) :
    encode i t = .error .tooManyVariables ⟨t.names ++ (t.unassigned i.operands).take (capacity - t.size)⟩ := by
  cases hu : encode i t with
  | ok e u =>
    have := (exists_encode_eq_ok_iff ht).mp ⟨e, u, hu⟩
    omega
  | error e u =>
    cases e
    rw [← leaves_encode ht, leaves_of_error hu]

/-- Either the instruction is encoded, and the table gains just the operands that had no register, at the next free ones,
or encoding fails, and the table is as it was. -/
def AllOrNothing (i : Instruction) (t : SymbolTable) : Prop :=
  (∃ e u, encode i t = .ok e u ∧ u.names = t.names ++ t.unassigned i.operands ∧
    ∀ n r, t.register? n = some r → u.register? n = some r) ∨
    encode i t = .error .tooManyVariables t

theorem allOrNothing_of_room (ht : t.WellFormed) (h : t.size + (t.unassigned i.operands).length ≤ capacity) :
    AllOrNothing i t := by
  obtain ⟨e, he⟩ := encode_of_room ht h
  exact .inl ⟨e, _, he, rfl, fun n r hr => register?_append hr _⟩

theorem allOrNothing_of_full (ht : t.WellFormed) (h : capacity < t.size + (t.unassigned i.operands).length)
    (hfull : t.size = capacity) : AllOrNothing i t := by
  have he := encode_without_room ht h
  rw [hfull, Nat.sub_self, List.take_zero, List.append_nil] at he
  exact .inr he

theorem encode_with_one_register (ht : t.WellFormed) (hsize : t.size + 1 = capacity) {m n : Name}
    (hnew : t.unassigned i.operands = [m, n]) : encode i t = .error .tooManyVariables ⟨t.names ++ [m]⟩ := by
  have hroom : capacity - t.size = 1 := by omega
  have he := encode_without_room (i := i) ht (by rw [hnew, List.length_cons, List.length_singleton]; omega)
  rwa [hroom, hnew] at he

theorem not_allOrNothing_of_leak {m : Name} (h : encode i t = .error .tooManyVariables ⟨t.names ++ [m]⟩) :
    ¬AllOrNothing i t := by
  rintro (⟨e, u, hu, -, -⟩ | hsame)
  · rw [h] at hu
    cases hu
  · rw [h] at hsame
    have hnames : t.names ++ [m] = t.names := congrArg names (EStateM.Result.error.inj hsame).2
    simp at hnames

theorem encode_all_or_nothing_iff (t : SymbolTable) (ht : t.Reachable) (i : Instruction) :
    (AllOrNothing i t ↔ ¬(t.size + 1 = capacity ∧ (t.unassigned i.operands).length = 2)) ∧
      ∀ m n, t.size + 1 = capacity → t.unassigned i.operands = [m, n] →
        encode i t = .error .tooManyVariables ⟨t.names ++ [m]⟩ := by
  have hform := ht.wellFormed
  refine ⟨⟨?_, ?_⟩, ?_⟩
  · rintro h ⟨hsize, hlength⟩
    obtain ⟨m, n, hnew⟩ := List.length_eq_two.mp hlength
    exact not_allOrNothing_of_leak (encode_with_one_register hform hsize hnew) h
  · intro h
    by_cases hroom : t.size + (t.unassigned i.operands).length ≤ capacity
    · exact allOrNothing_of_room hform hroom
    · apply allOrNothing_of_full hform (by omega)
      have hle : t.size ≤ capacity := hform.size_le
      have hnew : (t.unassigned i.operands).length ≤ 2 := by
        have hoperands := t.length_unassigned_le i.operands
        rw [i.length_operands] at hoperands
        exact hoperands.trans i.opcode.arity_le
      omega
  · intro m n hsize hnew
    exact encode_with_one_register hform hsize hnew

theorem encode_all_or_nothing_iff_added :
    let t : SymbolTable := ⟨["b", "a"]⟩
    let i : Instruction := .swap "c" "b"
    t.Reachable ∧ AllOrNothing i t ∧ encode i t = .ok (.doubleWord 0x202) ⟨["b", "a", "c"]⟩ := by
  intro t i
  have ht : t.Reachable := .intern "a" (.intern "b" .empty)
  have hsize : t.size + 1 ≠ capacity := by simp [t, SymbolTable.size, capacity]
  exact ⟨ht, (encode_all_or_nothing_iff t ht i).1.mpr fun h => hsize h.1, by cbv⟩

def numbered (size : Nat) : SymbolTable :=
  ⟨(List.range size).map fun k => String.ofList (Text.natural k)⟩

theorem size_numbered (size : Nat) : (numbered size).size = size := by
  rw [SymbolTable.size, numbered, List.length_map, List.length_range]

theorem numbered_succ (size : Nat) :
    numbered (size + 1) = ⟨(numbered size).names ++ [String.ofList (Text.natural size)]⟩ := by
  simp only [numbered, List.range_succ, List.map_append, List.map_cons, List.map_nil]

theorem register?_numbered {size : Nat} {cs : List Char} (h : ∀ k < size, Text.natural k ≠ cs) :
    (numbered size).register? (String.ofList cs) = none := by
  rw [register?, List.idxOf?_eq_none_iff, numbered, List.mem_map]
  rintro ⟨k, hk, heq⟩
  exact h k (List.mem_range.mp hk) (String.ofList_injective heq)

theorem natural_injective {k l : Nat} (h : Text.natural k = Text.natural l) : k = l := by
  have hk : Nat.ofDigitChars 10 (Text.natural k) 0 = k := Nat.ofDigitChars_ten_toDigits
  have hl : Nat.ofDigitChars 10 (Text.natural l) 0 = l := Nat.ofDigitChars_ten_toDigits
  rw [← hk, h, hl]

theorem reachable_numbered {size : Nat} (h : size ≤ capacity) : (numbered size).Reachable := by
  induction size with
  | zero => exact .empty
  | succ size ih =>
    have hnew : (numbered size).register? (String.ofList (Text.natural size)) = none := by
      apply register?_numbered
      intro k hk heq
      exact Nat.ne_of_lt hk (natural_injective heq)
    have hroom : (numbered size).size < capacity := by
      rw [size_numbered]
      exact h
    have hreachable := Reachable.intern (String.ofList (Text.natural size)) (ih (Nat.le_of_lt h))
    rwa [leaves_of_ok (intern_of_new hnew hroom), ← numbered_succ] at hreachable

theorem register?_numbered_letter (size : Nat) {c : Char} (h : c.isDigit = false) :
    (numbered size).register? (String.ofList [c]) = none := by
  apply register?_numbered
  intro k _ heq
  have hc : c ∈ Text.natural k := heq ▸ List.mem_singleton_self c
  have hdigit : c.isDigit = true := Nat.isDigit_of_mem_toDigits (by decide) (by decide) hc
  rw [h] at hdigit
  cases hdigit

/-- Of two new operands the first gets the last register, and keeps it when encoding fails for want of another. -/
theorem encode_leaks_first_operand :
    let t := numbered (capacity - 1)
    let i : Instruction := .add "x" "y"
    t.Reachable ∧ t.size + 1 = capacity ∧ encode i t = .error .tooManyVariables ⟨t.names ++ ["x"]⟩ ∧
      ¬AllOrNothing i t := by
  intro t i
  have ht : t.Reachable := reachable_numbered (Nat.sub_le _ _)
  have hsize : t.size + 1 = capacity := by
    rw [size_numbered]
    rfl
  have hx : t.register? "x" = none := register?_numbered_letter _ (by decide)
  have hy : t.register? "y" = none := register?_numbered_letter _ (by decide)
  have hnew : t.unassigned i.operands = ["x", "y"] := by
    simp [i, unassigned, Instruction.operands, hx, hy]
    decide
  have hleak := encode_with_one_register ht.wellFormed hsize hnew
  exact ⟨ht, hsize, hleak, not_allOrNothing_of_leak hleak⟩

end Encoding

end Reversible
