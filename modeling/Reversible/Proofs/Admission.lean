import Reversible.Proofs.History

namespace Reversible

open Reversible.Action

namespace State

def lacks? (s : State) (ns : List Name) : Option Name :=
  ns.find? fun n => !s.contains n

variable {s : State} {ns : List Name} {a b n : Name}

theorem lacks?_eq_none_iff : s.lacks? ns = none ↔ ∀ n ∈ ns, (s.value? n).isSome := by
  simp [lacks?, contains_eq, Option.isSome_iff_ne_none]

theorem lacks?_cons_of_none (ha : s.value? a = none) : s.lacks? (a :: ns) = some a := by
  simp [lacks?, contains_eq, ha]

theorem lacks?_cons_of_some {v : Value} (ha : s.value? a = some v) : s.lacks? (a :: ns) = s.lacks? ns := by
  simp [lacks?, contains_eq, ha]

theorem lacks?_congr {s' : State} (h : ∀ n, (s'.value? n).isSome = (s.value? n).isSome) (ns : List Name) :
    s'.lacks? ns = s.lacks? ns := by
  simp only [lacks?, contains_eq, h]

theorem read_bind_of_lacks? {f : Value → Action State Unit} (h : s.lacks? [a] = some n) :
    (read a >>= f) s = .error (.unknownVariable n) s := by
  rw [read_bind_eq_error_iff]
  cases ha : s.value? a with
  | none =>
    rw [lacks?_cons_of_none ha] at h
    cases h
    exact .inl ⟨rfl, rfl, rfl⟩
  | some x =>
    rw [lacks?_cons_of_some ha] at h
    cases h

theorem read_read_of_lacks? {f : Value → Value → Action State Unit} (h : s.lacks? [a, b] = some n) :
    (do let x ← read a; let y ← read b; f x y) s = .error (.unknownVariable n) s := by
  rw [read_bind_eq_error_iff]
  cases ha : s.value? a with
  | none =>
    rw [lacks?_cons_of_none ha] at h
    cases h
    exact .inl ⟨rfl, rfl, rfl⟩
  | some x =>
    rw [lacks?_cons_of_some ha] at h
    exact .inr ⟨x, rfl, read_bind_of_lacks? h⟩

end State

namespace Instruction

def repeated? : Instruction → Option Name
  | add a b => if a = b then some a else none
  | sub a b => if a = b then some a else none
  | swap _ _ => none
  | negate _ => none
  | noop => none

def objection? (s : State) (i : Instruction) : Option Fault :=
  match i.repeated? with
  | some n => some (.aliasedOperands i.opcode n)
  | none => (s.lacks? i.operands).map .unknownVariable

def Admissible (s : State) (i : Instruction) : Prop :=
  i.repeated? = none ∧ ∀ n ∈ i.operands, n ∈ s.names

variable {s t : State} {i : Instruction} {a b : Name} {fault : Fault}

theorem objection?_eq_none_iff : i.objection? s = none ↔ i.Admissible s := by
  unfold objection? Admissible
  simp only [State.mem_names]
  cases i.repeated? with
  | none => simp [State.lacks?_eq_none_iff]
  | some n => simp

theorem objection?_eq_some_iff :
    i.objection? s = some fault ↔
      (∃ n, i.repeated? = some n ∧ fault = .aliasedOperands i.opcode n) ∨
        i.repeated? = none ∧ ∃ n, s.lacks? i.operands = some n ∧ fault = .unknownVariable n := by
  unfold objection?
  cases i.repeated? with
  | none => simp [Option.map_eq_some_iff, eq_comm (a := fault)]
  | some n => simp [eq_comm (a := fault)]

theorem combine_of_lacks? {op : Opcode} {f : Value → Value → Value} {n : Name} (hab : a ≠ b)
    (h : s.lacks? [a, b] = some n) : combine op f a b s = .error (.unknownVariable n) s :=
  distinct_bind_eq_error_iff.mpr (.inr ⟨hab, State.read_read_of_lacks? h⟩)

theorem combine_self {op : Opcode} {f : Value → Value → Value} :
    combine op f a a s = .error (.aliasedOperands op a) s :=
  distinct_bind_eq_error_iff.mpr (.inl ⟨rfl, rfl, rfl⟩)

theorem exists_executes (h : i.objection? s = none) : ∃ t, Executes i s t := by
  obtain ⟨hrepeated, hoperands⟩ := objection?_eq_none_iff.mp h
  simp only [State.mem_names, Option.isSome_iff_exists] at hoperands
  cases i with
  | add a b =>
    simp only [repeated?, ite_eq_right_iff, reduceCtorEq, imp_false] at hrepeated
    simp only [operands, List.forall_mem_cons] at hoperands
    obtain ⟨⟨x, ha⟩, ⟨y, hb⟩, -⟩ := hoperands
    exact ⟨_, .add hrepeated ha hb⟩
  | sub a b =>
    simp only [repeated?, ite_eq_right_iff, reduceCtorEq, imp_false] at hrepeated
    simp only [operands, List.forall_mem_cons] at hoperands
    obtain ⟨⟨x, ha⟩, ⟨y, hb⟩, -⟩ := hoperands
    exact ⟨_, .sub hrepeated ha hb⟩
  | swap a b =>
    simp only [operands, List.forall_mem_cons] at hoperands
    obtain ⟨⟨x, ha⟩, ⟨y, hb⟩, -⟩ := hoperands
    exact ⟨_, .swap ha hb⟩
  | negate a =>
    simp only [operands, List.forall_mem_cons] at hoperands
    obtain ⟨⟨x, ha⟩, -⟩ := hoperands
    exact ⟨_, .negate ha⟩
  | noop => exact ⟨s, .noop⟩

theorem execute_of_repeated? {n : Name} (h : i.repeated? = some n) :
    i.execute s = .error (.aliasedOperands i.opcode n) s := by
  cases i with
  | add a b =>
    simp only [repeated?, Option.ite_none_right_eq_some, Option.some.injEq] at h
    obtain ⟨rfl, rfl⟩ := h
    exact combine_self
  | sub a b =>
    simp only [repeated?, Option.ite_none_right_eq_some, Option.some.injEq] at h
    obtain ⟨rfl, rfl⟩ := h
    exact combine_self
  | swap a b => cases h
  | negate a => cases h
  | noop => cases h

theorem execute_of_lacks? {n : Name} (hrepeated : i.repeated? = none) (h : s.lacks? i.operands = some n) :
    i.execute s = .error (.unknownVariable n) s := by
  cases i with
  | add a b =>
    simp only [repeated?, ite_eq_right_iff, reduceCtorEq, imp_false] at hrepeated
    exact combine_of_lacks? hrepeated h
  | sub a b =>
    simp only [repeated?, ite_eq_right_iff, reduceCtorEq, imp_false] at hrepeated
    exact combine_of_lacks? hrepeated h
  | swap a b => exact State.read_read_of_lacks? h
  | negate a => exact State.read_bind_of_lacks? h
  | noop => cases h

theorem execute_of_objection? (h : i.objection? s = some fault) : i.execute s = .error fault s := by
  obtain ⟨n, hn, rfl⟩ | ⟨hrepeated, n, hn, rfl⟩ := objection?_eq_some_iff.mp h
  · exact execute_of_repeated? hn
  · exact execute_of_lacks? hrepeated hn

theorem objection?_congr (h : ∀ n, (t.value? n).isSome = (s.value? n).isSome) (i : Instruction) :
    i.objection? t = i.objection? s := by
  unfold objection?
  rw [State.lacks?_congr h]

theorem Executes.isSome_value? (h : Executes i s t) (n : Name) : (t.value? n).isSome = (s.value? n).isSome := by
  cases h with
  | add hne ha hb => exact State.isSome_value?_insert (Option.isSome_of_eq_some ha) n
  | sub hne ha hb => exact State.isSome_value?_insert (Option.isSome_of_eq_some ha) n
  | swap ha hb =>
    exact State.isSome_value?_insert_insert (Option.isSome_of_eq_some ha) (Option.isSome_of_eq_some hb) n
  | negate ha => exact State.isSome_value?_insert (Option.isSome_of_eq_some ha) n
  | noop => rfl

end Instruction

namespace Program

variable {p : Program} {s t : State} {fault : Fault}

def objection? (s : State) (p : Program) : Option Fault :=
  p.findSome? (Instruction.objection? s)

theorem objection?_congr (h : ∀ n, (t.value? n).isSome = (s.value? n).isSome) (p : Program) :
    objection? t p = objection? s p := by
  unfold objection?
  congr 1
  funext i
  exact Instruction.objection?_congr h i

theorem objection?_cons (i : Instruction) (p : Program) (s : State) :
    objection? s (i :: p) = (i.objection? s).or (objection? s p) := by
  unfold objection?
  rw [List.findSome?_cons]
  cases i.objection? s with
  | none => rfl
  | some fault => rfl

theorem verdict_execute (p : Program) (s : State) : verdict p.execute s = (objection? s p).elim (.ok ()) .error := by
  induction p generalizing s with
  | nil => rfl
  | cons i p ih =>
    rw [objection?_cons]
    cases hi : i.objection? s with
    | none =>
      obtain ⟨u, hu⟩ := Instruction.exists_executes hi
      have hp : execute (i :: p) s = execute p u := bind_of_ok hu.execute
      -- `i` keeps the names, so the rest is judged after it as it was before.
      rw [verdict_congr hp, ih u, objection?_congr hu.isSome_value? p, Option.none_or]
    | some fault =>
      rw [Option.some_or]
      exact verdict_of_error (bind_of_error (Instruction.execute_of_objection? hi))

theorem isSome_value?_leaves (p : Program) (s : State) (n : Name) :
    ((leaves p.execute s).value? n).isSome = (s.value? n).isSome := by
  induction p generalizing s with
  | nil => rfl
  | cons i p ih =>
    cases hi : i.execute s with
    | ok _ u =>
      have hu := (Instruction.executes_of_execute hi).isSome_value? n
      have hp : execute (i :: p) s = execute p u := bind_of_ok hi
      rw [leaves, hp]
      exact (ih u).trans hu
    | error fault u =>
      obtain rfl := Instruction.eq_of_execute_error hi
      have hp : execute (i :: p) u = .error fault u := bind_of_error hi
      rw [leaves_of_error hp]

theorem objection?_eq_none_iff : objection? s p = none ↔ ∀ i ∈ p, i.Admissible s := by
  simp only [objection?, List.findSome?_eq_none_iff, Instruction.objection?_eq_none_iff]

theorem objection?_eq_some_iff :
    objection? s p = some fault ↔
      ∃ q i r, p = q ++ i :: r ∧ (∀ j ∈ q, j.Admissible s) ∧ i.objection? s = some fault := by
  unfold objection?
  rw [List.findSome?_eq_some_iff]
  simp only [Instruction.objection?_eq_none_iff]
  constructor
  · rintro ⟨q, i, r, hp, hi, hq⟩
    exact ⟨q, i, r, hp, hq, hi⟩
  · rintro ⟨q, i, r, hp, hq, hi⟩
    exact ⟨q, i, r, hp, hi, hq⟩

theorem exists_execute_eq_ok_iff : (∃ t, p.execute s = .ok () t) ↔ objection? s p = none := by
  rw [← verdict_eq_ok_iff, verdict_execute]
  cases objection? s p <;> simp

theorem exists_execute_eq_error_iff : (∃ t, p.execute s = .error fault t) ↔ objection? s p = some fault := by
  rw [← verdict_eq_error_iff, verdict_execute]
  cases objection? s p <;> simp

theorem verdict_execute_congr (h : ∀ n, (t.value? n).isSome = (s.value? n).isSome) (p : Program) :
    verdict p.execute t = verdict p.execute s := by
  rw [verdict_execute, verdict_execute, objection?_congr h]

end Program

namespace Machine

theorem verdict_runAll (p : Program) (m : Machine) : verdict (runAll p) m = verdict p.execute m.state := by
  have hrun := runAll_eq m p
  cases hp : p.execute m.state with
  | ok _ s =>
    rw [hp] at hrun
    rw [verdict_of_ok hrun, verdict_of_ok hp]
  | error fault s =>
    rw [hp] at hrun
    rw [verdict_of_error hrun, verdict_of_error hp]

theorem isSome_value?_leaves_runAll (p : Program) (m : Machine) (n : Name) :
    ((leaves (runAll p) m).state.value? n).isSome = (m.state.value? n).isSome := by
  have hrun := runAll_eq m p
  cases hp : p.execute m.state with
  | ok _ s =>
    rw [hp] at hrun
    rw [leaves_of_ok hrun, ← Program.isSome_value?_leaves p m.state n, leaves_of_ok hp]
  | error fault s =>
    rw [hp] at hrun
    rw [leaves_of_error hrun]

end Machine

namespace Program

theorem execute_decided_by_names (p : Program) :
    (∀ s, (∃ t, p.execute s = .ok () t) ↔ ∀ i ∈ p, i.Admissible s) ∧
      (∀ s fault, (∃ t, p.execute s = .error fault t) ↔
        ∃ q i r, p = q ++ i :: r ∧ (∀ j ∈ q, j.Admissible s) ∧
          ((∃ n, i.repeated? = some n ∧ fault = .aliasedOperands i.opcode n) ∨
            i.repeated? = none ∧ ∃ n, s.lacks? i.operands = some n ∧ fault = .unknownVariable n)) ∧
      (∀ m m' : Machine, (∀ n, m.state.contains n = m'.state.contains n) →
        verdict (Machine.runAll p) m = verdict (Machine.runAll p) m') ∧
      (∀ s n, (leaves p.execute s).contains n = s.contains n) ∧
      ∀ m n, (leaves (Machine.runAll p) m).state.contains n = m.state.contains n := by
  refine ⟨?_, ?_, ?_, ?_, ?_⟩
  · intro s
    rw [exists_execute_eq_ok_iff, objection?_eq_none_iff]
  · intro s fault
    rw [exists_execute_eq_error_iff, objection?_eq_some_iff]
    simp only [Instruction.objection?_eq_some_iff]
  · intro m m' h
    rw [Machine.verdict_runAll, Machine.verdict_runAll]
    apply verdict_execute_congr
    intro n
    rw [← State.contains_eq, ← State.contains_eq, h n]
  · intro s n
    rw [State.contains_eq, State.contains_eq, isSome_value?_leaves]
  · intro m n
    rw [State.contains_eq, State.contains_eq, Machine.isSome_value?_leaves_runAll]

/-- The aliased operand is reported although there is no such variable. -/
theorem execute_decided_by_names_aliased :
    let p : Program := [.add "a" "b", .sub "z" "z", .negate "y"]
    let m : Machine := ⟨State.ofList [("a", 1), ("b", 2)], []⟩
    let m' : Machine := ⟨State.ofList [("a", Int64.maxValue), ("b", 0)], [.noop]⟩
    (∀ n, m.state.contains n = m'.state.contains n) ∧
      verdict (Machine.runAll p) m = .error (.aliasedOperands .sub "z") ∧
      verdict (Machine.runAll p) m = verdict (Machine.runAll p) m' := by
  intro p m m'
  have hnames : ∀ n, m.state.contains n = m'.state.contains n := by
    intro n
    simp only [m, m', State.ofList, List.foldl_cons, List.foldl_nil, State.contains_insert]
  exact ⟨hnames, rfl, (execute_decided_by_names p).2.2.1 m m' hnames⟩

end Program

end Reversible
