import Std.Data.ExtTreeMap
import Reversible.Fault

/-!
States: finite maps from names to values, equal exactly if they have the same names and the same value at each.
`State.agrees` is the coarser comparison in which an absent name holds 0.
-/

namespace Reversible

structure State where
  values : Std.ExtTreeMap Name Value compare
  deriving DecidableEq

namespace State

def empty : State := ⟨∅⟩

def value? (s : State) (n : Name) : Option Value :=
  s.values[n]?

def contains (s : State) (n : Name) : Bool :=
  s.values.contains n

def size (s : State) : Nat :=
  s.values.size

def isEmpty (s : State) : Bool :=
  s.values.isEmpty

def insert (s : State) (n : Name) (v : Value) : State :=
  ⟨s.values.insert n v⟩

def ofList (entries : List (Name × Value)) : State :=
  entries.foldl (fun s e => s.insert e.1 e.2) empty

def create (names : List Name) (v : Value) : State :=
  ofList (names.map fun n => (n, v))

def entries (s : State) : List (Name × Value) :=
  s.values.toList

def names (s : State) : List Name :=
  s.values.keys

/-- Comparison is the one place where an absent name has a value. -/
def valueOrZero (s : State) (n : Name) : Value :=
  (s.value? n).getD 0

def agrees (s t : State) : Bool :=
  (s.names ++ t.names).all fun n => s.valueOrZero n = t.valueOrZero n

def exchange (s : State) (n : Name) (v : Value) : Option Value × State :=
  (s.value? n, s.insert n v)

def read (n : Name) : Action State Value := fun s =>
  match s.value? n with
  | some v => .ok v s
  | none => .error (.unknownVariable n) s

def write (n : Name) (v : Value) : Action State Unit := fun s =>
  match s.value? n with
  | some _ => .ok () (s.insert n v)
  | none => .error (.unknownVariable n) s

def entryText (e : Name × Value) : String :=
  e.1 ++ ": " ++ String.ofList (Text.integer e.2.toInt)

def text (s : State) : String :=
  "\x7b" ++ ", ".intercalate (s.entries.map entryText) ++ "\x7d"

theorem ext_value? {s t : State} (h : ∀ n, s.value? n = t.value? n) : s = t := by
  cases s
  cases t
  congr 1
  exact Std.ExtTreeMap.ext_getElem? h

@[simp] theorem value?_empty (n : Name) : empty.value? n = none := by
  simp [empty, value?]

theorem value?_insert (s : State) (n m : Name) (v : Value) :
    (s.insert n v).value? m = if n = m then some v else s.value? m := by
  simp [insert, value?, Std.ExtTreeMap.getElem?_insert]

@[simp] theorem value?_insert_self (s : State) (n : Name) (v : Value) : (s.insert n v).value? n = some v := by
  simp [value?_insert]

theorem value?_insert_of_ne (s : State) {n m : Name} (v : Value) (h : n ≠ m) :
    (s.insert n v).value? m = s.value? m := by
  simp [value?_insert, h]

theorem isSome_value?_insert {s : State} {n : Name} {v : Value} (h : (s.value? n).isSome) (m : Name) :
    ((s.insert n v).value? m).isSome = (s.value? m).isSome := by
  rw [value?_insert]
  split
  · next hnm => rw [← hnm, h, Option.isSome_some]
  · rfl

theorem isSome_value?_insert_insert {s : State} {a b : Name} {v w : Value} (ha : (s.value? a).isSome)
    (hb : (s.value? b).isSome) (m : Name) :
    (((s.insert a v).insert b w).value? m).isSome = (s.value? m).isSome := by
  rw [isSome_value?_insert, isSome_value?_insert ha]
  rwa [isSome_value?_insert ha]

theorem contains_eq (s : State) (n : Name) : s.contains n = (s.value? n).isSome := by
  simp [contains, value?]

theorem contains_insert (s : State) (n m : Name) (v : Value) :
    (s.insert n v).contains m = (decide (n = m) || s.contains m) := by
  rw [contains_eq, contains_eq, value?_insert]
  by_cases h : n = m
  · simp [h]
  · simp [h]

theorem mem_names {s : State} {n : Name} : n ∈ s.names ↔ (s.value? n).isSome := by
  simp [names, value?]

theorem mem_entries {s : State} {n : Name} {v : Value} : (n, v) ∈ s.entries ↔ s.value? n = some v := by
  simp [entries, value?]

end State

end Reversible
