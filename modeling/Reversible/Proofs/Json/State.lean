import Reversible.Proofs.Entries
import Reversible.Proofs.Json.Container
import Reversible.Proofs.Json.Number
import Reversible.Puzzle.Json

namespace Reversible

namespace Json

variable {room : Nat}

theorem nests_integer (z : Int) : Nests (Text.integer z) 0 := by
  apply nests_of_plain
  intro c hc hbracket
  obtain rfl | hdigit := minus_or_digit_of_mem_integer hc
  · revert hbracket
    decide
  · simp only [List.mem_cons, List.not_mem_nil, or_false] at hbracket
    obtain rfl | rfl | rfl | rfl | rfl := hbracket <;> contradiction

theorem nesting_integer (z : Int) : nesting (Text.integer z) = 0 :=
  (nests_integer z).nesting_eq

theorem isValue_integer (z : Int) : IsValue (Text.integer z) := by
  apply (nests_integer z).isValue
  obtain ⟨c, cs, hcs, rfl | hc⟩ := integer_eq_cons z
  · exact ⟨'-', cs, hcs, by decide⟩
  · refine ⟨c, cs, hcs, not_isBlank_of_isDigit hc, ?_, ?_⟩ <;> rintro rfl <;> contradiction

theorem reads_int64 (v : Int64) : Reads room int64 (Text.integer v.toInt) v :=
  reads_of_flat (isValue_integer v.toInt) (nesting_integer v.toInt) fun _ hrest => int64_integer hrest v

end Json

namespace State

variable {entries : List (Name × Value)}

theorem assembles_entries (room : Nat) (entries : List (Name × Value)) (s : State) :
    Json.Assembles room (fun s n => .ok do return s.insert n (← Json.int64)) s
      (entries.map fun e => (e.1, Text.integer e.2.toInt)) (entries.foldl (fun s e => s.insert e.1 e.2) s) := by
  induction entries generalizing s with
  | nil => exact .nil s
  | cons e es ih => exact .cons rfl ((Json.reads_int64 e.2).bind_pure (s.insert e.1)) (ih _)

theorem reads_written {s : State} (h : entries.Perm s.entries) (room : Nat) :
    Json.Reads room (reader room) (written entries) s := by
  rw [← ofList_eq_of_perm h]
  exact Json.reads_object (assembles_entries _ entries empty)

theorem nesting_written (entries : List (Name × Value)) : Json.nesting (written entries) = 1 := by
  rw [written, Json.nesting_writtenObject (assembles_entries 0 entries empty).values, Json.deepestOf_eq_zero]
  intro text htext
  obtain ⟨m, hm, rfl⟩ := List.mem_map.mp htext
  obtain ⟨e, -, rfl⟩ := List.mem_map.mp hm
  exact Json.nesting_integer e.2.toInt

theorem ofJson_of_perm {s : State} (h : entries.Perm s.entries) : ofJson (String.ofList (written entries)) = .ok s := by
  rw [ofJson, (reads_written h _).parse, nesting_written]
  rfl

theorem ofJson_written (s : State) :
    (∀ entries : List (Name × Value), entries.Perm s.entries → ofJson (String.ofList (written entries)) = .ok s) ∧
      ofJson s.toJson = .ok s := by
  constructor
  · intro entries h
    exact ofJson_of_perm h
  · exact ofJson_of_perm (List.Perm.refl s.entries)

theorem ofJson_written_unordered :
    let entries : List (Name × Value) :=
      [("\"\\\n\u0001é", Int64.minValue), ("", 0), ("x", Int64.maxValue), ("\u007f😀", -1)]
    entries.Perm (ofList entries).entries ∧ ofJson (String.ofList (written entries)) = .ok (ofList entries) ∧
      ofJson (ofList entries).toJson = .ok (ofList entries) := by
  intro entries
  have hperm : entries.Perm (ofList entries).entries := by decide +kernel
  obtain ⟨hentries, htext⟩ := ofJson_written (ofList entries)
  exact ⟨hperm, hentries entries hperm, htext⟩

end State

end Reversible
