import Reversible.Evaluator
import Reversible.Json.Record

namespace Reversible

namespace State

/-- An object of integers. Of two members with one key the later counts. -/
def reader (room : Nat) : Json.Reader State :=
  Json.object room (fun s n => do return s.insert n (← Json.int64)) empty

def ofJson (text : String) : Except Json.Problem State :=
  Json.parse (reader Json.maxDepth) text

def written (entries : List (Name × Value)) : List Char :=
  Json.writtenObject (entries.map fun e => (e.1, Text.integer e.2.toInt))

def toJson (s : State) : String :=
  String.ofList (written s.entries)

end State

namespace Step

structure Draft where
  domain : Option (Option String) := none
  op : Option String := none
  target : Option (Option Name) := none
  targets : Option (Option (List Name)) := none
  result : Option (Option Name) := none
  steps : Option (Option (List Step)) := none

def Draft.finish (d : Draft) : Except Json.Problem Step :=
  match d.op with
  | none => .error .mismatch
  | some op =>
    .ok {
      domain := d.domain.join
      op
      target := d.target.join
      targets := d.targets.join
      result := d.result.join
      steps := d.steps.join }

def fields (names : Json.Reader (List Name)) (steps : Json.Reader (List Step)) : List (Json.Field Draft) :=
  [ { key := "domain", isSet := fun d => d.domain.isSome,
      set := fun d => do return { d with domain := some (← Json.optional Json.string) } },
    { key := "op", isSet := fun d => d.op.isSome,
      set := fun d => do return { d with op := some (← Json.string) } },
    { key := "target", isSet := fun d => d.target.isSome,
      set := fun d => do return { d with target := some (← Json.optional Json.string) } },
    { key := "targets", isSet := fun d => d.targets.isSome,
      set := fun d => do return { d with targets := some (← Json.optional names) } },
    { key := "result", isSet := fun d => d.result.isSome,
      set := fun d => do return { d with result := some (← Json.optional Json.string) } },
    { key := "steps", isSet := fun d => d.steps.isSome,
      set := fun d => do return { d with steps := some (← Json.optional steps) } } ]

mutual

def reader : (room : Nat) → Json.Reader Step
  | 0 => Json.record 0 [] {} Draft.finish
  | room + 1 => Json.record (room + 1) (fields (Json.list room Json.string) (listReader room)) {} Draft.finish

def listReader : (room : Nat) → Json.Reader (List Step)
  | 0 => Json.list 0 (throw .malformed)
  | room + 1 => Json.list (room + 1) (reader room)

end

def ofJson (text : String) : Except Json.Problem Step :=
  Json.parse (reader Json.maxDepth) text

def writtenField (key : String) (value : Option (List Char)) : List (String × List Char) :=
  value.toList.map fun v => (key, v)

def writtenWith (s : Step) (steps : Option (List Char)) : List Char :=
  Json.writtenObject
    (writtenField "domain" (s.domain.map Json.quoted) ++
      [("op", Json.quoted s.op)] ++
      writtenField "target" (s.target.map Json.quoted) ++
      writtenField "targets" (s.targets.map fun ns => Json.writtenList (ns.map Json.quoted)) ++
      writtenField "result" (s.result.map Json.quoted) ++
      writtenField "steps" steps)

mutual

def written : Step → List Char
  | ⟨d, op, t, ts, r, none⟩ => writtenWith ⟨d, op, t, ts, r, none⟩ none
  | ⟨d, op, t, ts, r, some ss⟩ => writtenWith ⟨d, op, t, ts, r, none⟩ (some (Json.writtenList (writtenAll ss)))
termination_by structural s => s

def writtenAll : List Step → List (List Char)
  | [] => []
  | s :: ss => written s :: writtenAll ss
termination_by structural ss => ss

end

def toJson (s : Step) : String :=
  String.ofList s.written

end Step

namespace Puzzle

structure Draft where
  domain : Option String := none
  initial : Option State := none
  goal : Option State := none
  steps : Option (List Step) := none

def Draft.finish (d : Draft) : Except Json.Problem Puzzle :=
  match d.domain, d.initial, d.goal with
  | some domain, some initial, some goal => .ok { domain, initial, goal, steps := d.steps.getD [] }
  | _, _, _ => .error .mismatch

def fields (room : Nat) : List (Json.Field Draft) :=
  [ { key := "domain", isSet := fun d => d.domain.isSome,
      set := fun d => do return { d with domain := some (← Json.string) } },
    { key := "initial", isSet := fun d => d.initial.isSome,
      set := fun d => do return { d with initial := some (← State.reader room) } },
    { key := "goal", isSet := fun d => d.goal.isSome,
      set := fun d => do return { d with goal := some (← State.reader room) } },
    { key := "steps", isSet := fun d => d.steps.isSome,
      set := fun d => do return { d with steps := some (← Step.listReader room) } } ]

def reader (room : Nat) : Json.Reader Puzzle :=
  Json.record room (fields (room - 1)) {} Draft.finish

def ofJson (text : String) : Except Json.Problem Puzzle :=
  Json.parse (reader Json.maxDepth) text

def writtenWith (p : Puzzle) (initial goal : List (Name × Value)) : List Char :=
  Json.writtenObject
    [("domain", Json.quoted p.domain),
      ("initial", State.written initial),
      ("goal", State.written goal),
      ("steps", Json.writtenList (Step.writtenAll p.steps))]

def toJson (p : Puzzle) : String :=
  String.ofList (p.writtenWith p.initial.entries p.goal.entries)

end Puzzle

end Reversible
