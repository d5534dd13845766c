import Reversible.Proofs.Json.Container
import Reversible.Puzzle.Json

namespace Reversible.Step

theorem writtenAll_eq_map (ss : List Step) : writtenAll ss = ss.map written := by
  induction ss with
  | nil => rfl
  | cons s ss ih => rw [writtenAll, ih, List.map_cons]

theorem written_eq (s : Step) :
    s.written = s.writtenWith (s.steps.map fun ss => Json.writtenList (ss.map written)) := by
  obtain ⟨d, op, t, ts, r, ss⟩ := s
  cases ss with
  | none => rfl
  | some ss =>
    rw [written, writtenAll_eq_map]
    rfl

def drafted (s : Step) : Draft :=
  { domain := s.domain.map some
    op := some s.op
    target := s.target.map some
    targets := s.targets.map some
    result := s.result.map some
    steps := s.steps.map some }

theorem finish_drafted (s : Step) : s.drafted.finish = .ok s := by
  have hjoin : ∀ {α : Type} (value : Option α), (value.map some).join = value := by
    intro α value
    cases value <;> rfl
  cases s
  simp only [Draft.finish, drafted, hjoin]

section Fields

variable {α : Type} {room : Nat} (names : Json.Reader (List Name)) (steps : Json.Reader (List Step))

theorem assembles_writtenField (key : String) (set : Option (Option α) → Draft) {item : Json.Reader α}
    {write : α → List Char} (value : Option α)
    (hkey : Json.member (fields names steps) (set none) key = .ok (do return set (some (← Json.optional item))))
    (hread : ∀ v ∈ value, Json.Reads room item (write v) v) :
    Json.Assembles room (Json.member (fields names steps)) (set none) (writtenField key (value.map write))
      (set (value.map some)) := by
  cases value with
  | none => exact .nil _
  | some v => exact .cons hkey ((hread v rfl).optional.bind_pure fun v => set (some v)) (.nil _)

theorem assembles_drafted {s : Step} {write : List Step → List Char}
    (hnames : ∀ ns ∈ s.targets, Json.Reads room names (Json.writtenList (ns.map Json.quoted)) ns)
    (hsteps : ∀ ss ∈ s.steps, Json.Reads room steps (write ss) ss) :
    Json.Assembles room (Json.member (fields names steps)) {}
      (writtenField "domain" (s.domain.map Json.quoted) ++
        [("op", Json.quoted s.op)] ++
        writtenField "target" (s.target.map Json.quoted) ++
        writtenField "targets" (s.targets.map fun ns => Json.writtenList (ns.map Json.quoted)) ++
        writtenField "result" (s.result.map Json.quoted) ++
        writtenField "steps" (s.steps.map write))
      s.drafted := by
  have hstring : ∀ {value : Option String}, ∀ v ∈ value, Json.Reads room Json.string (Json.quoted v) v := by
    intro value v _
    exact Json.reads_string v
  -- Each key is met while its field is unset, so it is known and not refused as a second one.
  have hdomain := assembles_writtenField names steps "domain" (fun d => { domain := d }) s.domain rfl hstring
  have hop : Json.Assembles room (Json.member (fields names steps)) { domain := s.domain.map some }
      [("op", Json.quoted s.op)] { domain := s.domain.map some, op := some s.op } :=
    .cons rfl ((Json.reads_string s.op).bind_pure fun op => ({ domain := s.domain.map some, op := some op } : Draft))
      (.nil _)
  have htarget := assembles_writtenField names steps "target"
    (fun t => { domain := s.domain.map some, op := some s.op, target := t }) s.target rfl hstring
  have htargets := assembles_writtenField names steps "targets"
    (fun ts => { domain := s.domain.map some, op := some s.op, target := s.target.map some, targets := ts }) s.targets
    rfl hnames
  have hresult := assembles_writtenField names steps "result"
    (fun r => { s.drafted with result := r, steps := none }) s.result rfl hstring
  have hinside := assembles_writtenField names steps "steps"
    (fun ss => { s.drafted with steps := ss }) s.steps rfl hsteps
  exact ((((hdomain.append hop).append htarget).append htargets).append hresult).append hinside

variable {names steps}

theorem reads_writtenWith {s : Step} {write : List Step → List Char}
    (hnames : ∀ ns ∈ s.targets, Json.Reads (room - 1) names (Json.writtenList (ns.map Json.quoted)) ns)
    (hsteps : ∀ ss ∈ s.steps, Json.Reads (room - 1) steps (write ss) ss) :
    Json.Reads room (Json.record room (fields names steps) {} Draft.finish) (s.writtenWith (s.steps.map write)) s :=
  Json.reads_record (assembles_drafted names steps hnames hsteps) (finish_drafted s)

end Fields

theorem reads_names (room : Nat) (ns : List Name) :
    Json.Reads room (Json.list room Json.string) (Json.writtenList (ns.map Json.quoted)) ns := by
  apply Json.reads_list
  intro n _
  exact Json.reads_string n

theorem reads_writtenList {ss : List Step} (h : ∀ u ∈ ss, ∀ room, Json.Reads room (reader room) u.written u)
    (room : Nat) : Json.Reads room (listReader room) (Json.writtenList (ss.map written)) ss := by
  cases room with
  | zero =>
    have hlist : Json.Reads 0 _ (Json.writtenList (ss.map written)) ss := Json.reads_list fun u hu => h u hu 0
    exact Json.reads_without_room (.inl rfl) hlist.isValue fun _ => rfl
  | succ room => exact Json.reads_list fun u hu => h u hu room

theorem reads_written (s : Step) : ∀ room, Json.Reads room (reader room) s.written s := by
  induction s using Step.induction with
  | sequence s ih =>
    have hsteps : ∀ room, ∀ ss ∈ s.steps,
        Json.Reads room (listReader room) (Json.writtenList (ss.map written)) ss := by
      intro room ss hss
      have hsubsteps : s.substeps = ss := by rw [substeps, hss, Option.getD_some]
      exact reads_writtenList (hsubsteps ▸ ih) room
    intro room
    rw [written_eq]
    cases room with
    | zero =>
      have hrecord : Json.Reads 0 _ (s.writtenWith (s.steps.map fun ss => Json.writtenList (ss.map written))) s :=
        reads_writtenWith (fun ns _ => reads_names 0 ns) (hsteps 0)
      exact Json.reads_without_room (.inr rfl) hrecord.isValue fun _ => rfl
    | succ room => exact reads_writtenWith (fun ns _ => reads_names room ns) (hsteps room)

theorem reads_writtenAll (ss : List Step) (room : Nat) :
    Json.Reads room (listReader room) (Json.writtenList (writtenAll ss)) ss := by
  rw [writtenAll_eq_map]
  exact reads_writtenList (fun u _ => reads_written u) room

section Nesting

theorem deepestOf_writtenField (key : String) (value : Option (List Char)) :
    Json.deepestOf ((writtenField key value).map Prod.snd) = value.elim 0 Json.nesting := by
  cases value with
  | none => rfl
  | some text => exact Nat.max_zero _

theorem nesting_names (ns : List Name) : Json.nesting (Json.writtenList (ns.map Json.quoted)) = 1 := by
  have hvalues := List.forall_mem_map.mpr fun n (_ : n ∈ ns) => Json.isValue_quoted n
  rw [Json.nesting_writtenList hvalues, Json.deepestOf_eq_zero]
  intro text htext
  obtain ⟨n, -, rfl⟩ := List.mem_map.mp htext
  exact Json.nesting_quoted n

theorem nesting_written (s : Step) :
    Json.nesting s.written =
      max (s.targets.elim 0 fun _ => 1) (s.steps.elim 0 fun ss => Json.deepestOf (ss.map written) + 1) + 1 := by
  have hstring : ∀ value : Option String, (value.map Json.quoted).elim 0 Json.nesting = 0 := by
    intro value
    cases value with
    | none => rfl
    | some n => exact Json.nesting_quoted n
  have hop : Json.deepestOf ([("op", Json.quoted s.op)].map Prod.snd) = 0 :=
    (Nat.max_zero _).trans (Json.nesting_quoted s.op)
  have htargets : (s.targets.map fun ns => Json.writtenList (ns.map Json.quoted)).elim 0 Json.nesting =
      s.targets.elim 0 fun _ => 1 := by
    cases s.targets with
    | none => rfl
    | some ns => exact nesting_names ns
  have hsteps : (s.steps.map fun ss => Json.writtenList (ss.map written)).elim 0 Json.nesting =
      s.steps.elim 0 fun ss => Json.deepestOf (ss.map written) + 1 := by
    cases s.steps with
    | none => rfl
    | some ss => exact Json.nesting_writtenList (List.forall_mem_map.mpr fun u _ => (reads_written u 0).isValue)
  have hvalues := (assembles_drafted (s := s) _ _ (fun ns _ => reads_names 0 ns)
    (fun ss _ => reads_writtenList (fun u _ => reads_written u) 0)).values
  rw [written_eq, writtenWith, Json.nesting_writtenObject hvalues]
  simp only [List.map_append, Json.deepestOf_append, deepestOf_writtenField, hstring, hop, htargets, hsteps,
    Nat.max_zero, Nat.zero_max]

theorem nesting_written_repeat (op op' : String) (n : Nat) :
    Json.nesting (Nat.repeat (fun s => { op, steps := some [s] }) n (ofOp op')).written = 2 * n + 1 := by
  induction n with
  | zero => exact nesting_written (ofOp op')
  | succ n ih =>
    rw [Nat.repeat, nesting_written]
    simp only [Option.elim_none, Option.elim_some, List.map_cons, List.map_nil, Json.deepestOf, List.foldr_cons,
      List.foldr_nil, ih]
    omega

end Nesting

end Reversible.Step
