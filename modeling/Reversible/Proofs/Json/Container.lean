import Reversible.Proofs.Json.Nesting

namespace Reversible.Json

variable {α β : Type} {room m n : Nat} {text rest : List Char} {a : α} {b : β}

def Gives (room : Nat) (reader : Reader α) (text : List Char) (n : Nat) (a : α) (rest : List Char) : Prop :=
  reader text = if n ≤ room then .ok (a, rest) else .error .malformed

theorem gives_of_read {reader : Reader α} (h : reader text = .ok (a, rest)) : Gives room reader text 0 a rest := by
  rw [Gives, h, if_pos (Nat.zero_le room)]

theorem gives_pure (a : α) (rest : List Char) : Gives room (pure a) rest 0 a rest :=
  gives_of_read rfl

theorem Gives.bind {reader : Reader α} {next : α → Reader β} {t : List Char} (h : Gives room reader text m a t)
    (hnext : Gives room (next a) t n b rest) : Gives room (reader >>= next) text (max m n) b rest := by
  unfold Gives at h hnext ⊢
  by_cases hm : m ≤ room
  · rw [if_pos hm] at h
    rw [bind_of_read h, hnext]
    by_cases hn : n ≤ room
    · rw [if_pos hn, if_pos (Nat.max_le.mpr ⟨hm, hn⟩)]
    · rw [if_neg hn, if_neg (fun hle => hn (Nat.max_le.mp hle).2)]
  · rw [if_neg hm] at h
    rw [bind_of_problem h, if_neg (fun hle => hm (Nat.max_le.mp hle).1)]

theorem Gives.bind_of_read {reader : Reader α} {next : α → Reader β} {t : List Char}
    (h : reader text = .ok (a, t)) (hnext : Gives room (next a) t n b rest) :
    Gives room (reader >>= next) text n b rest := by
  have hbind := (gives_of_read h).bind hnext
  rwa [Nat.zero_max] at hbind

theorem Gives.bind_pure {reader : Reader α} (h : Gives room reader text n a rest) (f : α → β) :
    Gives room (do return f (← reader)) text n (f a) rest := by
  have hbind : Gives room (do return f (← reader)) text (max n 0) (f a) rest := h.bind (gives_pure (f a) rest)
  rwa [Nat.max_zero] at hbind

theorem Gives.bind_finish {reader : Reader β} {finish : β → Except Problem α} (h : Gives room reader text n b rest)
    (hfinish : finish b = .ok a) : Gives room (do liftM (finish (← reader))) text n a rest := by
  have hend : Gives room (liftM (finish b)) rest 0 a rest := by
    apply gives_of_read
    rw [hfinish]
    rfl
  have hbind : Gives room (do liftM (finish (← reader))) text (max n 0) a rest := h.bind hend
  rwa [Nat.max_zero] at hbind

theorem gives_of_bracket {reader inner : Reader α} {text' : List Char} (h : Gives (room - 1) inner text n a rest)
    (hopen : reader text' = if room = 0 then .error .malformed else inner text) :
    Gives room reader text' (n + 1) a rest := by
  unfold Gives at h ⊢
  rw [hopen, h]
  by_cases hroom : room = 0
  · rw [if_pos hroom, if_neg (by omega)]
  · have hle : n ≤ room - 1 ↔ n + 1 ≤ room := by omega
    rw [if_neg hroom]
    simp only [hle]

/-- A text that stands for a value: it closes what it opens, and nothing that may stand in its place begins as it does. -/
structure IsValue (text : List Char) : Prop where
  opens : ∃ c cs, text = c :: cs ∧ isBlank c = false ∧ c ≠ ']' ∧ c ≠ 'n'
  nests : Nests text (nesting text)

theorem Nests.isValue (h : Nests text n) (hopens : ∃ c cs, text = c :: cs ∧ isBlank c = false ∧ c ≠ ']' ∧ c ≠ 'n') :
    IsValue text := by
  rw [← h.nesting_eq] at h
  exact ⟨hopens, h⟩

section Brackets

variable {texts : List (List Char)} {members : List (String × List Char)}

theorem nesting_writtenList (h : ∀ t ∈ texts, IsValue t) : nesting (writtenList texts) = deepestOf texts + 1 :=
  (nests_writtenList fun t ht => (h t ht).nests).nesting_eq

theorem isValue_writtenList (h : ∀ t ∈ texts, IsValue t) : IsValue (writtenList texts) :=
  (nests_writtenList fun t ht => (h t ht).nests).isValue ⟨'[', _, rfl, by decide⟩

theorem nesting_writtenObject (h : ∀ m ∈ members, IsValue m.2) :
    nesting (writtenObject members) = deepestOf (members.map Prod.snd) + 1 :=
  (nests_writtenObject fun m hm => (h m hm).nests).nesting_eq

theorem isValue_writtenObject (h : ∀ m ∈ members, IsValue m.2) : IsValue (writtenObject members) :=
  (nests_writtenObject fun m hm => (h m hm).nests).isValue ⟨'{', _, rfl, by decide⟩

end Brackets

structure Reads (room : Nat) (reader : Reader α) (text : List Char) (a : α) : Prop where
  isValue : IsValue text
  gives : ∀ rest, Follows rest → Gives room reader (text ++ rest) (nesting text) a rest

section Single

variable {reader : Reader α}

theorem reads_of_flat (hvalue : IsValue text) (hflat : nesting text = 0)
    (h : ∀ rest, Follows rest → reader (text ++ rest) = .ok (a, rest)) : Reads room reader text a where
  isValue := hvalue
  gives := by
    intro rest hrest
    rw [hflat]
    exact gives_of_read (h rest hrest)

theorem quoted_append (s : String) (rest : List Char) :
    quoted s ++ rest = '"' :: (s.toList.flatMap escaped ++ '"' :: rest) := by
  rw [quoted, List.cons_append, List.cons_append, List.append_assoc, List.singleton_append]

theorem nesting_quoted (s : String) : nesting (quoted s) = 0 :=
  (nests_quoted s).nesting_eq

theorem isValue_quoted (s : String) : IsValue (quoted s) :=
  (nests_quoted s).isValue ⟨'"', _, rfl, by decide⟩

theorem reads_string (s : String) : Reads room string (quoted s) s := by
  apply reads_of_flat (isValue_quoted s) (nesting_quoted s)
  intro rest _
  rw [quoted_append]
  exact stringBody_escaped s rest

theorem Reads.bind_pure (h : Reads room reader text a) (f : α → β) :
    Reads room (do return f (← reader)) text (f a) where
  isValue := h.isValue
  gives := by
    intro rest hrest
    exact (h.gives rest hrest).bind_pure f

theorem Reads.optional (h : Reads room reader text a) : Reads room (Json.optional reader) text (some a) where
  isValue := h.isValue
  gives := by
    obtain ⟨c, cs, rfl, hblank, -, hnull⟩ := h.isValue.opens
    intro rest hrest
    have hoptional : Json.optional reader (c :: cs ++ rest) =
        (some <$> reader : Reader (Option α)) (c :: cs ++ rest) := by
      unfold Json.optional
      rw [List.cons_append, skipBlanks_of_not_blank hblank]
      split
      · next heq =>
        cases heq
        contradiction
      · rfl
    rw [Gives, hoptional]
    exact (h.bind_pure some).gives rest hrest

theorem reads_without_room {c : Char} {cs : List Char} (hc : c = '[' ∨ c = '{') (hvalue : IsValue (c :: cs))
    (h : ∀ cs, reader (c :: cs) = .error .malformed) : Reads 0 reader (c :: cs) a where
  isValue := hvalue
  gives := by
    intro rest _
    have hnesting : 1 ≤ nesting (c :: cs) := by
      obtain rfl | rfl := hc <;> exact Nat.le_trans (le_deepest _ 1 cs) (Nat.le_max_right _ _)
    rw [Gives, if_neg (by omega)]
    exact h _

theorem Reads.parse (h : Reads maxDepth reader text a) :
    Json.parse reader (String.ofList text) = if nesting text ≤ maxDepth then .ok a else .error .malformed := by
  have hread := h.gives [] follows_nil
  rw [List.append_nil, Gives] at hread
  rw [Json.parse, String.toList_ofList, hread]
  split_ifs <;> rfl

end Single

section Following

def following (first : Bool) (texts : List (List Char)) : List Char :=
  if first then joined texts else texts.flatMap (',' :: ·)

variable {close : Char} {first : Bool} {texts : List (List Char)}

theorem another_following_nil (hblank : isBlank close = false) :
    another close first (following first [] ++ close :: rest) = .ok (false, rest) := by
  cases first <;> exact another_close rest hblank _

theorem another_following_cons (hcomma : ',' ≠ close)
    (h : ∃ c cs, text = c :: cs ∧ isBlank c = false ∧ c ≠ close) :
    another close first (following first (text :: texts) ++ close :: rest) =
      .ok (true, text ++ (following false texts ++ close :: rest)) := by
  obtain ⟨c, cs, rfl, hblank, hclose⟩ := h
  cases first with
  | true =>
    have htext : following true ((c :: cs) :: texts) = c :: cs ++ following false texts := joined_cons _ texts
    rw [htext, List.append_assoc]
    exact another_first _ hblank hclose
  | false =>
    have htext : following false ((c :: cs) :: texts) = ',' :: c :: cs ++ following false texts := List.flatMap_cons
    rw [htext, List.append_assoc]
    exact another_comma _ hcomma hblank hclose

theorem follows_following (hclose : close ∈ [',', ']', '}']) (texts : List (List Char)) (rest : List Char) :
    Follows (following false texts ++ close :: rest) := by
  cases texts with
  | nil => exact follows_cons hclose rest
  | cons t texts => exact follows_cons List.mem_cons_self _

theorem length_lt_joined (texts : List (List Char)) (close : Char) (rest : List Char) :
    texts.length < (joined texts ++ close :: rest).length + 1 := by
  have htail : ∀ texts : List (List Char), texts.length ≤ (texts.flatMap (',' :: ·)).length := by
    intro texts
    induction texts with
    | nil => exact Nat.le_refl 0
    | cons t texts ih =>
      simp only [List.flatMap_cons, List.length_append, List.length_cons]
      omega
  cases texts with
  | nil => exact Nat.succ_pos _
  | cons t texts =>
    have hle := htail texts
    simp only [joined_cons, List.length_append, List.length_cons]
    omega

end Following

section List

variable {item : Reader α} {write : α → List Char} {as : List α}

theorem gives_items (h : ∀ a ∈ as, Reads room item (write a) a) {fuel : Nat} (hfuel : as.length < fuel) (first : Bool)
    (rest : List Char) :
    Gives room (items item fuel first) (following first (as.map write) ++ ']' :: rest) (deepestOf (as.map write)) as
      rest := by
  induction as generalizing fuel first with
  | nil =>
    obtain ⟨fuel, rfl⟩ := Nat.exists_eq_add_of_lt hfuel
    exact .bind_of_read (another_following_nil rfl) (gives_pure [] rest)
  | cons a as ih =>
    obtain ⟨fuel, rfl⟩ := Nat.exists_eq_add_of_lt hfuel
    obtain ⟨ha, has⟩ := List.forall_mem_cons.mp h
    obtain ⟨c, cs, hcs, hblank, hclose, -⟩ := ha.isValue.opens
    have hfuel : as.length < as.length + 1 + fuel := by omega
    have htail := ih has hfuel false
    apply Gives.bind_of_read (another_following_cons (by decide) ⟨c, cs, hcs, hblank, hclose⟩)
    exact (ha.gives _ (follows_following (by decide) (as.map write) rest)).bind (htail.bind_pure (a :: ·))

theorem reads_list (h : ∀ a ∈ as, Reads (room - 1) item (write a) a) :
    Reads room (list room item) (writtenList (as.map write)) as := by
  have hvalues : ∀ t ∈ as.map write, IsValue t := List.forall_mem_map.mpr fun a ha => (h a ha).isValue
  constructor
  · exact isValue_writtenList hvalues
  · intro rest _
    have hfuel := length_lt_joined (as.map write) ']' rest
    rw [List.length_map] at hfuel
    rw [nesting_writtenList hvalues]
    apply gives_of_bracket (gives_items h hfuel true rest)
    rw [writtenList, List.append_assoc, List.cons_append, List.singleton_append]
    rfl

end List

section Object

inductive Assembles (room : Nat) (member : β → String → Except Problem (Reader β)) :
    β → List (String × List Char) → β → Prop
  | nil (b : β) : Assembles room member b [] b
  | cons {b b' b'' : β} {key : String} {text : List Char} {members : List (String × List Char)} {reader : Reader β}
      (hkey : member b key = .ok reader) (htext : Reads room reader text b')
      (hmembers : Assembles room member b' members b'') : Assembles room member b ((key, text) :: members) b''

variable {member : β → String → Except Problem (Reader β)} {members members' : List (String × List Char)} {b' : β}

theorem Assembles.values (h : Assembles room member b members b') : ∀ m ∈ members, IsValue m.2 := by
  induction h with
  | nil b => simp
  | cons _ htext _ ih => exact List.forall_mem_cons.mpr ⟨htext.isValue, ih⟩

theorem Assembles.append {b'' : β} (h : Assembles room member b members b')
    (h' : Assembles room member b' members' b'') : Assembles room member b (members ++ members') b'' := by
  induction h with
  | nil b => exact h'
  | cons hkey htext _ ih => exact .cons hkey htext (ih h')

theorem gives_members (h : Assembles room member b members b') {fuel : Nat} (hfuel : members.length < fuel)
    (first : Bool) (rest : List Char) :
    Gives room (Json.members member fuel first b)
      (following first (members.map fun m => quoted m.1 ++ ':' :: m.2) ++ '}' :: rest)
      (deepestOf (members.map Prod.snd)) b' rest := by
  induction h generalizing fuel first with
  | nil b =>
    obtain ⟨fuel, rfl⟩ := Nat.exists_eq_add_of_lt hfuel
    exact .bind_of_read (another_following_nil rfl) (gives_pure b rest)
  | @cons b b' b'' key text members reader hkey htext _ ih =>
    obtain ⟨fuel, rfl⟩ := Nat.exists_eq_add_of_lt hfuel
    have hfuel : members.length < members.length + 1 + fuel := by omega
    have htail := ih hfuel false
    have hclose : '}' ∈ [',', ']', '}'] := by decide
    have hread := htext.gives _ (follows_following hclose (members.map fun m => quoted m.1 ++ ':' :: m.2) rest)
    have hopens : ∃ c cs, quoted key ++ ':' :: text = c :: cs ∧ isBlank c = false ∧ c ≠ '}' :=
      ⟨'"', _, quoted_append key _, rfl, by decide⟩
    apply Gives.bind_of_read (another_following_cons (by decide) hopens)
    generalize following false (members.map fun m => quoted m.1 ++ ':' :: m.2) ++ '}' :: rest = more at hread htail ⊢
    rw [if_pos rfl, List.append_assoc, List.cons_append, quoted_append]
    refine Gives.bind_of_read (a := key) (t := ':' :: (text ++ more)) ?_ ?_
    · exact stringBody_escaped key _
    · apply Gives.bind_of_read (a := reader) (t := ':' :: (text ++ more)) (by rw [hkey]; rfl)
      apply Gives.bind_of_read (a := ()) (t := text ++ more) rfl
      exact hread.bind htail

theorem reads_of_members {reader : Reader α} (finish : β → Except Problem α)
    (h : Assembles (room - 1) member b members b') (hfinish : finish b' = .ok a)
    (hopen : ∀ cs, reader ('{' :: cs) = if room = 0 then .error .malformed
      else (do
        let b ← Json.members member (cs.length + 1) true b
        liftM (finish b) : Reader α) cs) :
    Reads room reader (writtenObject members) a := by
  constructor
  · exact isValue_writtenObject h.values
  · intro rest _
    have hfuel := length_lt_joined (members.map fun m => quoted m.1 ++ ':' :: m.2) '}' rest
    rw [List.length_map] at hfuel
    rw [nesting_writtenObject h.values]
    apply gives_of_bracket ((gives_members h hfuel true rest).bind_finish hfinish)
    rw [writtenObject, List.append_assoc, List.cons_append, List.singleton_append]
    exact hopen _

theorem reads_record {fields : List (Field β)} {finish : β → Except Problem α}
    (h : Assembles (room - 1) (Json.member fields) b members b') (hfinish : finish b' = .ok a) :
    Reads room (record room fields b finish) (writtenObject members) a :=
  reads_of_members finish h hfinish fun _ => rfl

theorem reads_object {member : β → String → Reader β}
    (h : Assembles (room - 1) (fun b key => .ok (member b key)) b members b') :
    Reads room (object room member b) (writtenObject members) b' := by
  apply reads_of_members .ok h rfl
  intro cs
  change _ = if room = 0 then .error .malformed
    else (Json.members (fun b key => .ok (member b key)) (cs.length + 1) true b >>= pure) cs
  rw [bind_pure]
  rfl

end Object

end Reversible.Json
