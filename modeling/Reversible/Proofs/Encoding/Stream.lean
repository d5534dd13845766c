import Reversible.Proofs.Encoding.Image

/-!
Streams of words put together. The first word of an instruction tells how many words it takes, so what follows a program
that can be decoded is decoded as if it stood alone. If an instruction cannot be decoded, neither can any stream that
begins in the same way, unless all that is wrong is that its second word is missing.
-/

namespace Reversible.Encoding

/-- The error, in a stream with `n` words more before it. Only a truncation tells where it is. -/
def DecodeError.later (n : Nat) : DecodeError → DecodeError
  | truncated index => truncated (n + index)
  | e => e

inductive Chunk : List UInt32 → UInt64 → Prop
  | single {low : UInt32} (h : ¬isDoubleWord low = true) : Chunk [low] (doubleWord low 0)
  | double {low : UInt32} (h : isDoubleWord low = true) (high : UInt32) : Chunk [low, high] (doubleWord low high)

inductive StopsAt (t : SymbolTable) (index : Nat) : List UInt32 → DecodeError → Prop
  | truncated {low : UInt32} (h : isDoubleWord low = true) : StopsAt t index [low] (.truncated index)
  | rejected {words : List UInt32} {value : UInt64} {e : DecodeError} (h : Chunk words value)
      (he : decode t value = .error e) (rest : List UInt32) : StopsAt t index (words ++ rest) e

/-- A stream is a sequence of chunks, after which there may be a word that lacks its second. -/
@[elab_as_elim]
theorem chunk_induction {motive : List UInt32 → Prop} (nil : motive [])
    (cut : ∀ low, isDoubleWord low = true → motive [low])
    (chunk : ∀ words value rest, Chunk words value → motive rest → motive (words ++ rest)) :
    ∀ words, motive words
  | [] => nil
  | low :: rest => by
    by_cases hlow : isDoubleWord low = true
    · cases rest with
      | nil => exact cut low hlow
      | cons high rest => exact chunk _ _ rest (.double hlow high) (chunk_induction nil cut chunk rest)
    · exact chunk _ _ rest (.single hlow) (chunk_induction nil cut chunk rest)

variable {t : SymbolTable} {words rest : List UInt32} {value : UInt64} {p : Program} {e : DecodeError}

theorem Chunk.decodeFrom_eq (h : Chunk words value) (index : Nat) (rest : List UInt32) :
    decodeFrom t index (words ++ rest) =
      do return (← decode t value) :: (← decodeFrom t (index + words.length) rest) := by
  cases h with
  | single hlow => exact decodeFrom_word hlow index rest
  | double hlow high => exact decodeFrom_doubleWord hlow index high rest

theorem Chunk.decodeFrom_of_ok {i : Instruction} (h : Chunk words value) (hi : decode t value = .ok i) (index : Nat)
    (rest : List UInt32) :
    decodeFrom t index (words ++ rest) = (decodeFrom t (index + words.length) rest).map (i :: ·) := by
  rw [h.decodeFrom_eq, hi]
  rfl

theorem Chunk.decodeFrom_of_error (h : Chunk words value) (he : decode t value = .error e) (index : Nat)
    (rest : List UInt32) : decodeFrom t index (words ++ rest) = .error e := by
  rw [h.decodeFrom_eq, he]
  rfl

theorem Chunk.decodeFrom_eq_error_iff {index : Nat} (h : Chunk words value) :
    decodeFrom t index (words ++ rest) = .error e ↔
      decode t value = .error e ∨
        ∃ i, decode t value = .ok i ∧ decodeFrom t (index + words.length) rest = .error e := by
  cases hi : decode t value with
  | error e' => simp [h.decodeFrom_of_error hi]
  | ok i => simp [h.decodeFrom_of_ok hi, except_map_eq_error_iff]

theorem decodeFrom_cut {low : UInt32} (h : isDoubleWord low = true) (index : Nat) :
    decodeFrom t index [low] = .error (.truncated index) := by
  rw [decodeFrom, if_pos h]

theorem StopsAt.decodeFrom_eq {index : Nat} (h : StopsAt t index words e) : decodeFrom t index words = .error e := by
  cases h with
  | truncated hlow => exact decodeFrom_cut hlow index
  | rejected hchunk he rest => exact hchunk.decodeFrom_of_error he index rest

theorem decodeFrom_append {index : Nat} (h : decodeFrom t index words = .ok p) (rest : List UInt32) :
    decodeFrom t index (words ++ rest) = (decodeFrom t (index + words.length) rest).map (p ++ ·) := by
  induction words using chunk_induction generalizing index p with
  | nil =>
    obtain rfl := Except.ok.inj h
    change decodeFrom t index rest = (decodeFrom t index rest).map id
    rw [Except.map_id]
    rfl
  | cut low hlow =>
    rw [decodeFrom_cut hlow] at h
    cases h
  | chunk words value later hchunk ih =>
    rw [hchunk.decodeFrom_eq] at h
    obtain ⟨i, q, hi, hq, rfl⟩ := cons_eq_ok_iff.mp h
    rw [List.append_assoc, hchunk.decodeFrom_of_ok hi, ih hq, List.length_append, Nat.add_assoc]
    cases decodeFrom t (index + (words.length + later.length)) rest with
    | error e => rfl
    | ok r => rfl

theorem decodeFrom_eq_error_iff {index : Nat} :
    decodeFrom t index words = .error e ↔
      ∃ read p rest, words = read ++ rest ∧ decodeFrom t index read = .ok p ∧ StopsAt t (index + read.length) rest e := by
  constructor
  · intro h
    induction words using chunk_induction generalizing index with
    | nil => cases h
    | cut low hlow =>
      rw [decodeFrom_cut hlow] at h
      cases h
      exact ⟨[], [], [low], rfl, rfl, .truncated hlow⟩
    | chunk words value later hchunk ih =>
      obtain hrejected | ⟨i, hi, hlater⟩ := hchunk.decodeFrom_eq_error_iff.mp h
      · exact ⟨[], [], words ++ later, rfl, rfl, .rejected hchunk hrejected later⟩
      · obtain ⟨read, p, rest, rfl, hread, hstops⟩ := ih hlater
        refine ⟨words ++ read, i :: p, rest, (List.append_assoc ..).symm, ?_, ?_⟩
        · rw [hchunk.decodeFrom_of_ok hi, hread]
          rfl
        · rw [List.length_append, ← Nat.add_assoc]
          exact hstops
  · rintro ⟨read, p, rest, rfl, hread, hstops⟩
    rw [decodeFrom_append hread, hstops.decodeFrom_eq]
    rfl

def Placeless {α : Type} (x : Except DecodeError α) : Prop :=
  ∀ index, x ≠ .error (.truncated index)

theorem placeless_bind {α β : Type} {x : Except DecodeError α} {f : α → Except DecodeError β} (hx : Placeless x)
    (hf : ∀ a, Placeless (f a)) : Placeless (x >>= f) := by
  cases x with
  | error e =>
    intro index h
    cases h
    exact hx index rfl
  | ok a => exact hf a

theorem placeless_ok {α : Type} (a : α) : Placeless (.ok a) := by
  intro index h
  cases h

theorem placeless_variableAt (t : SymbolTable) (value : UInt64) (unit : Nat) : Placeless (variableAt t value unit) := by
  intro index h
  simp only [variableAt] at h
  split at h <;> cases h

theorem placeless_readTwo (t : SymbolTable) (value : UInt64) (make : Name → Name → Instruction) :
    Placeless (do return make (← variableAt t value 0x100) (← variableAt t value 0x100000000)) :=
  placeless_bind (placeless_variableAt t value 0x100) fun _ =>
    placeless_bind (placeless_variableAt t value 0x100000000) fun _ => placeless_ok _

theorem placeless_decode (t : SymbolTable) (value : UInt64) : Placeless (decode t value) := by
  intro index h
  unfold decode at h
  split at h
  · cases h
  · next op hop =>
    by_cases hreserved : reservedBits op value = 0
    · rw [if_neg (fun hne => hne hreserved)] at h
      cases op with
      | add | sub | swap => exact placeless_readTwo t value _ index h
      | negate => exact placeless_bind (placeless_variableAt t value 0x100) (fun _ => placeless_ok _) index h
      | noop => cases h
    · rw [if_pos hreserved] at h
      cases h

theorem DecodeError.later_of_decode (h : decode t value = .error e) (n : Nat) : e.later n = e := by
  cases e with
  | truncated index => exact absurd h (placeless_decode t value index)
  | _ => rfl

theorem decodeFrom_later (n index : Nat) (words : List UInt32) :
    decodeFrom t (n + index) words = (decodeFrom t index words).mapError (DecodeError.later n) := by
  induction words using chunk_induction generalizing index with
  | nil => rfl
  | cut low hlow =>
    rw [decodeFrom_cut hlow, decodeFrom_cut hlow]
    rfl
  | chunk words value rest hchunk ih =>
    cases hi : decode t value with
    | error e =>
      rw [hchunk.decodeFrom_of_error hi, hchunk.decodeFrom_of_error hi]
      change _ = Except.error (e.later n)
      rw [DecodeError.later_of_decode hi]
    | ok i =>
      rw [hchunk.decodeFrom_of_ok hi, hchunk.decodeFrom_of_ok hi, Nat.add_assoc, ih]
      cases decodeFrom t (index + words.length) rest with
      | error e => rfl
      | ok p => rfl

theorem decodeProgram_append (h : decodeProgram words t = .ok p) (rest : List UInt32) :
    decodeProgram (words ++ rest) t =
      ((decodeProgram rest t).mapError (DecodeError.later words.length)).map (p ++ ·) := by
  rw [decodeProgram, decodeFrom_append h, Nat.zero_add, decodeProgram, ← decodeFrom_later, Nat.add_zero]

theorem decodeProgram_eq_error_iff :
    decodeProgram words t = .error e ↔
      ∃ read p rest, words = read ++ rest ∧ decodeProgram read t = .ok p ∧ StopsAt t read.length rest e := by
  simp only [decodeProgram, decodeFrom_eq_error_iff, Nat.zero_add]

theorem decodeProgram_append_of_error (h : decodeProgram words t = .error e) (he : ∀ index, e ≠ .truncated index)
    (rest : List UInt32) : decodeProgram (words ++ rest) t = .error e := by
  obtain ⟨read, p, later, rfl, hread, hstops⟩ := decodeProgram_eq_error_iff.mp h
  cases hstops with
  | truncated hlow => exact absurd rfl (he _)
  | rejected hchunk herror later =>
    -- The words of the rejected instruction are all there, so what is appended comes after them.
    refine decodeProgram_eq_error_iff.mpr ⟨read, p, _, ?_, hread, .rejected hchunk herror (later ++ rest)⟩
    rw [List.append_assoc, List.append_assoc]

theorem length_of_truncated {index : Nat} (h : decodeProgram words t = .error (.truncated index)) :
    words.length = index + 1 := by
  obtain ⟨read, p, rest, rfl, hread, hstops⟩ := decodeProgram_eq_error_iff.mp h
  cases hstops with
  | truncated hlow => rw [List.length_append, List.length_singleton]
  | rejected hchunk herror rest => exact absurd herror (placeless_decode t _ _)

/-- The last part tells just when decoding fails: the words before are a program, and no instruction can be decoded from
those that follow. -/
theorem decodeProgram_self_delimiting (t : SymbolTable) :
    (∀ words rest p, decodeProgram words t = .ok p →
      (∀ q, decodeProgram rest t = .ok q → decodeProgram (words ++ rest) t = .ok (p ++ q)) ∧
        ∀ e, decodeProgram rest t = .error e → decodeProgram (words ++ rest) t = .error (e.later words.length)) ∧
      (∀ words rest e, decodeProgram words t = .error e → (∀ index, e ≠ .truncated index) →
        decodeProgram (words ++ rest) t = .error e) ∧
      (∀ words index, decodeProgram words t = .error (.truncated index) → words.length = index + 1) ∧
      ∀ words e, decodeProgram words t = .error e ↔
        ∃ read p rest, words = read ++ rest ∧ decodeProgram read t = .ok p ∧ StopsAt t read.length rest e := by
  refine ⟨?_, ?_, ?_, ?_⟩
  · intro words rest p h
    rw [decodeProgram_append h]
    constructor
    · intro q hq
      rw [hq]
      rfl
    · intro e he
      rw [he]
      rfl
  · intro words rest e h he
    exact decodeProgram_append_of_error h he rest
  · intro words index h
    exact length_of_truncated h
  · intro words e
    exact decodeProgram_eq_error_iff

theorem decodeProgram_self_delimiting_mixed :
    let t : SymbolTable := ⟨["b", "a"]⟩
    let words : List UInt32 := [0x102, 0, 4]
    let cut : List UInt32 := [3, 0x100]
    let bad : List UInt32 := [4, 0x204, 0x100]
    (decodeProgram words t = .ok [.swap "a" "b", .noop] ∧ decodeProgram (words ++ words) t =
        .ok [.swap "a" "b", .noop, .swap "a" "b", .noop]) ∧
      (decodeProgram cut t = .error (.truncated 1) ∧ cut.length = 1 + 1 ∧
        decodeProgram (words ++ cut) t = .error (.truncated 4)) ∧
      decodeProgram (cut ++ words) t = .error (.unassignedRegister 0x102) ∧
      decodeProgram bad t = .error (.reservedBits .noop 0x204) ∧
      decodeProgram (bad ++ words) t = .error (.reservedBits .noop 0x204) ∧
      decodeProgram (words ++ bad) t = .error (.reservedBits .noop 0x204) := by
  intro t words cut bad
  obtain ⟨happend, herror, hlast, -⟩ := decodeProgram_self_delimiting t
  have hwords : decodeProgram words t = .ok [.swap "a" "b", .noop] := by rfl
  have hcut : decodeProgram cut t = .error (.truncated 1) := by rfl
  have hbad : decodeProgram bad t = .error (.reservedBits .noop 0x204) := by rfl
  refine ⟨⟨hwords, (happend _ _ _ hwords).1 _ hwords⟩, ⟨hcut, hlast _ _ hcut, (happend _ _ _ hwords).2 _ hcut⟩, ?_, hbad,
    herror _ _ _ hbad ?_, (happend _ _ _ hwords).2 _ hbad⟩
  · rfl
  · intro index h
    cases h

end Reversible.Encoding
