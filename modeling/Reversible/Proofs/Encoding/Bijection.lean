import Mathlib.Algebra.GroupWithZero.Nat
import Reversible.Proofs.Encoding.Interning

/-!
Tables under any sequence of calls. A table numbers the distinct names that it was given, in the order in which they
first came, as far as there are registers. It may as well be kept as pairs of a name and a register, of which a new one
replaces all that share its name or its register: the number of pairs is always a register that is still free, so no pair
is ever lost.
-/

namespace Reversible.SymbolTable

inductive Call where
  | intern (n : Name)
  | encode (i : Instruction)

namespace Call

def names : Call → List Name
  | .intern n => [n]
  | .encode i => i.operands

def perform : Call → SymbolTable → SymbolTable
  | .intern n => leaves (SymbolTable.intern n)
  | .encode i => leaves (Encoding.encode i)

end Call

def performAll (calls : List Call) (t : SymbolTable) : SymbolTable :=
  calls.foldl (fun t call => call.perform t) t

def presented (calls : List Call) : List Name :=
  calls.flatMap Call.names

/-- A table without a counter: the next register is the number of pairs. -/
structure Pairs where
  pairs : List (Name × Nat) := []

namespace Pairs

def register? (m : Pairs) (n : Name) : Option Nat :=
  (m.pairs.find? fun p => p.1 = n).map Prod.snd

def nameAt? (m : Pairs) (r : Nat) : Option Name :=
  (m.pairs.find? fun p => p.2 = r).map Prod.fst

def insert (m : Pairs) (n : Name) (r : Nat) : Pairs :=
  ⟨(m.pairs.filter fun p => p.1 ≠ n ∧ p.2 ≠ r) ++ [(n, r)]⟩

def intern (n : Name) : EStateM Error Pairs Nat := fun m =>
  match m.register? n with
  | some r => .ok r m
  | none =>
    if m.pairs.length < capacity then .ok m.pairs.length (m.insert n m.pairs.length)
    else .error .tooManyVariables m

def internAll : List Name → EStateM Error Pairs Unit
  | [] => pure ()
  | n :: ns => do
    let _ ← intern n
    internAll ns

def performAll (calls : List Call) (m : Pairs) : Pairs :=
  calls.foldl (fun m call => leaves (internAll call.names) m) m

end Pairs

variable {t : SymbolTable} {n : Name}

theorem Call.perform_eq (call : Call) (t : SymbolTable) : call.perform t = leaves (internAll call.names) t := by
  cases call with
  | intern n => exact leaves_bind_pure.symm
  | encode i => rw [perform, names, ← Encoding.encode_bind_pure, leaves_bind_pure]

theorem wellFormed_of_names_take {ns : List Name} (h : t.names = ns.eraseDups.take capacity) : t.WellFormed where
  nodup := by
    rw [h]
    exact (nodup_eraseDups ns).sublist (List.take_sublist _ _)
  size_le := by
    rw [size, h]
    exact List.length_take_le _ _

theorem names_perform (ht : t.WellFormed) (call : Call) :
    (call.perform t).names = (t.names ++ call.names).eraseDups.take capacity := by
  rw [call.perform_eq, names_leaves_internAll ht]

theorem names_performAll (ht : t.WellFormed) (calls : List Call) :
    (performAll calls t).names = (t.names ++ presented calls).eraseDups.take capacity := by
  induction calls generalizing t with
  | nil =>
    have hnil : t.names ++ presented [] = t.names := List.append_nil _
    rw [hnil, eraseDups_of_nodup ht.nodup, List.take_of_length_le ht.size_le]
    rfl
  | cons call calls ih =>
    have hcall := names_perform ht call
    have hpresented : presented (call :: calls) = call.names ++ presented calls := List.flatMap_cons
    have hrest : performAll (call :: calls) t = performAll calls (call.perform t) := rfl
    rw [hrest, ih (wellFormed_of_names_take hcall), hcall, take_eraseDups_append, hpresented, List.append_assoc]

theorem names_prefix_performAll (ht : t.WellFormed) (calls : List Call) :
    t.names <+: (performAll calls t).names := by
  rw [names_performAll ht, eraseDups_append_names ht, List.take_append, List.take_of_length_le ht.size_le]
  exact List.prefix_append _ _

theorem WellFormed.performAll (ht : t.WellFormed) (calls : List Call) : (performAll calls t).WellFormed :=
  wellFormed_of_names_take (names_performAll ht calls)

theorem performAll_names (ht : t.WellFormed) : SymbolTable.performAll (t.names.map .intern) empty = t := by
  have hpresented : presented (t.names.map .intern) = t.names := by
    simp [presented, List.flatMap_map, Call.names]
  have hnames := names_performAll wellFormed_empty (t.names.map .intern)
  have hempty : empty.names ++ t.names = t.names := rfl
  rw [hpresented, hempty, eraseDups_of_nodup ht.nodup, List.take_of_length_le ht.size_le] at hnames
  exact congrArg mk hnames

def toPairs (t : SymbolTable) : Pairs :=
  ⟨t.names.zipIdx⟩

theorem register?_toPairs (t : SymbolTable) (n : Name) : t.toPairs.register? n = t.register? n := by
  rw [register?, List.idxOf?, List.findIdx?_eq_fst_find?_zipIdx]
  rfl

theorem nameAt?_toPairs (t : SymbolTable) (r : Nat) : t.toPairs.nameAt? r = t.nameAt? r := by
  rw [Pairs.nameAt?]
  cases h : t.toPairs.pairs.find? fun p => p.2 = r with
  | none =>
    -- Only a register beyond the last name stands in no pair.
    have hnone : t.nameAt? r = none := by
      apply Option.eq_none_iff_forall_ne_some.mpr
      intro n hn
      have hmem : (n, r) ∈ t.toPairs.pairs := List.mk_mem_zipIdx_iff_getElem?.mpr hn
      exact List.find?_eq_none.mp h _ hmem (decide_eq_true rfl)
    rw [hnone, Option.map_none]
  | some p =>
    obtain ⟨n, q⟩ := p
    have hq : q = r := by simpa using List.find?_some h
    subst hq
    rw [Option.map_some]
    exact (List.mk_mem_zipIdx_iff_getElem?.mp (List.mem_of_find?_eq_some h)).symm

theorem insert_toPairs (h : t.register? n = none) : t.toPairs.insert n t.size = toPairs ⟨t.names ++ [n]⟩ := by
  -- Neither the name nor the number of pairs is in a pair yet, so none is dropped.
  have hkept : t.toPairs.pairs.filter (fun p => p.1 ≠ n ∧ p.2 ≠ t.size) = t.toPairs.pairs := by
    apply List.filter_eq_self.mpr
    rintro ⟨k, r⟩ hmem
    have hr : t.nameAt? r = some k := List.mk_mem_zipIdx_iff_getElem?.mp hmem
    have hk : k ≠ n := by
      rintro rfl
      exact List.idxOf?_eq_none_iff.mp h (List.mem_of_getElem? hr)
    have hlt : r < t.size := (List.getElem?_eq_some_iff.mp hr).1
    exact decide_eq_true ⟨hk, Nat.ne_of_lt hlt⟩
  rw [Pairs.insert, hkept, toPairs, toPairs, List.zipIdx_append, Nat.zero_add]
  rfl

def seenThrough {ε σ τ α : Type} (f : σ → τ) : EStateM.Result ε σ α → EStateM.Result ε τ α
  | .ok a s => .ok a (f s)
  | .error e s => .error e (f s)

theorem intern_toPairs (n : Name) (t : SymbolTable) :
    Pairs.intern n t.toPairs = seenThrough toPairs (intern n t) := by
  have hlength : t.toPairs.pairs.length = t.size := List.length_zipIdx
  rw [Pairs.intern, register?_toPairs, hlength]
  cases h : t.register? n with
  | some r =>
    rw [intern_of_register? h]
    rfl
  | none =>
    by_cases hroom : t.size < capacity
    · rw [intern_of_new h hroom, insert_toPairs h]
      exact if_pos hroom
    · rw [intern_of_full h hroom]
      exact if_neg hroom

theorem internAll_toPairs (ns : List Name) (t : SymbolTable) :
    Pairs.internAll ns t.toPairs = seenThrough toPairs (internAll ns t) := by
  induction ns generalizing t with
  | nil => rfl
  | cons n ns ih =>
    have hn := intern_toPairs n t
    cases h : intern n t with
    | ok r u =>
      rw [h] at hn
      have hrest : internAll (n :: ns) t = internAll ns u := bind_of_ok h
      rw [hrest, ← ih]
      exact bind_of_ok hn
    | error e u =>
      rw [h] at hn
      have hfails : internAll (n :: ns) t = .error e u := bind_of_error h
      rw [hfails]
      exact bind_of_error hn

theorem leaves_internAll_toPairs (ns : List Name) (t : SymbolTable) :
    leaves (Pairs.internAll ns) t.toPairs = (leaves (internAll ns) t).toPairs := by
  rw [leaves, internAll_toPairs, leaves]
  cases internAll ns t with
  | ok a u => rfl
  | error e u => rfl

theorem performAll_toPairs (calls : List Call) (t : SymbolTable) :
    Pairs.performAll calls t.toPairs = (performAll calls t).toPairs := by
  induction calls generalizing t with
  | nil => rfl
  | cons call calls ih =>
    have hcall := leaves_internAll_toPairs call.names t
    rw [← call.perform_eq] at hcall
    have hpairs : Pairs.performAll (call :: calls) t.toPairs = Pairs.performAll calls (call.perform t).toPairs :=
      congrArg (Pairs.performAll calls) hcall
    rw [hpairs, ih]
    rfl

theorem isSome_nameAt? (t : SymbolTable) (r : Nat) : (t.nameAt? r).isSome ↔ r < t.size := by
  simp [nameAt?, size]

theorem intern_eq_error_iff_full (ht : t.WellFormed) {u : SymbolTable} {e : Error} :
    intern n t = .error e u ↔ t.register? n = none ∧ t.size = 2 ^ 24 ∧ u = t := by
  have hsize : ¬t.size < capacity ↔ t.size = 2 ^ 24 := by
    have hle := ht.size_le
    simp only [capacity] at hle ⊢
    omega
  rw [intern_eq_error_iff, hsize]

theorem performAll_dense_bijection (calls : List Call) :
    let t := performAll calls empty
    ((∀ r, (t.nameAt? r).isSome ↔ r < t.size) ∧ t.size ≤ 2 ^ 24) ∧
      (∀ n r, t.register? n = some r ↔ t.nameAt? r = some n) ∧
      (t.names = (presented calls).eraseDups.take (2 ^ 24) ∧
        ∀ m n a b, t.register? m = some a → t.register? n = some b →
          (a < b ↔ (presented calls).idxOf m < (presented calls).idxOf n)) ∧
      (∀ later n r, t.nameAt? r = some n →
        (performAll later t).nameAt? r = some n ∧ (performAll later t).register? n = some r) ∧
      (∀ n e u, intern n t = .error e u ↔ t.register? n = none ∧ t.size = 2 ^ 24 ∧ u = t) ∧
      let m := Pairs.performAll calls {}
      m.pairs = t.names.zipIdx ∧ (∀ n, m.register? n = t.register? n) ∧ (∀ r, m.nameAt? r = t.nameAt? r) ∧
        ∀ n, Pairs.intern n m = seenThrough toPairs (intern n t) := by
  intro t
  have hform : t.WellFormed := wellFormed_empty.performAll calls
  have hnames : t.names = (presented calls).eraseDups.take (2 ^ 24) := names_performAll wellFormed_empty calls
  have hpairs : Pairs.performAll calls {} = t.toPairs := performAll_toPairs calls empty
  refine ⟨⟨isSome_nameAt? t, hform.size_le⟩, fun n r => hform.register?_eq_some_iff, ⟨hnames, ?_⟩, ?_, ?_, ?_⟩
  · intro m n a b hm hn
    have hprefix : t.names <+: (presented calls).eraseDups := hnames ▸ List.take_prefix _ _
    exact register_lt_iff_of_prefix hform hprefix hm hn
  · intro later n r hr
    have hlater := nameAt?_of_prefix (names_prefix_performAll hform later) hr
    exact ⟨hlater, (hform.performAll later).register?_eq_some_iff.mpr hlater⟩
  · intro n e u
    exact intern_eq_error_iff_full hform
  · intro m
    have hm : m = t.toPairs := hpairs
    rw [hm]
    exact ⟨rfl, register?_toPairs t, nameAt?_toPairs t, fun n => intern_toPairs n t⟩

theorem performAll_dense_bijection_repeated :
    let calls : List Call := [.intern "b", .encode (.swap "a" "b"), .intern "a", .encode (.add "c" "a")]
    let later : List Call := [.encode (.negate "d"), .intern "b"]
    let full : List Call := (Encoding.numbered capacity).names.map .intern
    let t := performAll calls empty
    (t = ⟨["b", "a", "c"]⟩ ∧ performAll later t = ⟨["b", "a", "c", "d"]⟩) ∧
      (t.nameAt? 1 = some "a" ∧ (performAll later t).nameAt? 1 = some "a" ∧
        (performAll later t).register? "a" = some 1) ∧
      (t.register? "b" = some 0 ∧ t.register? "c" = some 2 ∧
        (presented calls).idxOf "b" < (presented calls).idxOf "c") ∧
      (Pairs.performAll calls {}).pairs = [("b", 0), ("a", 1), ("c", 2)] ∧
      intern "x" (performAll full empty) = .error .tooManyVariables (performAll full empty) := by
  intro calls later full t
  have ht : t = ⟨["b", "a", "c"]⟩ := by cbv
  have hlater : performAll later t = ⟨["b", "a", "c", "d"]⟩ := by cbv
  have ha : t.nameAt? 1 = some "a" := by rw [ht]; rfl
  have hb : t.register? "b" = some 0 := by rw [ht]; cbv
  have hc : t.register? "c" = some 2 := by rw [ht]; cbv
  obtain ⟨-, -, ⟨-, horder⟩, hstable, -, hpairs, -⟩ := performAll_dense_bijection calls
  obtain ⟨-, -, -, -, hfull, -⟩ := performAll_dense_bijection full
  have hnumbered : performAll full empty = Encoding.numbered capacity :=
    performAll_names (Encoding.reachable_numbered (Nat.le_refl capacity)).wellFormed
  have hpairs' : (Pairs.performAll calls {}).pairs = t.names.zipIdx := hpairs
  refine ⟨⟨ht, hlater⟩, ⟨ha, hstable later "a" 1 ha⟩, ⟨hb, hc, (horder "b" "c" 0 2 hb hc).mp (by decide)⟩, ?_, ?_⟩
  · rw [hpairs', ht]
    rfl
  · apply (hfull "x" .tooManyVariables _).mpr
    refine ⟨?_, ?_, rfl⟩
    · rw [hnumbered]
      exact Encoding.register?_numbered_letter capacity (by decide)
    · rw [hnumbered, Encoding.size_numbered]
      rfl

end Reversible.SymbolTable
