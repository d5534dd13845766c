import Reversible.Proofs.Encoding.Word

namespace Reversible.Encoding

variable {t : SymbolTable}

inductive Spells (t : SymbolTable) : Program → List UInt32 → Prop
  | nil : Spells t [] []
  | cons {i : Instruction} {number : Nat} {p : Program} {words : List UInt32} (hi : Represents t i number)
      (hp : Spells t p words) : Spells t (i :: p) ((encoded i.opcode number).words ++ words)

theorem cons_eq_ok_iff {x : Except DecodeError Instruction} {y : Except DecodeError Program} {p : Program} :
    (do return (← x) :: (← y)) = Except.ok p ↔ ∃ i q, x = .ok i ∧ y = .ok q ∧ i :: q = p := by
  simp only [except_bind_eq_ok_iff]
  constructor
  · rintro ⟨i, hx, q, hy, h⟩
    exact ⟨i, q, hx, hy, Except.ok.inj h⟩
  · rintro ⟨i, q, hx, hy, rfl⟩
    exact ⟨i, hx, q, hy, rfl⟩

theorem decodeFrom_doubleWord {low : UInt32} (h : isDoubleWord low = true) (index : Nat) (high : UInt32)
    (rest : List UInt32) :
    decodeFrom t index (low :: high :: rest) =
      do return (← decode t (doubleWord low high)) :: (← decodeFrom t (index + 2) rest) := by
  rw [decodeFrom, if_pos h]

theorem decodeFrom_word {low : UInt32} (h : ¬isDoubleWord low = true) (index : Nat) (rest : List UInt32) :
    decodeFrom t index (low :: rest) =
      do return (← decode t (doubleWord low 0)) :: (← decodeFrom t (index + 1) rest) := by
  rw [decodeFrom.eq_def]
  exact if_neg h

theorem spells_of_decodeFrom {index : Nat} {words : List UInt32} {p : Program}
    (h : decodeFrom t index words = .ok p) : Spells t p words := by
  fun_induction decodeFrom t index words generalizing p with
  | case1 index =>
    obtain rfl := Except.ok.inj h
    exact .nil
  | case2 index low hlow => contradiction
  | case3 index low hlow high rest ih =>
    obtain ⟨i, q, hi, hq, rfl⟩ := cons_eq_ok_iff.mp h
    have hrep := represents_of_decode hi
    have hspells := Spells.cons hrep (ih hq)
    rwa [words_encoded_doubleWord (hrep.isDoubleWord_iff.mp hlow)] at hspells
  | case4 index low rest hlow ih =>
    obtain ⟨i, q, hi, hq, rfl⟩ := cons_eq_ok_iff.mp h
    have hrep := represents_of_decode hi
    have harity := mt hrep.isDoubleWord_iff.mpr hlow
    have hspells := Spells.cons hrep (ih hq)
    rwa [words_encoded_word harity] at hspells

theorem Spells.decodeFrom {words : List UInt32} {p : Program} (ht : t.WellFormed) (h : Spells t p words)
    (index : Nat) : Encoding.decodeFrom t index words = .ok p := by
  induction h generalizing index with
  | nil => rfl
  | @cons i number p words hi hp ih =>
    by_cases harity : i.opcode.arity = 2
    · have hlt : number < 0x10000000000000000 := Nat.lt_trans (hi.lt ht) (by decide)
      obtain ⟨low, high, rfl⟩ := exists_doubleWord hlt
      have hlow := hi.isDoubleWord_iff.mpr harity
      rw [words_encoded_doubleWord harity, List.cons_append, List.singleton_append, decodeFrom_doubleWord hlow,
        cons_eq_ok_iff]
      exact ⟨i, p, hi.decode ht, ih (index + 2), rfl⟩
    · obtain ⟨low, rfl⟩ := exists_word (hi.lt_of_arity ht harity)
      have hlow := mt hi.isDoubleWord_iff.mp harity
      rw [words_encoded_word harity, List.singleton_append, decodeFrom_word hlow, cons_eq_ok_iff]
      exact ⟨i, p, hi.decode ht, ih (index + 1), rfl⟩

theorem Spells.encodeAll {words : List UInt32} {p : Program} (ht : t.WellFormed) (h : Spells t p words) :
    t.Covers p.operands ∧ Encoding.encodeAll p t = .ok words t := by
  induction h with
  | nil => exact ⟨t.covers_nil, rfl⟩
  | @cons i number p words hi hp ih =>
    obtain ⟨hcovers, hwords⟩ := ih
    refine ⟨SymbolTable.covers_append_iff.mpr ⟨hi.covers ht, hcovers⟩, ?_⟩
    exact (bind_of_ok (hi.encode ht)).trans (bind_of_ok hwords)

theorem exists_spells {p : Program} (h : t.Covers p.operands) : ∃ words, Spells t p words := by
  induction p with
  | nil => exact ⟨[], .nil⟩
  | cons i p ih =>
    obtain ⟨hi, hp⟩ := SymbolTable.covers_append_iff.mp h
    obtain ⟨number, hnumber⟩ := exists_represents hi
    obtain ⟨words, hwords⟩ := ih hp
    exact ⟨_, .cons hnumber hwords⟩

theorem spells_iff {words : List UInt32} {p : Program} (ht : t.WellFormed) :
    Spells t p words ↔ t.Covers p.operands ∧ Encoding.encodeAll p t = .ok words t := by
  refine ⟨Spells.encodeAll ht, fun ⟨hcovers, hwords⟩ => ?_⟩
  obtain ⟨words', hspells⟩ := exists_spells hcovers
  have heq := (hspells.encodeAll ht).2.symm.trans hwords
  cases heq
  exact hspells

theorem decodeProgram_eq_ok_iff {words : List UInt32} {p : Program} (ht : t.WellFormed) :
    decodeProgram words t = .ok p ↔ Spells t p words :=
  ⟨spells_of_decodeFrom, fun h => h.decodeFrom ht 0⟩

theorem decodeProgram_accepts_encoded (t : SymbolTable) (ht : t.Reachable) :
    (∀ words p, decodeProgram words t = .ok p ↔ t.Covers (Program.operands p) ∧ encodeAll p t = .ok words t) ∧
      (∀ i, t.Covers (Instruction.operands i) → ∃ e, encode i t = .ok e t) ∧
      (∀ p, t.Covers (Program.operands p) → ∃ words, encodeAll p t = .ok words t ∧ decodeProgram words t = .ok p) ∧
      (∀ words words' p, decodeProgram words t = .ok p → decodeProgram words' t = .ok p → words = words') := by
  have hform := ht.wellFormed
  have hiff : ∀ words p, decodeProgram words t = .ok p ↔
      t.Covers (Program.operands p) ∧ encodeAll p t = .ok words t := fun words p =>
    (decodeProgram_eq_ok_iff hform).trans (spells_iff hform)
  refine ⟨hiff, ?_, ?_, ?_⟩
  · intro i hi
    obtain ⟨number, hnumber⟩ := exists_represents hi
    exact ⟨_, hnumber.encode hform⟩
  · intro p hp
    obtain ⟨words, hspells⟩ := exists_spells hp
    exact ⟨words, (hspells.encodeAll hform).2, hspells.decodeFrom hform 0⟩
  · intro words words' p h h'
    have heq := ((hiff words p).mp h).2.symm.trans ((hiff words' p).mp h').2
    cases heq
    rfl

theorem decodeProgram_accepts_encoded_pair :
    let t : SymbolTable := ⟨["b", "a"]⟩
    let p : Program := [.swap "a" "b", .noop, .negate "a"]
    t.Reachable ∧ decodeProgram [0x102, 0, 4, 0x103] t = .ok p ∧ encodeAll p t = .ok [0x102, 0, 4, 0x103] t := by
  intro t p
  have ht : t.Reachable := .intern "a" (.intern "b" .empty)
  have hdecode : decodeProgram [0x102, 0, 4, 0x103] t = .ok p := by rfl
  exact ⟨ht, hdecode, (((decodeProgram_accepts_encoded t ht).1 _ _).mp hdecode).2⟩

end Reversible.Encoding
