import Mathlib.Algebra.GroupWithZero.Nat
import Reversible.Proofs.Encoding.Image
import Reversible.Proofs.Encoding.Numbering
import Reversible.Proofs.Renaming

namespace Reversible.Encoding

variable {t u : SymbolTable} {i : Instruction} {p : Program} {words : List UInt32}

section Renaming

variable {f : Name → Name}

theorem Represents.rename (hf : ∀ r n, t.nameAt? r = some n → u.nameAt? r = some (f n)) {number : Nat}
    (h : Represents t i number) : Represents u (i.rename f) number := by
  cases h with
  | binary hi ha hb =>
    rw [← i.opcode_rename f]
    exact .binary (by rw [i.operands_rename, hi]; rfl) (hf _ _ ha) (hf _ _ hb)
  | unary hi ha =>
    rw [← i.opcode_rename f]
    exact .unary (by rw [i.operands_rename, hi]; rfl) (hf _ _ ha)
  | nullary hi =>
    rw [← i.opcode_rename f]
    exact .nullary (by rw [i.operands_rename, hi]; rfl)

theorem Spells.rename (hf : ∀ r n, t.nameAt? r = some n → u.nameAt? r = some (f n)) (h : Spells t p words) :
    Spells u (p.rename f) words := by
  induction h with
  | nil => exact .nil
  | @cons i number p words hi hp ih =>
    rw [Program.rename_cons, ← i.opcode_rename f]
    exact .cons (hi.rename hf) ih

end Renaming

theorem Spells.extends (h : Spells t p words) (hu : t.Extends u) : Spells u p words := by
  have hrename := h.rename (f := id) fun _ _ hr => hu.nameAt? hr
  rwa [Program.rename_id] at hrename

theorem length_words_encoded (op : Opcode) (number : Nat) : (encoded op number).words.length = op.size := by
  unfold encoded Opcode.size
  split <;> rfl

theorem Spells.length_words (h : Spells t p words) : words.length = (p.map fun i => i.opcode.size).sum := by
  induction h with
  | nil => rfl
  | @cons i number p words hi hp ih =>
    rw [List.length_append, length_words_encoded, ih, List.map_cons, List.sum_cons]

theorem covers_of_ofProgram (h : SymbolTable.ofProgram p = .ok t) : t.Covers p.operands := by
  intro n hn
  have hnames := (SymbolTable.ofNames_eq_ok_iff.mp h).1
  rw [SymbolTable.register?, List.isSome_idxOf?, hnames, List.mem_eraseDups]
  exact hn

theorem wellFormed_of_ofProgram (h : SymbolTable.ofProgram p = .ok t) : t.WellFormed := by
  obtain ⟨hnames, hsize⟩ := SymbolTable.ofNames_eq_ok_iff.mp h
  exact SymbolTable.wellFormed_of_names hnames hsize

theorem encodeProgram_of_spells (h : SymbolTable.ofProgram p = .ok t) (hp : Spells t p words) :
    encodeProgram p = .ok (words, t) := by
  have hwords := (hp.encodeAll (wellFormed_of_ofProgram h)).2
  simp only [encodeProgram, h, hwords, bind, Except.bind, pure, Except.pure]

theorem encodeProgram_eq_ok_iff :
    encodeProgram p = .ok (words, t) ↔ SymbolTable.ofProgram p = .ok t ∧ Spells t p words := by
  constructor
  · intro h
    obtain ⟨v, hv, -⟩ := except_bind_eq_ok_iff.mp h
    obtain ⟨words', hspells⟩ := exists_spells (covers_of_ofProgram hv)
    have heq := (encodeProgram_of_spells hv hspells).symm.trans h
    cases heq
    exact ⟨hv, hspells⟩
  · rintro ⟨ht, hp⟩
    exact encodeProgram_of_spells ht hp

theorem encodeProgram_total (p : Program) (hp : p.operands.toFinset.card ≤ 2 ^ 24) :
    ∃ words t, encodeProgram p = .ok (words, t) ∧
      (t.names = p.operands.eraseDups ∧ t.size = p.operands.toFinset.card ∧
        ∀ m n a b, t.register? m = some a → t.register? n = some b →
          (a < b ↔ p.operands.idxOf m < p.operands.idxOf n)) ∧
      (SymbolTable.ofProgram p = .ok t ∧ encodeAll p t = .ok words t) ∧
      words.length = (p.map fun i => i.opcode.size).sum ∧
      decodeProgram words t = .ok p ∧ ∀ u, t.Extends u → decodeProgram words u = .ok p := by
  let t : SymbolTable := ⟨p.operands.eraseDups⟩
  have hsize : t.size = p.operands.toFinset.card := length_eraseDups p.operands
  have ht : SymbolTable.ofProgram p = .ok t :=
    SymbolTable.ofNames_eq_ok_iff.mpr ⟨rfl, by rw [hsize]; exact hp⟩
  have hform := wellFormed_of_ofProgram ht
  obtain ⟨words, hspells⟩ := exists_spells (covers_of_ofProgram ht)
  refine ⟨words, t, encodeProgram_of_spells ht hspells, ⟨rfl, hsize, ?_⟩, ⟨ht, (hspells.encodeAll hform).2⟩,
    hspells.length_words, hspells.decodeFrom hform 0, ?_⟩
  · intro m n a b hm hn
    exact SymbolTable.register_lt_iff hform rfl hm hn
  · intro u hu
    exact (hspells.extends hu).decodeFrom (hu.wellFormed hform) 0

theorem encodeProgram_total_repeated :
    let p : Program := [.negate "q", .add "p" "q", .noop]
    let t : SymbolTable := ⟨["q", "p"]⟩
    let u : SymbolTable := ⟨["q", "p", "r"]⟩
    p.operands.toFinset.card ≤ 2 ^ 24 ∧ encodeProgram p = .ok ([3, 0x100, 0, 4], t) ∧ t.Extends u ∧
      decodeProgram [3, 0x100, 0, 4] u = .ok p := by
  intro p t u
  have hp : p.operands.toFinset.card ≤ 2 ^ 24 := by decide
  have hu : t.Extends u := .intern "r" .refl
  obtain ⟨words, v, hencode, -, -, -, -, hdecode⟩ := encodeProgram_total p hp
  have hwords : encodeProgram p = .ok ([3, 0x100, 0, 4], t) := by rfl
  have heq := hwords.symm.trans hencode
  cases heq
  exact ⟨hp, hwords, hu, hdecode u hu⟩

end Reversible.Encoding
