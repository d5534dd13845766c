import Reversible.Proofs.Encoding.Totality

namespace Reversible.Encoding

variable {t u : SymbolTable} {p q : Program} {words words' : List UInt32} {f : Name → Name}

theorem bijOn_operands_rename (hf : Set.InjOn f {n | n ∈ p.operands}) :
    Set.BijOn f {n | n ∈ p.operands} {n | n ∈ (p.rename f).operands} := by
  refine ⟨?_, hf, ?_⟩
  · intro n hn
    change f n ∈ (p.rename f).operands
    rw [Program.operands_rename]
    exact List.mem_map_of_mem hn
  · intro n hn
    change n ∈ (p.rename f).operands at hn
    rw [Program.operands_rename] at hn
    exact List.mem_map.mp hn

theorem nameAt?_map (f : Name → Name) (t : SymbolTable) (r : Nat) :
    SymbolTable.nameAt? ⟨t.names.map f⟩ r = (t.nameAt? r).map f :=
  List.getElem?_map

theorem encodeProgram_rename (hf : Set.InjOn f {n | n ∈ p.operands}) (h : encodeProgram p = .ok (words, t)) :
    encodeProgram (p.rename f) = .ok (words, ⟨t.names.map f⟩) := by
  obtain ⟨ht, hspells⟩ := encodeProgram_eq_ok_iff.mp h
  obtain ⟨hnames, hsize⟩ := SymbolTable.ofNames_eq_ok_iff.mp ht
  apply encodeProgram_eq_ok_iff.mpr
  constructor
  · apply SymbolTable.ofNames_eq_ok_iff.mpr
    rw [Program.operands_rename, eraseDups_map hf, ← hnames]
    exact ⟨rfl, by simpa [SymbolTable.size] using hsize⟩
  · apply hspells.rename
    intro r n hr
    rw [nameAt?_map, hr, Option.map_some]

def carry (t u : SymbolTable) (n : Name) : Name :=
  ((t.register? n).bind u.nameAt?).getD n

theorem nameAt?_carry (ht : t.WellFormed) (hle : t.size ≤ u.size) {r : Nat} {n : Name} (h : t.nameAt? r = some n) :
    u.nameAt? r = some (carry t u n) := by
  have hr : r < u.names.length := Nat.lt_of_lt_of_le (List.getElem?_eq_some_iff.mp h).1 hle
  have hu : u.nameAt? r = some u.names[r] := List.getElem?_eq_getElem hr
  rw [carry, ht.register?_eq_some_iff.mpr h, Option.bind_some, hu, Option.getD_some]

theorem carry_injOn (ht : t.WellFormed) (hu : u.WellFormed) (hle : t.size ≤ u.size) {names : List Name}
    (hcovers : t.Covers names) : Set.InjOn (carry t u) {n | n ∈ names} := by
  intro m hm n hn heq
  obtain ⟨a, ha⟩ := hcovers.exists_nameAt? hm
  obtain ⟨b, hb⟩ := hcovers.exists_nameAt? hn
  have hb' := nameAt?_carry ht hle hb
  rw [← heq] at hb'
  -- Under `u` both registers have the same name, so they are the same register.
  have ha' := hu.register?_eq_some_iff.mpr (nameAt?_carry ht hle ha)
  rw [hu.register?_eq_some_iff.mpr hb'] at ha'
  cases ha'
  exact Option.some.inj (ha.symm.trans hb)

theorem eq_rename_carry (hle : t.size ≤ u.size) (hp : encodeProgram p = .ok (words, t))
    (hq : encodeProgram q = .ok (words, u)) :
    Set.InjOn (carry t u) {n | n ∈ p.operands} ∧ q = p.rename (carry t u) := by
  obtain ⟨ht, hpt⟩ := encodeProgram_eq_ok_iff.mp hp
  obtain ⟨hu, hqu⟩ := encodeProgram_eq_ok_iff.mp hq
  have htform := wellFormed_of_ofProgram ht
  have huform := wellFormed_of_ofProgram hu
  refine ⟨carry_injOn htform huform hle (covers_of_ofProgram ht), ?_⟩
  have hcarried := hpt.rename fun _ _ hr => nameAt?_carry htform hle hr
  have heq := (hqu.decodeFrom huform 0).symm.trans (hcarried.decodeFrom huform 0)
  cases heq
  rfl

theorem size_le_of_words_eq (hle : t.size ≤ u.size) (hp : encodeProgram p = .ok (words, t))
    (hq : encodeProgram q = .ok (words, u)) : u.size ≤ t.size := by
  obtain ⟨hinj, rfl⟩ := eq_rename_carry hle hp hq
  have heq := (encodeProgram_rename hinj hp).symm.trans hq
  have hu : SymbolTable.mk (t.names.map (carry t u)) = u := by
    injection heq with heq
    injection heq
  rw [← hu]
  simp [SymbolTable.size]

theorem words_eq_iff_renamed (p q : Program) {words words' : List UInt32} {t u : SymbolTable}
    (hp : encodeProgram p = .ok (words, t)) (hq : encodeProgram q = .ok (words', u)) :
    (words = words' ↔ ∃ f, Set.BijOn f {n | n ∈ p.operands} {n | n ∈ q.operands} ∧ q = p.rename f) ∧
      ∀ f, Set.BijOn f {n | n ∈ p.operands} {n | n ∈ q.operands} → q = p.rename f →
        ∀ r, u.nameAt? r = (t.nameAt? r).map f := by
  have hrenamed : ∀ f, Set.BijOn f {n | n ∈ p.operands} {n | n ∈ q.operands} → q = p.rename f →
      words = words' ∧ u = ⟨t.names.map f⟩ := by
    rintro f hf rfl
    have heq := (encodeProgram_rename hf.injOn hp).symm.trans hq
    cases heq
    exact ⟨rfl, rfl⟩
  refine ⟨⟨?_, ?_⟩, ?_⟩
  · rintro rfl
    have hle : t.size ≤ u.size := by
      obtain h | h := Nat.le_total t.size u.size
      · exact h
      · exact size_le_of_words_eq h hq hp
    obtain ⟨hinj, rfl⟩ := eq_rename_carry hle hp hq
    exact ⟨carry t u, bijOn_operands_rename hinj, rfl⟩
  · rintro ⟨f, hf, hq⟩
    exact (hrenamed f hf hq).1
  · intro f hf hq
    obtain ⟨-, rfl⟩ := hrenamed f hf hq
    exact nameAt?_map f t

/-- To give two variables one name is not to rename them: the words change. -/
theorem words_eq_iff_renamed_merged :
    let p : Program := [.negate "a", .swap "b" "a"]
    let q : Program := [.negate "x", .swap "a" "x"]
    let merged : Program := [.negate "x", .swap "x" "x"]
    let t : SymbolTable := ⟨["a", "b"]⟩
    let u : SymbolTable := ⟨["x", "a"]⟩
    encodeProgram p = .ok ([3, 0x102, 0], t) ∧ encodeProgram q = .ok ([3, 0x102, 0], u) ∧
      encodeProgram merged = .ok ([3, 2, 0], ⟨["x"]⟩) ∧
      (∃ f, q = p.rename f ∧ f "a" = "x" ∧ f "b" = "a") ∧
      ¬∃ f, Set.BijOn f {n | n ∈ p.operands} {n | n ∈ merged.operands} ∧ merged = p.rename f := by
  intro p q merged t u
  have hp : encodeProgram p = .ok ([3, 0x102, 0], t) := by rfl
  have hq : encodeProgram q = .ok ([3, 0x102, 0], u) := by rfl
  have hmerged : encodeProgram merged = .ok ([3, 2, 0], ⟨["x"]⟩) := by rfl
  obtain ⟨hsame, hmap⟩ := words_eq_iff_renamed p q hp hq
  obtain ⟨f, hf, hqf⟩ := hsame.mp rfl
  have ha := hmap f hf hqf 0
  have hb := hmap f hf hqf 1
  refine ⟨hp, hq, hmerged, ⟨f, hqf, (Option.some.inj ha).symm, (Option.some.inj hb).symm⟩, ?_⟩
  exact mt (words_eq_iff_renamed p merged hp hmerged).1.mpr (by decide)

end Reversible.Encoding
