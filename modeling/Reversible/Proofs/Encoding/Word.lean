import Reversible.Encoding.Word
import Reversible.Proofs.Encoding.SymbolTable

namespace Reversible

theorem Opcode.code_lt_three_iff (op : Opcode) : op.code < 3 ↔ op.arity = 2 := by
  cases op <;> decide

theorem Opcode.code_lt (op : Opcode) : op.code < 5 := by
  cases op <;> decide

theorem Opcode.arity_le (op : Opcode) : op.arity ≤ 2 := by
  cases op <;> decide

theorem Instruction.arity_of_operands {i : Instruction} {names : List Name} (h : i.operands = names) :
    i.opcode.arity = names.length := by
  rw [← i.length_operands, h]

namespace Encoding

inductive Represents (t : SymbolTable) : Instruction → Nat → Prop
  | binary {i : Instruction} {m n : Name} {a b : Nat} (hi : i.operands = [m, n]) (ha : t.nameAt? a = some m)
      (hb : t.nameAt? b = some n) : Represents t i (i.opcode.code + a * 0x100 + b * 0x100000000)
  | unary {i : Instruction} {n : Name} {a : Nat} (hi : i.operands = [n]) (ha : t.nameAt? a = some n) :
      Represents t i (i.opcode.code + a * 0x100)
  | nullary {i : Instruction} (hi : i.operands = []) : Represents t i i.opcode.code

variable {t : SymbolTable} {i : Instruction} {number : Nat}

theorem Represents.mod_eq (h : Represents t i number) : number % 0x100 = i.opcode.code := by
  have hcode := i.opcode.code_lt
  cases h <;> omega

theorem Represents.lt (ht : t.WellFormed) (h : Represents t i number) : number < 0x100000000000000 := by
  have hcode := i.opcode.code_lt
  cases h with
  | binary hi ha hb =>
    have ha' := ht.register_lt ha
    have hb' := ht.register_lt hb
    omega
  | unary hi ha =>
    have ha' := ht.register_lt ha
    omega
  | nullary hi => omega

theorem Represents.lt_of_arity (ht : t.WellFormed) (h : Represents t i number) (hi : i.opcode.arity ≠ 2) :
    number < 0x100000000 := by
  have hcode := i.opcode.code_lt
  cases h with
  | binary hi' ha hb => exact absurd (Instruction.arity_of_operands hi') hi
  | unary hi' ha =>
    have ha' := ht.register_lt ha
    omega
  | nullary hi' => omega

theorem variableAt_eq_ok_iff {value : UInt64} {unit : Nat} {n : Name} :
    variableAt t value unit = .ok n ↔ t.nameAt? (value.toNat / unit % SymbolTable.capacity) = some n := by
  simp only [variableAt]
  split <;> simp_all

theorem variableAt_of_nameAt? {value : UInt64} {unit register : Nat} {n : Name} (h : t.nameAt? register = some n)
    (hfield : value.toNat / unit % 0x1000000 = register) : variableAt t value unit = .ok n := by
  apply variableAt_eq_ok_iff.mpr
  rw [← h, ← hfield]
  rfl

theorem readTwo_eq_ok_iff {value : UInt64} {make : Name → Name → Instruction} :
    (do return make (← variableAt t value 0x100) (← variableAt t value 0x100000000)) = Except.ok i ↔
      ∃ m n, variableAt t value 0x100 = .ok m ∧ variableAt t value 0x100000000 = .ok n ∧ make m n = i := by
  simp only [except_bind_eq_ok_iff]
  constructor
  · rintro ⟨m, hm, n, hn, h⟩
    exact ⟨m, n, hm, hn, Except.ok.inj h⟩
  · rintro ⟨m, n, hm, hn, rfl⟩
    exact ⟨m, hm, n, hn, rfl⟩

theorem represents_of_readTwo {value : UInt64} {m n : Name} (hi : i.operands = [m, n])
    (hcode : i.opcode.code = value.toNat % 0x100) (hreserved : value.toNat / 0x100000000000000 = 0)
    (hm : variableAt t value 0x100 = .ok m) (hn : variableAt t value 0x100000000 = .ok n) :
    Represents t i value.toNat := by
  have h := Represents.binary hi (variableAt_eq_ok_iff.mp hm) (variableAt_eq_ok_iff.mp hn)
  have hnumber : i.opcode.code + value.toNat / 0x100 % SymbolTable.capacity * 0x100 +
      value.toNat / 0x100000000 % SymbolTable.capacity * 0x100000000 = value.toNat := by
    simp only [SymbolTable.capacity]
    omega
  rwa [hnumber] at h

theorem represents_of_decode {value : UInt64} (h : decode t value = .ok i) : Represents t i value.toNat := by
  unfold decode at h
  split at h
  · contradiction
  · next op hop =>
    have hcode := Opcode.ofCode?_eq_some_iff.mp hop
    by_cases hreserved : reservedBits op value = 0
    · rw [if_neg (fun hne => hne hreserved)] at h
      cases op with
      | add | sub | swap =>
        obtain ⟨m, n, hm, hn, rfl⟩ := readTwo_eq_ok_iff.mp h
        exact represents_of_readTwo rfl hcode hreserved hm hn
      | negate =>
        obtain ⟨n, hn, h⟩ := except_bind_eq_ok_iff.mp h
        obtain rfl := Except.ok.inj h
        have hrep := Represents.unary (i := .negate n) rfl (variableAt_eq_ok_iff.mp hn)
        have hnumber : Opcode.negate.code + value.toNat / 0x100 % SymbolTable.capacity * 0x100 = value.toNat := by
          simp only [reservedBits, Opcode.arity, SymbolTable.capacity] at hreserved ⊢
          omega
        exact hnumber ▸ hrep
      | noop =>
        obtain rfl := Except.ok.inj h
        have hnumber : Opcode.noop.code = value.toNat := by
          simp only [reservedBits, Opcode.arity] at hreserved
          omega
        exact hnumber ▸ Represents.nullary rfl
    · rw [if_pos hreserved] at h
      contradiction

theorem Represents.decode {value : UInt64} (ht : t.WellFormed) (h : Represents t i value.toNat) :
    Encoding.decode t value = .ok i := by
  generalize hnumber : value.toNat = number at h
  have hop : Opcode.ofCode? (value.toNat % 0x100) = some i.opcode := by
    rw [Opcode.ofCode?_eq_some_iff, hnumber, h.mod_eq]
  have hcode := i.opcode.code_lt
  unfold Encoding.decode
  rw [hop]
  cases h with
  | @binary m n a b hi ha hb =>
    have ha' := ht.register_lt ha
    have hb' := ht.register_lt hb
    have hm : variableAt t value 0x100 = .ok m := variableAt_of_nameAt? ha (by omega)
    have hn : variableAt t value 0x100000000 = .ok n := variableAt_of_nameAt? hb (by omega)
    have hreserved : value.toNat / 0x100000000000000 = 0 := by omega
    cases i with
    | add _ _ | sub _ _ | swap _ _ =>
      cases hi
      exact (if_neg (fun hne => hne hreserved)).trans (readTwo_eq_ok_iff.mpr ⟨m, n, hm, hn, rfl⟩)
    | negate _ | noop => cases hi
  | @unary n a hi ha =>
    have ha' := ht.register_lt ha
    have hn : variableAt t value 0x100 = .ok n := variableAt_of_nameAt? ha (by omega)
    have hreserved : value.toNat / 0x100000000 = 0 := by omega
    cases i with
    | negate _ =>
      cases hi
      exact (if_neg (fun hne => hne hreserved)).trans (except_bind_eq_ok_iff.mpr ⟨n, hn, rfl⟩)
    | _ => cases hi
  | nullary hi =>
    have hreserved : value.toNat / 0x100 = 0 := by omega
    cases i with
    | noop => exact if_neg (fun hne => hne hreserved)
    | _ => cases hi

def encoded (op : Opcode) (number : Nat) : Encoded :=
  if op.arity = 2 then .doubleWord (UInt64.ofNat number) else .word (UInt32.ofNat number)

theorem Represents.encode (ht : t.WellFormed) (h : Represents t i number) :
    Encoding.encode i t = .ok (encoded i.opcode number) t := by
  unfold Encoding.encode encoded
  cases h with
  | binary hi ha hb =>
    have harity : i.opcode.arity = 2 := Instruction.arity_of_operands hi
    have hfirst := SymbolTable.intern_of_register? (ht.register?_eq_some_iff.mpr ha)
    have hsecond := SymbolTable.intern_of_register? (ht.register?_eq_some_iff.mpr hb)
    rw [hi, if_pos harity]
    exact (bind_of_ok hfirst).trans (bind_of_ok hsecond)
  | unary hi ha =>
    have harity : i.opcode.arity = 1 := Instruction.arity_of_operands hi
    rw [hi, if_neg (by omega)]
    exact bind_of_ok (SymbolTable.intern_of_register? (ht.register?_eq_some_iff.mpr ha))
  | nullary hi =>
    have harity : i.opcode.arity = 0 := Instruction.arity_of_operands hi
    rw [hi, if_neg (by omega)]
    rfl

theorem Represents.covers (ht : t.WellFormed) (h : Represents t i number) : t.Covers i.operands := by
  cases h with
  | binary hi ha hb => exact hi ▸ ht.covers_cons ha (ht.covers_cons hb t.covers_nil)
  | unary hi ha => exact hi ▸ ht.covers_cons ha t.covers_nil
  | nullary hi => exact hi ▸ t.covers_nil

theorem exists_represents (h : t.Covers i.operands) : ∃ number, Represents t i number := by
  have hlength := i.length_operands
  have harity := i.opcode.arity_le
  match hi : i.operands with
  | [] => exact ⟨_, .nullary hi⟩
  | [n] =>
    obtain ⟨a, ha⟩ := h.exists_nameAt? (show n ∈ i.operands by simp [hi])
    exact ⟨_, .unary hi ha⟩
  | [m, n] =>
    obtain ⟨a, ha⟩ := h.exists_nameAt? (show m ∈ i.operands by simp [hi])
    obtain ⟨b, hb⟩ := h.exists_nameAt? (show n ∈ i.operands by simp [hi])
    exact ⟨_, .binary hi ha hb⟩
  | _ :: _ :: _ :: _ =>
    rw [hi] at hlength
    simp only [List.length_cons] at hlength
    omega

theorem toNat_doubleWord (low high : UInt32) : (doubleWord low high).toNat = low.toNat + high.toNat * 0x100000000 := by
  have hlow := low.toNat_lt
  have hhigh := high.toNat_lt
  simp only [doubleWord, UInt64.toNat_ofNat']
  omega

theorem toNat_doubleWord_zero (low : UInt32) : (doubleWord low 0).toNat = low.toNat := by
  simp [toNat_doubleWord]

theorem words_encoded_doubleWord {op : Opcode} (hop : op.arity = 2) (low high : UInt32) :
    (encoded op (doubleWord low high).toNat).words = [low, high] := by
  have hlow := low.toNat_lt
  rw [encoded, if_pos hop, UInt64.ofNat_toNat, Encoded.words, toNat_doubleWord]
  have hfirst : (low.toNat + high.toNat * 0x100000000) % 0x100000000 = low.toNat := by omega
  have hsecond : (low.toNat + high.toNat * 0x100000000) / 0x100000000 = high.toNat := by omega
  rw [hfirst, hsecond, UInt32.ofNat_toNat, UInt32.ofNat_toNat]

theorem words_encoded_word {op : Opcode} (hop : op.arity ≠ 2) (low : UInt32) :
    (encoded op (doubleWord low 0).toNat).words = [low] := by
  rw [encoded, if_neg hop, toNat_doubleWord_zero, Encoded.words, UInt32.ofNat_toNat]

theorem exists_doubleWord (h : number < 0x10000000000000000) : ∃ low high, (doubleWord low high).toNat = number := by
  refine ⟨UInt32.ofNat (number % 0x100000000), UInt32.ofNat (number / 0x100000000), ?_⟩
  simp only [toNat_doubleWord, UInt32.toNat_ofNat']
  omega

theorem exists_word (h : number < 0x100000000) : ∃ low, (doubleWord low 0).toNat = number := by
  refine ⟨UInt32.ofNat number, ?_⟩
  rw [toNat_doubleWord_zero, UInt32.toNat_ofNat']
  omega

theorem Represents.isDoubleWord_iff {low high : UInt32} (h : Represents t i (doubleWord low high).toNat) :
    isDoubleWord low = true ↔ i.opcode.arity = 2 := by
  have hmod := h.mod_eq
  have hlow : low.toNat % 0x100 = i.opcode.code := by
    rw [toNat_doubleWord] at hmod
    omega
  rw [← i.opcode.code_lt_three_iff, isDoubleWord, decide_eq_true_eq, hlow]

end Encoding

end Reversible
