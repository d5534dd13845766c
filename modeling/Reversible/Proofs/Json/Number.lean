import Reversible.Basic
import Reversible.Json.Value
import Reversible.Proofs.Json.Reader

namespace Reversible.Json

open Text (natural integer)

theorem isDigit_of_mem_natural {n : Nat} {c : Char} (h : c ∈ natural n) : c.isDigit = true :=
  Nat.isDigit_of_mem_toDigits (by decide) (by decide) h

theorem natural_eq_cons (n : Nat) : ∃ c cs, natural n = c :: cs ∧ c.isDigit = true := by
  obtain ⟨c, cs, h⟩ := List.exists_cons_of_ne_nil (Nat.toDigits_ne_nil (n := n) (b := 10))
  have hc : c ∈ natural n := by
    rw [natural, h]
    exact List.mem_cons_self
  exact ⟨c, cs, h, isDigit_of_mem_natural hc⟩

theorem digitChar_ne_zero : ∀ n < 10, 0 < n → Nat.digitChar n ≠ '0' := by decide

theorem head?_natural_ne_zero {n : Nat} (h : 0 < n) : (natural n).head? ≠ some '0' := by
  induction n using Nat.strongRecOn with
  | ind n ih =>
    unfold natural at ih ⊢
    by_cases hn : n < 10
    · rw [Nat.toDigits_of_lt_base hn, List.head?_cons, Ne, Option.some.injEq]
      exact digitChar_ne_zero n hn h
    · have hdiv := ih (n / 10) (by omega) (by omega)
      obtain ⟨c, cs, hcs⟩ := List.exists_cons_of_ne_nil (Nat.toDigits_ne_nil (n := n / 10) (b := 10))
      rw [Nat.toDigits_of_base_le (by decide) (by omega), hcs, List.cons_append, List.head?_cons]
      rwa [hcs, List.head?_cons] at hdiv

theorem natural_ne_leading_zero (n : Nat) (d : Char) (ds : List Char) : natural n ≠ '0' :: d :: ds := by
  intro h
  obtain rfl | hn := Nat.eq_zero_or_pos n
  · cases h
  · exact head?_natural_ne_zero hn (by rw [h, List.head?_cons])

section Reading

variable {rest : List Char}

theorem Follows.not_digit (h : Follows rest) :
    rest.takeWhile Char.isDigit = [] ∧ rest.dropWhile Char.isDigit = rest := by
  cases rest with
  | nil => exact ⟨rfl, rfl⟩
  | cons c cs =>
    have hc : c.isDigit = false := by
      have hmem := h c rfl
      simp only [List.mem_cons, List.not_mem_nil, or_false] at hmem
      obtain rfl | rfl | rfl := hmem <;> rfl
    simp [hc]

theorem digits_natural (h : Follows rest) (n : Nat) : digits (natural n ++ rest) = .ok (natural n, rest) := by
  obtain ⟨htake, hdrop⟩ := h.not_digit
  obtain ⟨c, cs, hcs, hc⟩ := natural_eq_cons n
  have hall : ∀ c ∈ natural n, c.isDigit = true := fun c => isDigit_of_mem_natural
  have hwhole : (natural n ++ rest).takeWhile Char.isDigit = natural n := by
    rw [List.takeWhile_append_of_pos hall, htake, List.append_nil]
  have hrest : (natural n ++ rest).dropWhile Char.isDigit = rest := by
    rw [List.dropWhile_append_of_pos hall, hdrop]
  rw [hcs, List.cons_append] at hwhole hrest ⊢
  simp only [digits, hc, if_true, hwhole, hrest]

theorem wholeDigits_natural (h : Follows rest) (n : Nat) :
    wholeDigits (natural n ++ rest) = .ok (natural n, rest) := by
  rw [wholeDigits, bind_of_read (digits_natural h n)]
  refine congrFun (g := (pure (natural n) : Reader (List Char))) ?_ rest
  split
  · next d ds heq => exact absurd heq (natural_ne_leading_zero n d ds)
  · rfl

theorem fractionDigits_of_follows (h : Follows rest) : fractionDigits rest = .ok (none, rest) := by
  unfold fractionDigits
  split
  · next cs =>
    have := h '.' rfl
    contradiction
  · rfl

theorem exponentDigits_of_follows (h : Follows rest) : exponentDigits rest = .ok (none, rest) := by
  cases rest with
  | nil => rfl
  | cons c cs =>
    have hc : ¬(c = 'e' ∨ c = 'E') := by
      rintro (rfl | rfl)
      · exact absurd (h _ rfl) (by decide)
      · exact absurd (h _ rfl) (by decide)
    exact if_neg hc

theorem numeral_natural {text : List Char} {negative : Bool} (h : Follows rest) (n : Nat)
    (hminus : minus text = .ok (negative, natural n ++ rest)) :
    numeral text = .ok ({ negative, whole := natural n, fraction := none, exponent := none }, rest) := by
  rw [numeral, bind_of_read hminus, bind_of_read (wholeDigits_natural h n),
    bind_of_read (fractionDigits_of_follows h), bind_of_read (exponentDigits_of_follows h)]
  rfl

end Reading

section Size

theorem le_ofDigitChars (ds : List Char) (n : Nat) : n ≤ Nat.ofDigitChars 10 ds n := by
  induction ds generalizing n with
  | nil => exact Nat.le_refl n
  | cons d ds ih =>
    rw [Nat.ofDigitChars_cons]
    have := ih (10 * n + (d.toNat - '0'.toNat))
    omega

theorem absorb_of_lt {ds : List Char} {n : Nat} (h : Nat.ofDigitChars 10 ds n < 0x10000000000000000) :
    absorb n ds = (Nat.ofDigitChars 10 ds n, 0) := by
  induction ds generalizing n with
  | nil => rfl
  | cons d ds ih =>
    have hcons : Nat.ofDigitChars 10 (d :: ds) n = Nat.ofDigitChars 10 ds (Nat.ofDigitChars 10 [d] n) := by
      rw [Nat.ofDigitChars_cons, Nat.ofDigitChars_cons, Nat.ofDigitChars_nil]
    rw [hcons] at h ⊢
    have hnext := Nat.lt_of_le_of_lt (le_ofDigitChars ds _) h
    simp only [absorb, if_pos hnext]
    exact ih h

theorem roundSignificant_le {n : Nat} (h : 0 < n) : roundSignificant n ≤ 2 * n := by
  have hunit : 1 <<< (n.log2 + 1 - 53) ≤ n := by
    rw [Nat.one_shiftLeft]
    exact Nat.le_trans (Nat.pow_le_pow_right (by decide) (by omega)) (Nat.log2_self_le (by omega))
  have hq := Nat.div_mul_le_self n (1 <<< (n.log2 + 1 - 53))
  unfold roundSignificant
  simp only
  split
  · rw [Nat.add_mul]
    omega
  · omega

theorem isFinite_of_lt {n : Nat} (h : n < 0x10000000000000000) : isFinite n 0 = true := by
  unfold isFinite
  split
  · rfl
  · next hn =>
    have hround : roundSignificant n ≤ 2 * n := roundSignificant_le (by omega)
    have hone : roundSignificant (Nat.pow 10 (Int.toNat 0)) = 1 := by decide
    have hbound : 2 * 0x10000000000000000 < (1 <<< 1024) - (1 <<< 970) := by decide
    rw [if_neg (by decide), hone, decide_eq_true_eq]
    omega

theorem isFinite_natural {n : Nat} (h : n < 0x10000000000000000) (negative : Bool) :
    Numeral.isFinite { negative, whole := natural n, fraction := none, exponent := none } = true := by
  have hvalue : Nat.ofDigitChars 10 (natural n) 0 = n := Nat.ofDigitChars_ten_toDigits
  have habsorb : absorb 0 (natural n) = (n, 0) := by
    rw [absorb_of_lt (by rw [hvalue]; exact h), hvalue]
  simp only [Numeral.isFinite, habsorb, Option.getD_none]
  exact isFinite_of_lt h

end Size

theorem int64?_integer {v : Int64} {n : Nat} {negative : Bool} (hv : v.toInt = if negative then -(n : Int) else n)
    (hzero : negative = true → 0 < n) :
    Numeral.int64? { negative, whole := natural n, fraction := none, exponent := none } = some v := by
  have hvalue : ofDigits (natural n) = n := Nat.ofDigitChars_ten_toDigits
  have hlow := v.le_toInt
  have hhigh := v.toInt_lt
  simp only [Numeral.int64?, hvalue]
  cases negative with
  | true =>
    simp only [if_true] at hv ⊢
    rw [if_pos ⟨hzero rfl, by omega⟩, ← hv, Int64.ofInt_toInt]
  | false =>
    simp only [Bool.false_eq_true, if_false] at hv ⊢
    rw [if_pos (by omega), ← hv, Int64.ofInt_toInt]

theorem integer_eq_cons (z : Int) : ∃ c cs, integer z = c :: cs ∧ (c = '-' ∨ c.isDigit = true) := by
  cases z with
  | ofNat n =>
    obtain ⟨c, cs, h, hc⟩ := natural_eq_cons n
    exact ⟨c, cs, h, .inr hc⟩
  | negSucc n => exact ⟨'-', natural (n + 1), rfl, .inl rfl⟩

theorem minus_or_digit_of_mem_integer {z : Int} {c : Char} (h : c ∈ integer z) : c = '-' ∨ c.isDigit = true := by
  cases z with
  | ofNat n => exact .inr (isDigit_of_mem_natural h)
  | negSucc n =>
    obtain rfl | h := List.mem_cons.mp h
    · exact .inl rfl
    · exact .inr (isDigit_of_mem_natural h)

theorem minus_natural (n : Nat) (rest : List Char) : minus (natural n ++ rest) = .ok (false, natural n ++ rest) := by
  obtain ⟨c, cs, h, hc⟩ := natural_eq_cons n
  rw [h, List.cons_append]
  unfold minus
  split
  · next heq =>
    cases heq
    contradiction
  · rfl

theorem numeral_integer {rest : List Char} (h : Follows rest) (v : Int64) :
    ∃ n : Numeral, numeral (integer v.toInt ++ rest) = .ok (n, rest) ∧ n.isFinite = true ∧ n.int64? = some v := by
  have hlow := v.le_toInt
  have hhigh := v.toInt_lt
  cases hv : v.toInt with
  | ofNat n =>
    rw [hv, Int.ofNat_eq_natCast] at hhigh
    have hsize : n < 0x10000000000000000 := by omega
    exact ⟨_, numeral_natural h n (minus_natural n rest), isFinite_natural hsize false,
      int64?_integer (by simpa using hv) (by simp)⟩
  | negSucc n =>
    have hsize : n + 1 < 0x10000000000000000 := by omega
    exact ⟨_, numeral_natural h (n + 1) rfl, isFinite_natural hsize true,
      int64?_integer (by rw [hv]; rfl) (by simp)⟩

theorem not_isBlank_of_isDigit {c : Char} (h : c.isDigit = true) : isBlank c = false := by
  rw [Bool.eq_false_iff]
  intro hblank
  simp only [isBlank, Bool.or_eq_true, decide_eq_true_eq] at hblank
  obtain ((rfl | rfl) | rfl) | rfl := hblank <;> contradiction

theorem int64_integer {rest : List Char} (h : Follows rest) (v : Int64) :
    int64 (integer v.toInt ++ rest) = .ok (v, rest) := by
  obtain ⟨n, hnumeral, hfinite, hvalue⟩ := numeral_integer h v
  have hnumber : number (integer v.toInt ++ rest) = .ok (n, rest) := by
    rw [number, bind_of_read hnumeral, if_pos hfinite]
    rfl
  obtain ⟨c, cs, hcs, hc⟩ := integer_eq_cons v.toInt
  have hblank : isBlank c = false := by
    obtain rfl | hc := hc
    · rfl
    · exact not_isBlank_of_isDigit hc
  have hstart : startsNumber c = true := by
    simpa [startsNumber] using hc
  rw [hcs, List.cons_append] at hnumber ⊢
  simp only [int64, skipBlanks_of_not_blank hblank, hstart, if_true, hnumber, hvalue]

end Reversible.Json
