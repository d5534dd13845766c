import Reversible.Json.Quoted
import Reversible.Proofs.Json.Reader

namespace Reversible.Json

inductive Spelled : Char → List Char → Prop
  | short {c d : Char} (h : shortEscape? d = some c) : Spelled c ['\\', d]
  | code {c : Char} (h : c.toNat < 0x20) :
      Spelled c ['\\', 'u', '0', '0', hexDigit (c.toNat / 16), hexDigit (c.toNat % 16)]
  | plain {c : Char} (hquote : c ≠ '"') (hslash : c ≠ '\\') (h : ¬c.toNat < 0x20) : Spelled c [c]

theorem spelled_escaped (c : Char) : Spelled c (escaped c) := by
  unfold escaped
  split_ifs with h₁ h₂ h₃ h₄ h₅ h₆ h₇ h₈
  · exact .short (by subst h₁; rfl)
  · exact .short (by subst h₂; rfl)
  · exact .short (by subst h₃; rfl)
  · exact .short (by subst h₄; rfl)
  · exact .short (by subst h₅; rfl)
  · exact .short (by subst h₆; rfl)
  · exact .short (by subst h₇; rfl)
  · exact .code h₈
  · exact .plain h₁ h₂ h₈

theorem Spelled.length_pos {c : Char} {text : List Char} (h : Spelled c text) : 0 < text.length := by
  cases h <;> simp

theorem hexDigit?_hexDigit : ∀ n < 16, hexDigit? (hexDigit n) = some n := by decide

theorem codePoint_control {c : Char} (h : c.toNat < 0x20) (rest : List Char) :
    codePoint ('0' :: '0' :: hexDigit (c.toNat / 16) :: hexDigit (c.toNat % 16) :: rest) = .ok (c, rest) := by
  have hfirst := hexDigit?_hexDigit (c.toNat / 16) (by omega)
  have hsecond := hexDigit?_hexDigit (c.toNat % 16) (by omega)
  have hzero : hexDigit? '0' = some 0 := rfl
  have hunit : codeUnit ('0' :: '0' :: hexDigit (c.toNat / 16) :: hexDigit (c.toNat % 16) :: rest) =
      .ok (c.toNat, rest) := by
    simp only [codeUnit, hzero, hfirst, hsecond]
    congr 2
    omega
  have htrailing : isTrailing c.toNat = false := by
    simp only [isTrailing, Bool.and_eq_false_imp, decide_eq_true_eq]
    omega
  have hleading : isLeading c.toNat = false := by
    simp only [isLeading, Bool.and_eq_false_imp, decide_eq_true_eq]
    omega
  rw [codePoint, bind_of_read hunit]
  simp only [htrailing, hleading, Bool.false_eq_true, if_false, Char.ofNat_toNat]
  rfl

theorem stringItems_spelled {c : Char} {text : List Char} (h : Spelled c text) (fuel : Nat) (rest : List Char) :
    stringItems id codePoint (fuel + 1) (text ++ rest) =
      (do return c :: (← stringItems id codePoint fuel) : Reader (List Char)) rest := by
  cases h with
  | @short d h =>
    have hu : d ≠ 'u' := by
      rintro rfl
      contradiction
    have hread : escape id codePoint (d :: rest) = .ok (c, rest) := by
      simp only [escape, if_neg hu, h, id]
    exact bind_of_read hread
  | code h => exact bind_of_read (codePoint_control h rest)
  | plain hquote hslash h =>
    simp only [List.singleton_append, stringItems, if_neg hquote, if_neg hslash, if_neg h, id]

theorem stringItems_flatMap_escaped (cs rest : List Char) {fuel : Nat} (h : cs.length < fuel) :
    stringItems id codePoint fuel (cs.flatMap escaped ++ '"' :: rest) = .ok (cs, rest) := by
  induction cs generalizing fuel with
  | nil =>
    obtain ⟨fuel, rfl⟩ := Nat.exists_eq_add_of_lt h
    rfl
  | cons c cs ih =>
    obtain ⟨fuel, rfl⟩ := Nat.exists_eq_add_of_lt h
    have hfuel : cs.length < cs.length + 1 + fuel := by omega
    have hcs := ih hfuel
    rw [List.flatMap_cons, List.append_assoc, List.length_cons, stringItems_spelled (spelled_escaped c),
      bind_of_read hcs]
    rfl

theorem length_le_flatMap_escaped (cs : List Char) : cs.length ≤ (cs.flatMap escaped).length := by
  induction cs with
  | nil => exact Nat.le_refl 0
  | cons c cs ih =>
    have hc := (spelled_escaped c).length_pos
    simp only [List.flatMap_cons, List.length_cons, List.length_append]
    omega

theorem stringBody_escaped (s : String) (rest : List Char) :
    stringBody (s.toList.flatMap escaped ++ '"' :: rest) = .ok (s, rest) := by
  have hle := length_le_flatMap_escaped s.toList
  have hfuel : s.toList.length < (s.toList.flatMap escaped ++ '"' :: rest).length + 1 := by
    simp only [List.length_append]
    omega
  have hitems := stringItems_flatMap_escaped s.toList rest hfuel
  rw [stringBody, map_of_read hitems, String.ofList_toList]

end Reversible.Json
