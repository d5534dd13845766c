import Mathlib.Tactic.SplitIfs
import Reversible.Json.Reader

namespace Reversible.Json

section Sequence

variable {α β : Type} {reader : Reader α} {text rest : List Char} {a : α} {p : Problem}

theorem bind_of_read {next : α → Reader β} (h : reader text = .ok (a, rest)) :
    (reader >>= next) text = next a rest := by
  change (reader text >>= fun r => next r.1 r.2) = next a rest
  rw [h]
  rfl

theorem bind_of_problem {next : α → Reader β} (h : reader text = .error p) : (reader >>= next) text = .error p := by
  change (reader text >>= fun r => next r.1 r.2) = .error p
  rw [h]
  rfl

theorem map_of_read {f : α → β} (h : reader text = .ok (a, rest)) : (f <$> reader) text = .ok (f a, rest) := by
  change ((fun r => (f r.1, r.2)) <$> reader text) = .ok (f a, rest)
  rw [h]
  rfl

end Sequence

/-- What stands behind a value: a sign that goes on with the list or object around it, or the end of the text. -/
def Follows (rest : List Char) : Prop :=
  ∀ c ∈ rest.head?, c ∈ [',', ']', '}']

theorem follows_nil : Follows [] := by
  simp [Follows]

theorem follows_cons {c : Char} (hc : c ∈ [',', ']', '}']) (rest : List Char) : Follows (c :: rest) := by
  simpa [Follows] using hc

theorem skipBlanks_of_not_blank {c : Char} (h : isBlank c = false) (cs : List Char) :
    skipBlanks (c :: cs) = c :: cs := by
  simp [skipBlanks, h]

section Another

variable {close c : Char} (rest : List Char)

theorem another_close (hblank : isBlank close = false) (first : Bool) :
    another close first (close :: rest) = .ok (false, rest) := by
  rw [another, skipBlanks_of_not_blank hblank]
  exact if_pos rfl

theorem another_first (hblank : isBlank c = false) (hclose : c ≠ close) :
    another close true (c :: rest) = .ok (true, c :: rest) := by
  rw [another, skipBlanks_of_not_blank hblank]
  exact if_neg hclose

theorem another_comma (hcomma : ',' ≠ close) (hblank : isBlank c = false) (hclose : c ≠ close) :
    another close false (',' :: c :: rest) = .ok (true, c :: rest) := by
  rw [another, skipBlanks_of_not_blank rfl]
  simp [skipBlanks_of_not_blank hblank, hcomma, hclose]

end Another

end Reversible.Json
