import Reversible.Json.Reader

/-!
Numbers in JSON text. A number is refused as malformed if it is too large for a double, even where no double is wanted;
the test follows the way in which a double is computed from the digits, with the significand cut off at 64 bits.
-/

namespace Reversible.Json

structure Numeral where
  negative : Bool
  whole : List Char
  fraction : Option (List Char)
  exponent : Option (Bool × List Char)

def digits : Reader (List Char) := fun text =>
  match text with
  | [] => .error .truncated
  | c :: _ =>
    if c.isDigit then .ok (text.takeWhile Char.isDigit, text.dropWhile Char.isDigit)
    else .error .malformed

def wholeDigits : Reader (List Char) := do
  let ds ← digits
  match ds with
  | '0' :: _ :: _ => throw .malformed
  | ds => return ds

def minus : Reader Bool := fun text =>
  match text with
  | '-' :: rest => .ok (true, rest)
  | rest => .ok (false, rest)

def fractionDigits : Reader (Option (List Char)) := fun text =>
  match text with
  | '.' :: rest => (some <$> digits : Reader _) rest
  | rest => .ok (none, rest)

def exponentSign : Reader Bool := fun text =>
  match text with
  | '+' :: rest => .ok (false, rest)
  | '-' :: rest => .ok (true, rest)
  | rest => .ok (false, rest)

def exponentDigits : Reader (Option (Bool × List Char)) := fun text =>
  match text with
  | c :: rest =>
    if c = 'e' ∨ c = 'E' then
      (do
        let sign ← exponentSign
        let ds ← digits
        return some (sign, ds) : Reader _) rest
    else .ok (none, c :: rest)
  | [] => .ok (none, [])

def numeral : Reader Numeral := do
  let negative ← minus
  let whole ← wholeDigits
  let fraction ← fractionDigits
  let exponent ← exponentDigits
  return { negative, whole, fraction, exponent }

def ofDigits (ds : List Char) : Nat :=
  Nat.ofDigitChars 10 ds 0

/-- Appends digits to a significand as long as it stays below 2^64. Gives the significand and how many digits
were left over. -/
def absorb (significand : Nat) : List Char → Nat × Nat
  | [] => (significand, 0)
  | d :: ds =>
    let next := Nat.ofDigitChars 10 [d] significand
    if next < 0x10000000000000000 then absorb next ds else (significand, ds.length + 1)

/-- The nearest number of at most 53 significant bits, a tie going to the even neighbour. -/
def roundSignificant (n : Nat) : Nat :=
  let unit := 1 <<< (n.log2 + 1 - 53)
  let q := n / unit
  let r := n % unit
  if unit < 2 * r ∨ (unit = 2 * r ∧ q % 2 = 1) then (q + 1) * unit else q * unit

/-- The product of the significand and the power of ten, each rounded to a double, is below the point from which
a double is infinite. -/
def isFinite (significand : Nat) (exponent : Int) : Bool :=
  if significand = 0 ∨ exponent < 0 then true
  else if 308 < exponent then false
  else roundSignificant significand * roundSignificant (Nat.pow 10 exponent.toNat) < (1 <<< 1024) - (1 <<< 970)

namespace Numeral

def exponentValue (n : Numeral) : Int :=
  match n.exponent with
  | none => 0
  | some (true, ds) => -(ofDigits ds : Int)
  | some (false, ds) => ofDigits ds

def isFinite (n : Numeral) : Bool :=
  let (whole, extra) := absorb 0 n.whole
  let fraction := n.fraction.getD []
  let (significand, ignored) := absorb whole fraction
  Json.isFinite significand (n.exponentValue + extra - (fraction.length - ignored : Nat))

/-- The value of a number that is written as a 64-bit integer. Minus zero is none. -/
def int64? (n : Numeral) : Option Int64 :=
  match n.fraction, n.exponent with
  | none, none =>
    let magnitude := ofDigits n.whole
    if n.negative then
      if 0 < magnitude ∧ magnitude ≤ 0x8000000000000000 then some (Int64.ofInt (-magnitude)) else none
    else
      if magnitude < 0x8000000000000000 then some (Int64.ofInt magnitude) else none
  | _, _ => none

end Numeral

def number : Reader Numeral := do
  let n ← numeral
  if n.isFinite then return n else throw .malformed

/-- Takes a number of any size. A number that is cut short is malformed, even at the end of the text. -/
def skipNumber : Reader Unit := fun text =>
  match numeral text with
  | .ok (_, rest) => .ok ((), rest)
  | .error _ => .error .malformed

end Reversible.Json
