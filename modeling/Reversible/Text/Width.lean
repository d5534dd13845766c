import Reversible.Text.Ranges

/-!
How many columns of a screen a text takes. Most characters take one, none or two of their own, but some take part in
ligatures, and emoji are built from several characters. A text is measured from its end to its beginning, and each
character is told what stands to its right.
-/

namespace Reversible.Text

inductive Join where
  | none
  | emoji
  | modifier
  | indicator
  | indicators
  | joinedEmoji
  | joinedKeycap
  | joinedIndicator
  | joinedEvenIndicators
  | joinedOddIndicators
  /-- The end of a tagged flag, before it so many letters, a joiner and then an emoji. -/
  | joinedTagLetters (count : Nat)
  | joinedTagDigits (count : Nat)
  | arabicAlef
  | hebrewLamed (joiner : Bool)
  | khmerSubscript
  | bugineseYa (joiner : Bool)
  | bugineseVowelYa
  | tifinaghConsonant (joiner : Bool)
  | tifinaghJoinerConsonant
  | lisuTone
  | orkhonI (joiner : Bool)
  deriving DecidableEq

namespace Join

def isLigature : Join → Bool
  | arabicAlef => true
  | hebrewLamed _ => true
  | khmerSubscript => true
  | bugineseYa _ => true
  | bugineseVowelYa => true
  | tifinaghConsonant _ => true
  | tifinaghJoinerConsonant => true
  | lisuTone => true
  | orkhonI _ => true
  | _ => false

def withJoiner : Join → Join
  | hebrewLamed _ => hebrewLamed true
  | bugineseYa _ => bugineseYa true
  | tifinaghConsonant _ => tifinaghConsonant true
  | orkhonI _ => orkhonI true
  | j => j

end Join

/-- A variation selector asks for the character before it as text or as emoji. -/
inductive Selector where
  | none
  | text
  | emoji
  deriving DecidableEq

structure Right where
  join : Join := .none
  selector : Selector := .none

def isBetween (first last : Nat) (c : Char) : Bool :=
  first ≤ c.toNat && c.toNat ≤ last

def isIndicator (c : Char) : Bool := isBetween 0x1F1E6 0x1F1FF c

def isModifier (c : Char) : Bool := isBetween 0x1F3FB 0x1F3FF c

def isEmoji (c : Char) : Bool := inRanges emojiRanges c.toNat

def takesEmojiSelector (c : Char) : Bool := inRanges variationRanges c.toNat

/-- Whether the character, an emoji by itself, becomes narrow when it is asked for as text. The enclosed ideographs stay
wide. -/
def narrowsAsText (c : Char) : Bool :=
  takesEmojiSelector c && isEmoji c && !isBetween 0x1F200 0x1F2FF c

def isIgnoredMark (c : Char) : Bool :=
  c.toNat = 0x034F || isBetween 0x17B4 0x17B5 c || isBetween 0x180B 0x180D c || c.toNat = 0x180F ||
    c.toNat = 0x200D || isBetween 0xFE00 0xFE0F c || isBetween 0xE0100 0xE01EF c

def isArabicAlef (c : Char) : Bool :=
  isBetween 0x0622 0x0623 c || c.toNat = 0x0625 || c.toNat = 0x0627 || isBetween 0x0671 0x0673 c ||
    c.toNat = 0x0675 || isBetween 0x0773 0x0774 c || isBetween 0x0870 0x0882 c

def isArabicLam (c : Char) : Bool :=
  c.toNat = 0x0644 || isBetween 0x06B5 0x06B8 c || c.toNat = 0x076A || c.toNat = 0x08A6 || c.toNat = 0x08C7

def isKhmerSubscript (c : Char) : Bool :=
  isBetween 0x1780 0x1782 c || isBetween 0x1784 0x1787 c || isBetween 0x1789 0x178C c || isBetween 0x178E 0x1793 c ||
    isBetween 0x1795 0x1798 c || isBetween 0x179B 0x179D c || c.toNat = 0x17A0 || c.toNat = 0x17A2 ||
    c.toNat = 0x17A7 || isBetween 0x17AB 0x17AC c || c.toNat = 0x17AF

def isTifinaghConsonant (c : Char) : Bool :=
  isBetween 0x2D31 0x2D65 c || c.toNat = 0x2D6F

def ownJoin (c : Char) : Join :=
  let n := c.toNat
  if n = 0x05DC then .hebrewLamed false
  else if isArabicAlef c then .arabicAlef
  else if isKhmerSubscript c then .khmerSubscript
  else if n = 0x1A10 then .bugineseYa false
  else if isTifinaghConsonant c then .tifinaghConsonant false
  else if isBetween 0xA4FC 0xA4FD c then .lisuTone
  else if n = 0x10C03 then .orkhonI false
  else if isIndicator c then .indicator
  else if isModifier c then .modifier
  else if isEmoji c then .emoji
  else .none

/-- The width of a character that stands alone. Control characters count one. -/
def charWidth (c : Char) : Nat :=
  if c.toNat ≤ 0xA0 then 1
  else if inRanges zeroWidthRanges c.toNat then 0
  else if c.toNat = 0x17D8 then 3
  else if inRanges wideRanges c.toNat then 2
  else 1

def isArabicTransparent (c : Char) : Bool :=
  charWidth c = 0 && !inRanges separatingRanges c.toNat

def joining (j : Join) (c : Char) : Option (Int × Join) :=
  let n := c.toNat
  match j with
  | .arabicAlef =>
    if isArabicLam c then some (0, .none) else if isArabicTransparent c then some (0, .arabicAlef) else none
  | .hebrewLamed true => if n = 0x05D0 then some (0, .none) else none
  | .khmerSubscript => if n = 0x17D2 then some (-1, .none) else none
  | .bugineseYa true => if n = 0x1A17 then some (0, .bugineseVowelYa) else none
  | .bugineseVowelYa => if n = 0x1A15 then some (0, .none) else none
  | .tifinaghConsonant joiner =>
    if n = 0x2D7F then some (1, .tifinaghJoinerConsonant)
    else if joiner && isTifinaghConsonant c then some (0, .none)
    else none
  | .tifinaghJoinerConsonant => if isTifinaghConsonant c then some (-1, .none) else none
  | .lisuTone => if isBetween 0xA4F8 0xA4FB c then some (0, .none) else none
  | .orkhonI true => if n = 0x10C32 then some (0, .none) else none
  | .modifier =>
    if inRanges modifierBaseRanges n then some (0, .emoji) else if n = 0x200D then some (0, .joinedEmoji) else none
  | .indicator => if isIndicator c then some (1, .indicators) else none
  | .indicators =>
    if isIndicator c then some (1, .indicators) else if n = 0x200D then some (0, .joinedEmoji) else none
  | .emoji => if n = 0x200D then some (0, .joinedEmoji) else none
  | .joinedEmoji =>
    if n = 0x20E3 then some (0, .joinedKeycap)
    else if isIndicator c then some (1, .joinedIndicator)
    else if isModifier c then some (0, .modifier)
    else if n = 0xE007F then some (0, .joinedTagLetters 0)
    else if isEmoji c then some (0, .emoji)
    else none
  | .joinedIndicator => if isIndicator c then some (-1, .joinedEvenIndicators) else none
  | .joinedEvenIndicators =>
    if isIndicator c then some (3, .joinedOddIndicators) else if n = 0x200D then some (0, .joinedEmoji) else none
  | .joinedOddIndicators =>
    if isIndicator c then some (-1, .joinedEvenIndicators) else if n = 0x200D then some (0, .joinedEmoji) else none
  | .joinedTagLetters count =>
    if isBetween 0xE0061 0xE007A c ∧ count < 6 then some (0, .joinedTagLetters (count + 1))
    else if isBetween 0xE0030 0xE0039 c ∧ count < 5 then some (0, .joinedTagDigits 1)
    else if n = 0x1F3F4 ∧ 3 ≤ count then some (0, .emoji)
    else none
  | .joinedTagDigits count =>
    if isBetween 0xE0030 0xE0039 c ∧ count < 3 then some (0, .joinedTagDigits (count + 1))
    else if n = 0x1F3F4 ∧ count = 3 then some (0, .emoji)
    else none
  | _ => none

def placed (c : Char) (j : Join) : Int × Right :=
  if j.isLigature ∧ j ≠ .arabicAlef ∧ isIgnoredMark c then
    (0, { join := if c.toNat = 0x200D then j.withJoiner else j })
  else
    match joining j c with
    | some (width, j) => (width, { join := j })
    | none => (charWidth c, { join := ownJoin c })

def measured (c : Char) (right : Right) : Int × Right :=
  if right.selector = .emoji ∧ takesEmojiSelector c then
    (if right.join = .joinedEmoji ∨ right.join = .joinedKeycap then 0 else 2, { join := .emoji })
  else
    let j := if right.selector = .emoji ∧ !right.join.isLigature then Join.none else right.join
    if c.toNat ≤ 0xA0 then (1, {})
    else if c.toNat = 0xFE0F then
      (0, { join := if j.isLigature ∨ j = .joinedEmoji ∨ j = .joinedKeycap then j else .none, selector := .emoji })
    else if c.toNat = 0xFE0E then (0, { join := if j.isLigature then j else .none, selector := .text })
    else if right.selector = .text ∧ narrowsAsText c then (1, {})
    else placed c j

def width (cs : List Char) : Nat :=
  (cs.foldr (fun c (total, right) =>
    let (added, right) := measured c right
    (total + added, right)) ((0 : Int), ({} : Right))).1.toNat

end Reversible.Text
