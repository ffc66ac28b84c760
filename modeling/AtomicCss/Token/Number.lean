/-!
# Numbers and dimensions in a text

The number pattern is an optional sign, digits with an optional fraction or a bare fraction, and an
optional exponent. Each function here splits off the longest text of one part of it; what was split
off and what is left spell the text that was given.
-/

namespace AtomicCss.Token

/-- A sign at the front of a text. -/
def spanSign : List Char → List Char × List Char
  | '+' :: rest => (['+'], rest)
  | '-' :: rest => (['-'], rest)
  | cs => ([], cs)

/-- A point with at least one digit behind it. -/
def spanFraction : List Char → List Char × List Char
  | '.' :: d :: rest =>
    if d.isDigit then ('.' :: d :: rest.takeWhile Char.isDigit, rest.dropWhile Char.isDigit)
    else ([], '.' :: d :: rest)
  | cs => ([], cs)

/-- Sign, digits and fraction. -/
def spanMantissa? (cs : List Char) : Option (List Char × List Char) :=
  let (sign, unsigned) := spanSign cs
  let whole := unsigned.takeWhile Char.isDigit
  let (fraction, rest) := spanFraction (unsigned.dropWhile Char.isDigit)
  if whole.isEmpty && fraction.isEmpty then none else some (sign ++ whole ++ fraction, rest)

/-- An `e` with digits behind it, perhaps after a sign. -/
def spanExponent : List Char → List Char × List Char
  | [] => ([], [])
  | e :: cs =>
    if e = 'e' ∨ e = 'E' then
      match (spanSign cs).2 with
      | [] => ([], e :: cs)
      | d :: rest =>
        if d.isDigit then
          (e :: (spanSign cs).1 ++ d :: rest.takeWhile Char.isDigit, rest.dropWhile Char.isDigit)
        else ([], e :: cs)
    else ([], e :: cs)

/-- A percent sign, or letters. -/
def spanUnit : List Char → List Char × List Char
  | '%' :: rest => (['%'], rest)
  | cs => (cs.takeWhile Char.isAlpha, cs.dropWhile Char.isAlpha)

/-- Characters of a mantissa: digits, point and signs. -/
def isMantissaChar (c : Char) : Bool :=
  c.isDigit || c == '.' || c == '+' || c == '-'

/-- A dimension as its number and its unit. The text is taken to be a dimension, so that its first
character that is no part of a mantissa begins an exponent or the unit. An `e` starts an exponent
only when digits follow it: `1.5e3px` is `1.5e3` and `px`, `3ex` is `3` and `ex`. -/
def splitDimension (text : List Char) : List Char × List Char :=
  let (exponent, unit) := spanExponent (text.dropWhile isMantissaChar)
  (text.takeWhile isMantissaChar ++ exponent, unit)

/-- An `e` with a sign but no digits behind it. -/
def startsDanglingExponent : List Char → Bool
  | [] => false
  | e :: cs =>
    (e == 'e' || e == 'E') && !(spanSign cs).1.isEmpty &&
      !((spanSign cs).2.head?.any Char.isDigit)

/-! ## What is split off and what is left -/

/-- A sign and what is left make up the text. -/
theorem spanSign_append (cs : List Char) : (spanSign cs).1 ++ (spanSign cs).2 = cs := by
  unfold spanSign
  split <;> rfl

/-- A fraction and what is left make up the text. -/
theorem spanFraction_append (cs : List Char) :
    (spanFraction cs).1 ++ (spanFraction cs).2 = cs := by
  unfold spanFraction
  split
  · split
    · simp
    · rfl
  · rfl

/-- A mantissa and what is left make up the text, and the mantissa is not empty. -/
theorem spanMantissa?_append {cs mantissa rest : List Char}
    (h : spanMantissa? cs = some (mantissa, rest)) : mantissa ++ rest = cs ∧ mantissa ≠ [] := by
  simp only [spanMantissa?] at h
  split at h
  · simp at h
  · rename_i hne
    obtain ⟨rfl, rfl⟩ := by simpa using h
    constructor
    · simp only [List.append_assoc, spanFraction_append, List.takeWhile_append_dropWhile,
        spanSign_append]
    · intro hnil
      simp_all

/-- An exponent and what is left make up the text. -/
theorem spanExponent_append (cs : List Char) :
    (spanExponent cs).1 ++ (spanExponent cs).2 = cs := by
  unfold spanExponent
  split
  · rfl
  · rename_i e cs
    split
    · have hsign := spanSign_append cs
      split
      · rfl
      · rename_i d rest hdigits
        split
        · rw [hdigits] at hsign
          simpa using hsign
        · rfl
    · rfl

/-- A unit and what is left make up the text. -/
theorem spanUnit_append (cs : List Char) : (spanUnit cs).1 ++ (spanUnit cs).2 = cs := by
  unfold spanUnit
  split
  · rfl
  · simp

end AtomicCss.Token
