import AtomicCss.Binary64
import AtomicCss.Decimal.Basic
/-!
# Reading a decimal

`Decimal.read?` reads decimal text as the closest number of the format: an optional sign, digits
with an optional point among or beside them, and an optional exponent, or one of the words `inf`,
`infinity` and `nan` in any case.
-/

namespace AtomicCss.Decimal

/-- The digits at the front of a text, and what follows them. -/
def spanDigits (cs : List Char) : List Char × List Char :=
  cs.span Char.isDigit

/-- A sign at the front of a text: whether it is a minus, and what follows. -/
def splitSign : List Char → Bool × List Char
  | '-' :: rest => (true, rest)
  | '+' :: rest => (false, rest)
  | cs => (false, cs)

/-- The number closest to `± coefficient · 10 ^ exponent`. A decimal whose first digit stands
beyond `10 ^ 400` or below `10 ^ -400` is out of range on sight. -/
def toBinary64 (negative : Bool) (coefficient : Nat) (exponent : Int) : Binary64 :=
  if coefficient = 0 then .ofUnits negative 0
  else
    let size := exponent + (digits coefficient).length
    if 400 < size then .infinite negative
    else if size < -400 then .ofUnits negative 0
    else .ofRatio negative (coefficient * powerOfTen exponent.toNat) (powerOfTen (-exponent).toNat)

/-- An exponent part that ends the text: nothing, or `e` with an optional sign and digits. -/
def readExponent? : List Char → Option Int
  | [] => some 0
  | e :: cs =>
    if e = 'e' ∨ e = 'E' then
      let (negative, ds) := splitSign cs
      if ds.isEmpty ∨ !ds.all Char.isDigit then none
      else some (if negative then -ofDigits ds else ofDigits ds)
    else none

/-- Digits with an optional point and an optional exponent, and nothing else. -/
def readUnsigned? (negative : Bool) (cs : List Char) : Option Binary64 :=
  let (whole, rest) := spanDigits cs
  let (fraction, rest) :=
    match rest with
    | '.' :: rest => spanDigits rest
    | rest => ([], rest)
  if whole.isEmpty ∧ fraction.isEmpty then none
  else do
    let exponent ← readExponent? rest
    some (toBinary64 negative (ofDigits (whole ++ fraction)) (exponent - fraction.length))

/-- The number closest to a decimal text, if it is one. -/
def read? (cs : List Char) : Option Binary64 :=
  let (negative, rest) := splitSign cs
  let word := String.ofList (rest.map Char.toLower)
  if word = "inf" ∨ word = "infinity" then some (.infinite negative)
  else if word = "nan" then some .nan
  else readUnsigned? negative rest

end AtomicCss.Decimal
