import AtomicCss.Decimal.Shortest
import AtomicCss.Decimal.Layout
/-!
# Numbers in values

Numbers are rounded to four decimals and printed with the fewest digits, in positional notation and
without a zero in front of the point.
-/

namespace AtomicCss

/-- Rounding to four decimals, by scaling up, rounding to a whole number and scaling down. A number
that is too large to be scaled has no decimals to lose. -/
def roundDecimals (x : Binary64) : Binary64 :=
  let scaled := x * 10000
  if scaled.isFinite then scaled.round / 10000 else x

/-- A text without the zero in front of its point. -/
def dropLeadingZero : List Char → List Char
  | '0' :: '.' :: rest => '.' :: rest
  | '-' :: '0' :: '.' :: rest => '-' :: '.' :: rest
  | cs => cs

/-- A number in positional notation with the fewest digits that read back; zero has no sign. -/
def positionalText : Binary64 → List Char
  | .finite negative units _ =>
    if units = 0 then ['0']
    else
      let body := (Decimal.shortest .upper units).positional
      if negative then '-' :: body else body
  | .infinite negative => (if negative then "-inf" else "inf").toList
  | .nan => "NaN".toList

/-- The text of a number in a value. -/
def formatNumber (x : Binary64) : List Char :=
  dropLeadingZero (positionalText (roundDecimals x))

end AtomicCss
