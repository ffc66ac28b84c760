import AtomicCss.Decimal.Basic
/-!
# Laying out a decimal

A decimal in positional notation, `12.5` or `0.001`, and in exponent notation, `1.25e+20`.
-/

namespace AtomicCss.Decimal

/-- Positional notation: at least one digit before the point, and a point only if digits follow. -/
def positional (d : Decimal) : List Char :=
  let ds := digits d.coefficient
  if 0 ≤ d.exponent then
    ds ++ List.replicate d.exponent.toNat '0'
  else
    let places := d.exponent.natAbs
    if places < ds.length then
      ds.take (ds.length - places) ++ '.' :: ds.drop (ds.length - places)
    else
      '0' :: '.' :: List.replicate (places - ds.length) '0' ++ ds

/-- The power of ten of the first digit. -/
def magnitude (d : Decimal) : Int :=
  d.exponent + (digits d.coefficient).length - 1

/-- Exponent notation: one digit before the point, and a sign on the exponent. -/
def scientific (d : Decimal) : List Char :=
  let mantissa :=
    match digits d.coefficient with
    | first :: second :: rest => first :: '.' :: second :: rest
    | short => short
  let exponent := d.magnitude
  mantissa ++ 'e' :: (if exponent < 0 then '-' else '+') :: digits exponent.natAbs

end AtomicCss.Decimal
