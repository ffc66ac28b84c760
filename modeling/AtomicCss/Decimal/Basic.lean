/-!
# Decimal digits

Digit strings and decimal numbers `coefficient · 10 ^ exponent`.
-/

namespace AtomicCss

def powerOfTen (n : Nat) : Nat :=
  Nat.pow 10 n

/-- The decimal number `coefficient · 10 ^ exponent`. -/
structure Decimal where
  coefficient : Nat
  exponent : Int
deriving DecidableEq, Repr

namespace Decimal

/-- The digit character of a number below ten. -/
def digitChar (d : Nat) : Char :=
  Char.ofNat ('0'.toNat + d)

/-- The number that a digit character stands for. -/
def digitValue (c : Char) : Nat :=
  c.toNat - '0'.toNat

/-- The decimal digits of `n` in front of `rest`. -/
def digitsOnto (n : Nat) (rest : List Char) : List Char :=
  if n < 10 then digitChar n :: rest
  else digitsOnto (n / 10) (digitChar (n % 10) :: rest)
termination_by n

/-- The decimal digits of `n`, without leading zeros; `0` has one digit. -/
def digits (n : Nat) : List Char :=
  digitsOnto n []

/-- The number that a string of digits spells; the empty string spells zero. -/
def ofDigits (cs : List Char) : Nat :=
  cs.foldl (fun n c => 10 * n + digitValue c) 0

/-- The text of an integer. -/
def integer (n : Int) : List Char :=
  if n < 0 then '-' :: digits n.natAbs else digits n.natAbs

end Decimal

end AtomicCss
