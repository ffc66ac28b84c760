/-!
# Binary64 numbers

The double precision format of IEEE 754, computed exactly. Every finite number of the format is a
whole multiple of `2 ^ -1074`, so a magnitude is kept as that multiple: one natural number per
value, compared and added like any other.

A product or quotient is the exact rational rounded once, by `nearest`, to the closest number of
the format; a tie goes to the neighbour whose last digit is even.
-/

namespace AtomicCss

def powerOfTwo (n : Nat) : Nat :=
  Nat.pow 2 n

theorem powerOfTwo_pos (n : Nat) : 0 < powerOfTwo n :=
  Nat.two_pow_pos n

/-- Rounding of the quotient `num / den` to a whole number; a half goes to the even neighbour. -/
def roundHalfEven (num den : Nat) : Nat :=
  let quotient := num / den
  let rest := num % den
  if den < 2 * rest ∨ (2 * rest = den ∧ quotient % 2 = 1) then quotient + 1 else quotient

/-- Rounding of the quotient `num / den` to a whole number; a half goes up. -/
def roundHalfUp (num den : Nat) : Nat :=
  (2 * num + den) / (2 * den)

namespace Binary64

/-- The unit of a magnitude is `2 ^ -unitExponent`. -/
def unitExponent : Nat := 1074

/-- Leading binary digits of a magnitude that count. -/
def precision : Nat := 53

/-- How many units make up one. -/
def one : Nat := powerOfTwo unitExponent

/-- The first count of units beyond the largest finite number. -/
def limit : Nat := powerOfTwo (1024 + unitExponent)

/-- The distance between neighbours at `units`: below `2 ^ 53` units every count is a number of the
format, above it only multiples of a power of two are. -/
def spacing (units : Nat) : Nat :=
  powerOfTwo (units.log2 + 1 - precision)

/-- A count of units that is a number of the format. -/
def Representable (units : Nat) : Prop :=
  units < limit ∧ units % spacing units = 0

instance (units : Nat) : Decidable (Representable units) :=
  inferInstanceAs (Decidable (_ ∧ _))

theorem limit_pos : 0 < limit :=
  powerOfTwo_pos _

theorem representable_zero : Representable 0 :=
  ⟨limit_pos, Nat.zero_mod _⟩

end Binary64

/-- A number of the format. Zero keeps its sign, and there is one not-a-number. -/
inductive Binary64
  | finite (negative : Bool) (units : Nat) (representable : Binary64.Representable units)
  | infinite (negative : Bool)
  | nan
deriving DecidableEq

namespace Binary64

/-- The number with the given sign and magnitude, infinite if the magnitude is out of range. -/
def ofUnits (negative : Bool) (units : Nat) : Binary64 :=
  if h : Representable units then .finite negative units h else .infinite negative

/-- The count of units closest to the exact count `num / den`. -/
def nearestUnits (num den : Nat) : Nat :=
  let step := spacing (num / den)
  roundHalfEven num (den * step) * step

/-- The number closest to `num / den`. -/
def ofRatio (negative : Bool) (num den : Nat) : Binary64 :=
  ofUnits negative (nearestUnits (num * one) den)

/-- The number closest to a natural number. -/
def ofNat (n : Nat) : Binary64 :=
  ofRatio false n 1

/-- The number closest to an integer. -/
def ofInt (n : Int) : Binary64 :=
  ofRatio (decide (n < 0)) n.natAbs 1

instance : OfNat Binary64 n := ⟨ofNat n⟩

instance : Inhabited Binary64 := ⟨0⟩

def isFinite : Binary64 → Bool
  | finite .. => true
  | _ => false

/-- True of both zeros. -/
def isZero : Binary64 → Bool
  | finite _ units _ => units == 0
  | _ => false

def isNegative : Binary64 → Bool
  | finite negative .. => negative
  | infinite negative => negative
  | nan => false

def neg : Binary64 → Binary64
  | finite negative units h => finite (!negative) units h
  | infinite negative => infinite (!negative)
  | nan => nan

def abs : Binary64 → Binary64
  | finite _ units h => finite false units h
  | infinite _ => infinite false
  | nan => nan

def mul : Binary64 → Binary64 → Binary64
  | finite s a _, finite t b _ => ofUnits (s ^^ t) (nearestUnits (a * b) one)
  | nan, _ => nan
  | _, nan => nan
  | infinite s, y => if y.isZero then nan else infinite (s ^^ y.isNegative)
  | x, infinite t => if x.isZero then nan else infinite (x.isNegative ^^ t)

/-- A quotient by zero is infinite, and zero by zero or infinite by infinite is not a number. -/
def div : Binary64 → Binary64 → Binary64
  | finite s a _, finite t b _ =>
    if b = 0 then if a = 0 then nan else infinite (s ^^ t)
    else ofUnits (s ^^ t) (nearestUnits (a * one) b)
  | nan, _ => nan
  | _, nan => nan
  | infinite _, infinite _ => nan
  | infinite s, y => infinite (s ^^ y.isNegative)
  | x, infinite t => finite (x.isNegative ^^ t) 0 representable_zero

instance : Neg Binary64 := ⟨neg⟩
instance : Mul Binary64 := ⟨mul⟩
instance : Div Binary64 := ⟨div⟩

/-- Rounding to a whole number, a half away from zero. -/
def round : Binary64 → Binary64
  | finite negative units _ => ofUnits negative (roundHalfUp units one * one)
  | x => x

/-- The place of a number on the line, with `-0` just before `0`. Infinity and not-a-number follow
the finite numbers, so that this orders all of them. -/
def position : Binary64 → Int
  | finite false units _ => units
  | finite true units _ => -units - 1
  | infinite false => limit
  | infinite true => -limit - 1
  | nan => limit + 1

/-- Numeric order: both zeros are equal, and not-a-number is comparable with nothing. -/
def le : Binary64 → Binary64 → Bool
  | nan, _ => false
  | _, nan => false
  | x, y => (x.isZero && y.isZero) || decide (x.position ≤ y.position)

def lt (x y : Binary64) : Bool :=
  le x y && !le y x

/-- The digits of a fraction in the interchange format. -/
def fractionBits : Nat := 52

/-- The bit of a minus sign in the interchange format. -/
def signBit (negative : Bool) : Nat :=
  if negative then powerOfTwo 63 else 0

/-- The 64 bits of the interchange format: sign, biased exponent, fraction. -/
def toBits : Binary64 → Nat
  | finite negative units _ =>
    let magnitude :=
      if units < powerOfTwo fractionBits then units
      else
        let shift := units.log2 - fractionBits
        (shift + 1) * powerOfTwo fractionBits + (units / powerOfTwo shift - powerOfTwo fractionBits)
    signBit negative + magnitude
  | infinite negative => signBit negative + 2047 * powerOfTwo fractionBits
  | nan => 2047 * powerOfTwo fractionBits + powerOfTwo (fractionBits - 1)

end Binary64

end AtomicCss
