import AtomicCss.Json.Basic
import AtomicCss.KeyMap
/-!
# JSON as written

A document keeps what a text says before any of it is interpreted: digits of numbers, escapes of
strings, and all members of an object in their order. `Document.toJson?` gives the value that it
stands for, if it has one.

Three things can keep a well-formed document from having a value: a number beyond the range of
doubles, half of a surrogate pair, and nesting deeper than `maxDepth`.
-/

namespace AtomicCss.Json

/-- A piece of a string: a character, or a UTF-16 code unit written as `\u` and four digits. -/
inductive Piece where
  | char (c : Char)
  | unit (n : Nat)
deriving DecidableEq, Repr

/-- A number as written. The digits of the fraction and of the exponent are `none` if the part is
not there. -/
structure NumberText where
  negative : Bool
  whole : List Char
  fraction : Option (List Char)
  exponent : Option (Bool × List Char)
deriving DecidableEq, Repr

inductive Document where
  | null
  | bool (b : Bool)
  | number (text : NumberText)
  | string (pieces : List Piece)
  | array (items : List Document)
  | object (members : List (List Piece × Document))

/-! ## Strings -/

def isHighSurrogate (n : Nat) : Bool :=
  0xD800 ≤ n && n ≤ 0xDBFF

def isLowSurrogate (n : Nat) : Bool :=
  0xDC00 ≤ n && n ≤ 0xDFFF

/-- The characters of a string. A high surrogate needs its low one right behind it. -/
def characters? : List Piece → Option (List Char)
  | [] => some []
  | .char c :: rest => (characters? rest).map (c :: ·)
  | .unit high :: rest =>
    if isHighSurrogate high then
      match rest with
      | .unit low :: rest =>
        if isLowSurrogate low then
          let n := 0x10000 + (high - 0xD800) * 0x400 + (low - 0xDC00)
          (characters? rest).map (Char.ofNat n :: ·)
        else none
      | _ => none
    else if isLowSurrogate high then none
    else (characters? rest).map (Char.ofNat high :: ·)

def text? (pieces : List Piece) : Option String :=
  (characters? pieces).map String.ofList

/-! ## Numbers

A significand holds the leading digits that fit 64 bits. A double is the significand, scaled by a
power of ten in one product or quotient of doubles, so it is exact for short numbers and may be off
in the last place for long ones.
-/

/-- The largest significand. -/
def maxSignificand : Nat := powerOfTwo 64 - 1

/-- Digits appended to a significand while it fits, and the digits that are left. -/
def appendDigits (significand : Nat) : List Char → Nat × List Char
  | [] => (significand, [])
  | d :: ds =>
    let next := 10 * significand + Decimal.digitValue d
    if next ≤ maxSignificand then appendDigits next ds else (significand, d :: ds)

/-- A power of ten as a double. -/
def scaleFactor (n : Nat) : Binary64 :=
  .ofNat (powerOfTen n)

/-- The largest power of ten that is a double. -/
def maxPower : Nat := 308

/-- A double divided by a power of ten, in as many steps as the power needs. -/
def scaleDown (x : Binary64) (n : Nat) : Binary64 :=
  if n ≤ maxPower then x / scaleFactor n
  else if x.isZero then x
  else scaleDown (x / scaleFactor maxPower) (n - maxPower)
termination_by n
decreasing_by simp_all [maxPower]; omega

/-- A significand scaled by a power of ten; there is no result if it leaves the finite range. -/
def scale? (significand : Nat) (exponent : Int) : Option Binary64 :=
  let x := Binary64.ofNat significand
  if exponent < 0 then some (scaleDown x exponent.natAbs)
  else if x.isZero then some x
  else if (maxPower : Int) < exponent then none
  else
    let scaled := x * scaleFactor exponent.toNat
    if scaled.isFinite then some scaled else none

/-- The largest exponent that is read; a larger one is out of range unless it makes no
difference. -/
def maxExponent : Nat := powerOfTwo 31 - 1

/-- The magnitude of a number that is not written as an integer that fits. -/
def NumberText.magnitude? (text : NumberText) : Option Binary64 :=
  let (significand, restWhole) := appendDigits 0 text.whole
  let fraction := text.fraction.getD []
  let (significand, restFraction) := appendDigits significand fraction
  let exponent : Int := restWhole.length - (fraction.length - restFraction.length : Nat)
  match text.exponent with
  | none => scale? significand exponent
  | some (negative, digits) =>
    let n := Decimal.ofDigits digits
    if maxExponent < n then
      if significand ≠ 0 ∧ !negative then none else some (.ofNat 0)
    else scale? significand (if negative then exponent - n else exponent + n)

/-- The number that a text stands for. An integer is kept as one from `-2 ^ 63` to `2 ^ 64 - 1`,
and the integer `-0` is the double. -/
def NumberText.toNumber? (text : NumberText) : Option Number :=
  let n := Decimal.ofDigits text.whole
  let isInteger := text.fraction.isNone && text.exponent.isNone
  if isInteger && !text.negative && decide (n ≤ maxSignificand) then some (.integer n)
  else if isInteger && text.negative && decide (0 < n ∧ n ≤ powerOfTwo 63) then
    some (.integer (-n))
  else text.magnitude?.map fun x => .double (if text.negative then -x else x)

/-! ## Values -/

/-- How deep arrays and objects may nest. -/
def maxDepth : Nat := 127

mutual

/-- The value of a document whose arrays and objects nest at most `depth` deep. -/
def Document.valueWithin? (depth : Nat) : Document → Option Json
  | .null => some .null
  | .bool b => some (.bool b)
  | .number text => text.toNumber?.map .number
  | .string pieces => (text? pieces).map .string
  | .array items =>
    match depth with
    | 0 => none
    | depth + 1 => (Document.itemsWithin? depth items).map .array
  | .object members =>
    match depth with
    | 0 => none
    | depth + 1 => (Document.membersWithin? depth [] members).map .object

def Document.itemsWithin? (depth : Nat) : List Document → Option (List Json)
  | [] => some []
  | item :: rest => do
    let item ← Document.valueWithin? depth item
    let rest ← Document.itemsWithin? depth rest
    some (item :: rest)

/-- Members set one after the other, so that the last one of a name stays. -/
def Document.membersWithin? (depth : Nat) (done : List (String × Json)) :
    List (List Piece × Document) → Option (List (String × Json))
  | [] => some done
  | (name, value) :: rest => do
    let name ← text? name
    let value ← Document.valueWithin? depth value
    Document.membersWithin? depth (Entries.insert name value done) rest

end

def Document.toJson? (document : Document) : Option Json :=
  document.valueWithin? maxDepth

end AtomicCss.Json
