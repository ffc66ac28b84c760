import AtomicCss.Decimal.Reader
import AtomicCss.Options.Loader
import AtomicCss.Property.Grammar
import AtomicCss.Token.Number
import AtomicCss.Value.Number
/-!
# Numbers with units

The canonical spelling of a number with a unit. Units are in lower case; times from ten milliseconds
up are in seconds; a zero angle is `0deg`, a zero time `0s`, and a zero length is `0` except where
the unit matters.
-/

namespace AtomicCss

/-- What can be wrong with a printed value, without the value and its property. -/
inductive Fault where
  | expectedNumber
  | nonFiniteNumber
  | unknownUnit (unit : String)
  | unbalancedParenthesis
  | unclosedFunction
deriving DecidableEq, Repr

namespace Dimension

def lengths : List String :=
  ["px", "em", "rem", "ex", "ch", "cap", "ic", "lh", "rlh", "vw", "vh", "vi", "vb", "vmin", "vmax",
   "svw", "svh", "lvw", "lvh", "dvw", "dvh", "cm", "mm", "q", "in", "pt", "pc", "cqw", "cqh", "cqi",
   "cqb", "cqmin", "cqmax"]

def angles : List String :=
  ["deg", "grad", "rad", "turn"]

/-- Units that are neither lengths nor angles. -/
def others : List String :=
  ["%", "s", "ms", "fr", "hz", "khz", "dpi", "dpcm", "dppx", "x"]

def isLength (unit : String) : Bool :=
  lengths.contains unit

def isAngle (unit : String) : Bool :=
  angles.contains unit

def isKnown (unit : String) : Bool :=
  isLength unit || isAngle unit || others.contains unit

end Dimension

/-- What the spelling of a value depends on besides its text. -/
structure Setting where
  property : String
  options : Options

/-- The finite number that a text spells. -/
def readNumber (text : List Char) : Except Fault Binary64 :=
  match Decimal.read? text with
  | none => .error .expectedNumber
  | some x => if x.isFinite then .ok x else .error .nonFiniteNumber

/-- A number and the unit behind it. -/
def withUnit (x : Binary64) (unit : String) : List Char :=
  formatNumber x ++ unit.toList

/-- Milliseconds: from ten on in seconds. -/
def milliseconds (x : Binary64) : List Char :=
  if x.isZero then withUnit 0 "s"
  else if x.abs.lt 10 then withUnit x "ms"
  else withUnit (x / 1000) "s"

/-- The number and unit after pixels of a font size are turned into `rem`, where that is asked
for. -/
def Setting.convert (setting : Setting) (x : Binary64) (unit : String) : Binary64 × String :=
  if unit = "px" ∧ setting.property = "font-size" ∧ setting.options.fontSizeInRem then
    (roundDecimals (x / setting.options.remBase), "rem")
  else (x, unit)

/-- A number with a unit that is no angle and not milliseconds. A zero length loses its unit
outside of math functions, in properties that do not care. -/
def Setting.plainDimension (setting : Setting) (insideMath : Bool) (x : Binary64) (unit : String) :
    List Char :=
  let (x, unit) := setting.convert x unit
  if x.isZero ∧ Dimension.isLength unit ∧ !insideMath ∧
      !Property.keepsZeroUnits setting.property then
    ['0']
  else withUnit x unit

/-- The canonical spelling of a dimension whose number is read and rounded. -/
def Setting.dimensionOf (setting : Setting) (insideMath : Bool) (x : Binary64) (unit : String) :
    Except Fault (List Char) :=
  if Dimension.isAngle unit then .ok (if x.isZero then withUnit 0 "deg" else withUnit x unit)
  else if unit = "ms" then .ok (milliseconds x)
  else if unit = "s" ∧ x.isZero then .ok (withUnit 0 "s")
  else if Dimension.isKnown unit then .ok (setting.plainDimension insideMath x unit)
  else .error (.unknownUnit unit)

/-- The canonical spelling of a dimension. -/
def Setting.dimension (setting : Setting) (insideMath : Bool) (text : List Char) :
    Except Fault (List Char) := do
  let x := roundDecimals (← readNumber (Token.splitDimension text).1)
  setting.dimensionOf insideMath x (String.ofList (lowercase (Token.splitDimension text).2))

end AtomicCss
