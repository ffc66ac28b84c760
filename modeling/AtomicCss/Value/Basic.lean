import AtomicCss.Binary64
/-!
# Values

What authors write for a property: a number or a text, or several of them as fallbacks. A `Value` is
the canonical form, one text for each fallback.
-/

namespace AtomicCss

/-- A single authored value. -/
inductive Scalar where
  | number (x : Binary64)
  | text (s : String)
deriving DecidableEq

/-- An authored value, or fallback values in the order of preference of the author. -/
inductive RawValue where
  | single (scalar : Scalar)
  | fallbacks (scalars : List Scalar)
deriving DecidableEq

def RawValue.scalars : RawValue → List Scalar
  | single scalar => [scalar]
  | fallbacks scalars => scalars

/-- A canonical value: the texts of its fallbacks. -/
structure Value where
  texts : List String
deriving DecidableEq, Repr

namespace Value

/-- The text of a value without fallbacks. -/
def single? (value : Value) : Option String :=
  match value.texts with
  | [text] => some text
  | _ => none

/-- The declarations of a property, one for each fallback. -/
def declarations (value : Value) (property : String) : String :=
  ";".intercalate (value.texts.map fun text => property ++ ":" ++ text)

/-- Separates the fallbacks of a value in the text that it is hashed by. -/
def separator : String := "\x1e"

/-- The text that a value is hashed by. -/
def canonical (value : Value) : String :=
  separator.intercalate value.texts

/-- The value as if it had been authored. -/
def toRaw (value : Value) : RawValue :=
  match value.texts with
  | [text] => .single (.text text)
  | texts => .fallbacks (texts.map .text)

end Value

end AtomicCss
