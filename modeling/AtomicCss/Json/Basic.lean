import AtomicCss.Binary64
import AtomicCss.Decimal.Shortest
import AtomicCss.Decimal.Layout
/-!
# JSON values

What a JSON document means. An object lists its members by name, each name once, in the order that
`KeyMap` has. A number is an integer if it is written as one and fits 64 bits, otherwise a double.
-/

namespace AtomicCss

inductive Json.Number where
  | integer (n : Int)
  | double (x : Binary64)
deriving DecidableEq

inductive Json where
  | null
  | bool (b : Bool)
  | number (n : Json.Number)
  | string (s : String)
  | array (items : List Json)
  | object (members : List (String × Json))

namespace Json

instance : Inhabited Json := ⟨null⟩

/-- Whether a value is a number or a text. -/
def isScalar : Json → Bool
  | number _ | string _ => true
  | _ => false

/-- The double closest to a number. -/
def Number.toBinary64 : Number → Binary64
  | integer n => .ofInt n
  | double x => x

/-- Text of a double that shows it is one: positional from `1e-5` up to `1e16`, with `.0` after a
whole number, and in exponent notation outside. -/
def doubleText : Binary64 → List Char
  | .finite negative units _ =>
    let body :=
      if units = 0 then ['0', '.', '0']
      else
        let d := Decimal.shortest .even units
        if -5 ≤ d.magnitude ∧ d.magnitude < 16 then
          if d.exponent < 0 then d.positional else d.positional ++ ['.', '0']
        else d.scientific
    if negative then '-' :: body else body
  | .infinite negative => (if negative then "-inf" else "inf").toList
  | .nan => "NaN".toList

def Number.text : Number → List Char
  | integer n => Decimal.integer n
  | double x => doubleText x

end Json

end AtomicCss
