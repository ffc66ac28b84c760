import AtomicCss.Text.Affix
import AtomicCss.Text.Blank
import AtomicCss.Decimal.Reader
import AtomicCss.Value.Error
import AtomicCss.Value.Number
/-!
# Selectors of keyframes

A selector is a list of percentages from 0 to 100, of which `from` and `to` are the ends.
-/

namespace AtomicCss

/-- The pieces of a text between commas. -/
def splitCommas : List Char → List (List Char)
  | [] => [[]]
  | c :: cs =>
    match splitCommas cs with
    | [] => [[c]]
    | piece :: rest => if c = ',' then [] :: piece :: rest else (c :: piece) :: rest

namespace Keyframes

/-- A canonical selector: its percentages, of which the first one places the step. -/
structure Selector where
  first : Binary64
  rest : List Binary64

/-- The percentage that a piece of a selector gives. -/
def percentage? (piece : List Char) : Option Binary64 :=
  let word := lowercase (trim piece)
  if word = "from".toList then some 0
  else if word = "to".toList then some 100
  else
    match word.reverse with
    | '%' :: number => do
      let x ← Decimal.read? (trim number.reverse)
      if Binary64.le 0 x && x.le 100 then some x else none
    | _ => none

def Selector.parse (text : String) : Except ValueError Selector :=
  match (splitCommas text.toList).mapM percentage? with
  | some (first :: rest) => .ok ⟨first, rest⟩
  | _ => .error (.invalidKeyframeSelector text)

/-- The canonical text of a selector. -/
def Selector.text (selector : Selector) : String :=
  String.ofList <| List.intercalate [','] <|
    (selector.first :: selector.rest).map fun x => formatNumber x ++ ['%']

end Keyframes

end AtomicCss
