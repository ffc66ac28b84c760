/-!
# What can be wrong with a value
-/

namespace AtomicCss

/-- Why a value does not fit its property. Most causes name the property and the text at fault. -/
inductive ValueError where
  | unknownUnit (property value unit : String)
  | unclosedFunction (property value : String)
  | unbalancedParenthesis (property value : String)
  | unexpectedInput (property value : String) (offset : Nat)
  | expectedNumber (property value : String)
  | emptyValue (property : String)
  | nonFiniteNumber (property : String)
  | invalidKeyframeSelector (selector : String)
deriving DecidableEq, Repr

namespace ValueError

def message : ValueError → String
  | unknownUnit property value unit =>
    "Unknown unit '" ++ unit ++ "' in '" ++ value ++ "' for property '" ++ property ++ "'"
  | unclosedFunction property value =>
    "Rule contains an unclosed function: '" ++ value ++ "' for property '" ++ property ++ "'"
  | unbalancedParenthesis property value =>
    "Unexpected ')' in '" ++ value ++ "' for property '" ++ property ++ "'"
  | unexpectedInput property value offset =>
    "Unexpected input at " ++ toString offset ++ " in '" ++ value ++ "' for property '" ++
      property ++ "'"
  | expectedNumber property value =>
    "Property '" ++ property ++ "' expects a number, found '" ++ value ++ "'"
  | emptyValue property => "Empty value for property '" ++ property ++ "'"
  | nonFiniteNumber property => "Number for property '" ++ property ++ "' is not finite"
  | invalidKeyframeSelector selector => "Invalid keyframes selector '" ++ selector ++ "'"

/-- The property that the value belongs to. -/
def property? : ValueError → Option String
  | unknownUnit property .. => some property
  | unclosedFunction property _ => some property
  | unbalancedParenthesis property _ => some property
  | unexpectedInput property .. => some property
  | expectedNumber property _ => some property
  | emptyValue property => some property
  | nonFiniteNumber property => some property
  | invalidKeyframeSelector _ => none

end ValueError

end AtomicCss
