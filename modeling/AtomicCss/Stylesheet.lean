import AtomicCss.Rule
/-!
# Stylesheets

Rules in the order of priority and text, each once.
-/

namespace AtomicCss

structure Stylesheet where
  rules : List Rule
deriving DecidableEq, Repr

namespace Stylesheet

/-- Drops each rule that has the text of the one kept before it, which is `last` at the start. -/
def dropRepeatsAfter (last : Rule) : List Rule → List Rule
  | [] => []
  | rule :: rest =>
    if rule.text = last.text then dropRepeatsAfter last rest
    else rule :: dropRepeatsAfter rule rest

def dropRepeats : List Rule → List Rule
  | [] => []
  | rule :: rest => rule :: dropRepeatsAfter rule rest

/-- The stylesheet of some rules. -/
def ofRules (rules : List Rule) : Stylesheet :=
  ⟨dropRepeats (rules.mergeSort Rule.le)⟩

def contains (sheet : Stylesheet) (text : String) : Bool :=
  sheet.rules.any (·.text == text)

/-- The rules as a text, one a line. -/
def toCss (sheet : Stylesheet) : String :=
  "\n".intercalate (sheet.rules.map (·.text))

end Stylesheet

end AtomicCss
