/-!
# Rules

A rule of the stylesheet and the class that it styles.
-/

namespace AtomicCss

/-- The text of a rule and the priority that places it. -/
structure Rule where
  text : String
  priority : Nat
deriving DecidableEq, Repr

namespace Rule

/-- By priority, and by text among rules of one priority. -/
def le (a b : Rule) : Bool :=
  decide (a.priority < b.priority ∨ (a.priority = b.priority ∧ a.text ≤ b.text))

/-- The text and the priority, as an error shows them. -/
def shown (rule : Rule) : String :=
  rule.text ++ " @ " ++ toString rule.priority

end Rule

/-- A generated name and its rule: a class, or a block of keyframes. -/
structure AtomicClass where
  name : String
  rule : Rule
deriving DecidableEq, Repr

/-- A class together with the text that it stands for, which is what its name was made from. -/
structure Emission where
  source : String
  atomic : AtomicClass
deriving DecidableEq, Repr

/-- Separates the fields of the text that a class stands for. -/
def fieldSeparator : String := "\x1f"

/-- Text between braces. -/
def braced (body : String) : String :=
  "\x7b" ++ body ++ "\x7d"

end AtomicCss
