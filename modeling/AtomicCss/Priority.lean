import AtomicCss.Context
import AtomicCss.Pseudo
import AtomicCss.Property.Shorthand
/-!
# Priorities

Every rule has the same specificity, so their order in the stylesheet decides the cascade. A
priority is the sum of a bucket for the kind of context, a step for the rank of the context in its
bucket, and the rank of the property, which is smaller than a step.
-/

namespace AtomicCss.Priority

/-- Keyframes stand in front of everything. -/
def keyframes : Nat := 0

/-- The number of levels of shorthands that the ranks tell apart. -/
def levels : Nat := 4

/-- The name of an at-rule without its sign. -/
def atRuleName (condition : String) : List Char :=
  (condition.toList.dropWhile (· == '@')).takeWhile (!AtRule.endsKeyword ·)

def atRuleRank (condition : String) : Nat :=
  let name := String.ofList (atRuleName condition)
  if name = "supports" then 0 else if name = "container" then 2 else 1

def ofContext : Context → Nat
  | .plain => 1000
  | .pseudo selector => 2000 + Pseudo.rank selector * 10
  | .atRule condition => 3000 + atRuleRank condition * 10

/-- Shallow shorthands come before deep ones and longhands last; a physical property comes after
the logical ones that can land on it. -/
def ofProperty (property : String) : Nat :=
  (levels - min (Property.depth property) levels) * 2 +
    if Property.hasLogicalCounterpart property then 1 else 0

/-- The priority of a property in a context. -/
def classify (property : String) (context : Context) : Nat :=
  ofContext context + ofProperty property

end AtomicCss.Priority
