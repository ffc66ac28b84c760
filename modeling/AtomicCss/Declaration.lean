import AtomicCss.ClassName
import AtomicCss.Priority
import AtomicCss.Rule
import AtomicCss.Value.Basic
/-!
# Declarations

A property with a canonical value in a context: what one class stands for.
-/

namespace AtomicCss

structure Declaration where
  property : String
  value : Value
  context : Context
deriving DecidableEq, Repr

namespace Declaration

/-- The text that a declaration is hashed by. -/
def canonical (d : Declaration) : String :=
  d.context.text ++ fieldSeparator ++ d.property ++ fieldSeparator ++ d.value.canonical

def className (d : Declaration) (mark : String) : String :=
  ClassName.ofText mark d.canonical

def priority (d : Declaration) : Nat :=
  Priority.classify d.property d.context

/-- The declarations of the block that styles a class. -/
def body (d : Declaration) : String :=
  d.value.declarations d.property

/-- The rule that styles a class, a pseudo selector behind the class and an at-rule around it. -/
def ruleText (d : Declaration) (name : String) : String :=
  match d.context with
  | .plain => "." ++ name ++ braced d.body
  | .pseudo selector => "." ++ name ++ selector ++ braced d.body
  | .atRule condition => condition ++ braced ("." ++ name ++ braced d.body)

/-- The class of a declaration, its name behind a mark. -/
def toAtomic (d : Declaration) (mark : String) : AtomicClass :=
  let name := d.className mark
  ⟨name, ⟨d.ruleText name, d.priority⟩⟩

def emission (d : Declaration) (mark : String) : Emission :=
  ⟨d.canonical, d.toAtomic mark⟩

/-- The declaration as people read it. -/
def shown (d : Declaration) : String :=
  if d.context.isPlain then d.body else d.context.text ++ " " ++ d.body

end Declaration

end AtomicCss
