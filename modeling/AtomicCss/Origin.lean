import AtomicCss.Declaration
import AtomicCss.Keyframes.Basic
/-!
# Origins

What a generated name stands for: a declaration, of which it is the class, or a block of keyframes.
-/

namespace AtomicCss

inductive Origin where
  | declaration (d : Declaration)
  | keyframes (block : Keyframes.Block)

namespace Origin

/-- The text that the name is made from. -/
def canonical : Origin → String
  | declaration d => d.canonical
  | keyframes block => block.body

def toAtomic (origin : Origin) (mark : String) : AtomicClass :=
  match origin with
  | declaration d => d.toAtomic mark
  | keyframes block => block.toAtomic mark

def name (origin : Origin) (mark : String) : String :=
  (origin.toAtomic mark).name

def rule (origin : Origin) (mark : String) : Rule :=
  (origin.toAtomic mark).rule

def emission (origin : Origin) (mark : String) : Emission :=
  match origin with
  | declaration d => d.emission mark
  | keyframes block => block.emission mark

@[simp]
theorem emission_atomic (origin : Origin) (mark : String) :
    (origin.emission mark).atomic = origin.toAtomic mark := by
  cases origin with
  | declaration d => rfl
  | keyframes block => rfl

/-- What is emitted for an origin has the name of the origin. -/
theorem emission_name (origin : Origin) (mark : String) :
    (origin.emission mark).atomic.name = origin.name mark := by
  rw [emission_atomic, name]

end Origin

end AtomicCss
