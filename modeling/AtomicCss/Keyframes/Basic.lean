import AtomicCss.ClassName
import AtomicCss.Keyframes.Selector
import AtomicCss.Priority
import AtomicCss.Property.Name
import AtomicCss.Rule
import AtomicCss.Value.Normalize
/-!
# Keyframes

Keyframes as authored are steps of properties. A block has them in canonical form: steps in the
order of their first percentages, properties in the order of their names. Steps or properties that
tie stay in the order in which they were written.
-/

namespace AtomicCss

namespace Keyframes

/-- A step as authored. -/
structure Step where
  selector : String
  properties : List (String × RawValue)
deriving DecidableEq

/-- A step in canonical form; properties go by their CSS names. -/
structure Frame where
  selector : Selector
  properties : List (String × Value)

end Keyframes

/-- Keyframes as authored. -/
structure Keyframes where
  steps : List Keyframes.Step
deriving DecidableEq

namespace Keyframes

/-- Keyframes in canonical form. -/
structure Block where
  frames : List Frame

def normalizeProperty (options : Options) (property : String × RawValue) :
    Except ValueError (String × Value) := do
  let name := Property.cssName property.1
  return (name, ← normalize options name property.2)

/-- The canonical form of a step. Its selector is looked at first. -/
def Step.normalize (options : Options) (step : Step) : Except ValueError Frame := do
  let selector ← Selector.parse step.selector
  let properties ← step.properties.mapM (normalizeProperty options)
  return ⟨selector, properties.mergeSort fun a b => decide (a.1 ≤ b.1)⟩

/-- Whether a frame may stand in front of another one. -/
def Frame.le (a b : Frame) : Bool :=
  decide (a.selector.first.position ≤ b.selector.first.position)

/-- The canonical form of keyframes. -/
def normalize (options : Options) (keyframes : Keyframes) : Except ValueError Block := do
  let frames ← keyframes.steps.mapM (Step.normalize options)
  return ⟨frames.mergeSort Frame.le⟩

/-- The text of one frame. -/
def Frame.text (frame : Frame) : String :=
  frame.selector.text ++ braced (String.join (frame.properties.map fun (name, value) =>
    String.join (value.texts.map fun text => name ++ ":" ++ text ++ ";")))

namespace Block

/-- The text between the braces of a block. -/
def body (block : Block) : String :=
  String.join (block.frames.map Frame.text)

/-- The name of a block. The ending keeps it apart from the names of classes. -/
def name (block : Block) (mark : String) : String :=
  ClassName.ofText mark block.body ++ "-B"

def toAtomic (block : Block) (mark : String) : AtomicClass :=
  let name := block.name mark
  ⟨name, ⟨"@keyframes " ++ name ++ braced block.body, Priority.keyframes⟩⟩

def emission (block : Block) (mark : String) : Emission :=
  ⟨"@keyframes" ++ fieldSeparator ++ block.body, block.toAtomic mark⟩

end Block

end Keyframes

end AtomicCss
