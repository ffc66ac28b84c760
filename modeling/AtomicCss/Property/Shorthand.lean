import AtomicCss.KeyMap
/-!
# Shorthands

A shorthand sets several longhands at once, some of which are shorthands themselves; a logical
property lands on one physical side or another. `resets` lists all that setting a property
overrides.
-/

namespace AtomicCss.Property

/-- Shorthands and their direct longhands. -/
def shorthandTable : List (String × List String) :=
  [("animation",
     ["animation-name", "animation-duration", "animation-timing-function", "animation-delay",
      "animation-iteration-count", "animation-direction", "animation-fill-mode",
      "animation-play-state"]),
   ("background",
     ["background-attachment", "background-clip", "background-color", "background-image",
      "background-origin", "background-position", "background-repeat", "background-size"]),
   ("background-position", ["background-position-x", "background-position-y"]),
   ("border",
     ["border-width", "border-style", "border-color", "border-top", "border-right",
      "border-bottom", "border-left", "border-block", "border-inline", "border-image"]),
   ("border-block",
     ["border-block-width", "border-block-style", "border-block-color", "border-block-start",
      "border-block-end"]),
   ("border-block-start",
     ["border-block-start-width", "border-block-start-style", "border-block-start-color"]),
   ("border-block-end",
     ["border-block-end-width", "border-block-end-style", "border-block-end-color"]),
   ("border-block-width", ["border-block-start-width", "border-block-end-width"]),
   ("border-block-style", ["border-block-start-style", "border-block-end-style"]),
   ("border-block-color", ["border-block-start-color", "border-block-end-color"]),
   ("border-inline",
     ["border-inline-width", "border-inline-style", "border-inline-color", "border-inline-start",
      "border-inline-end"]),
   ("border-inline-start",
     ["border-inline-start-width", "border-inline-start-style", "border-inline-start-color"]),
   ("border-inline-end",
     ["border-inline-end-width", "border-inline-end-style", "border-inline-end-color"]),
   ("border-inline-width", ["border-inline-start-width", "border-inline-end-width"]),
   ("border-inline-style", ["border-inline-start-style", "border-inline-end-style"]),
   ("border-inline-color", ["border-inline-start-color", "border-inline-end-color"]),
   ("border-image",
     ["border-image-source", "border-image-slice", "border-image-width", "border-image-outset",
      "border-image-repeat"]),
   ("border-top", ["border-top-width", "border-top-style", "border-top-color"]),
   ("border-right", ["border-right-width", "border-right-style", "border-right-color"]),
   ("border-bottom", ["border-bottom-width", "border-bottom-style", "border-bottom-color"]),
   ("border-left", ["border-left-width", "border-left-style", "border-left-color"]),
   ("border-width",
     ["border-top-width", "border-right-width", "border-bottom-width", "border-left-width"]),
   ("border-style",
     ["border-top-style", "border-right-style", "border-bottom-style", "border-left-style"]),
   ("border-color",
     ["border-top-color", "border-right-color", "border-bottom-color", "border-left-color"]),
   ("border-radius",
     ["border-top-left-radius", "border-top-right-radius", "border-bottom-right-radius",
      "border-bottom-left-radius"]),
   ("column-rule", ["column-rule-width", "column-rule-style", "column-rule-color"]),
   ("columns", ["column-width", "column-count"]),
   ("container", ["container-name", "container-type"]),
   ("flex", ["flex-grow", "flex-shrink", "flex-basis"]),
   ("flex-flow", ["flex-direction", "flex-wrap"]),
   ("font",
     ["font-family", "font-size", "font-style", "font-variant", "font-weight", "line-height"]),
   ("gap", ["row-gap", "column-gap"]),
   ("grid", ["grid-template", "grid-auto-rows", "grid-auto-columns", "grid-auto-flow"]),
   ("grid-area", ["grid-row", "grid-column"]),
   ("grid-column", ["grid-column-start", "grid-column-end"]),
   ("grid-row", ["grid-row-start", "grid-row-end"]),
   ("grid-template", ["grid-template-rows", "grid-template-columns", "grid-template-areas"]),
   ("inset", ["top", "right", "bottom", "left", "inset-block", "inset-inline"]),
   ("inset-block", ["inset-block-start", "inset-block-end"]),
   ("inset-inline", ["inset-inline-start", "inset-inline-end"]),
   ("list-style", ["list-style-type", "list-style-position", "list-style-image"]),
   ("margin",
     ["margin-top", "margin-right", "margin-bottom", "margin-left", "margin-block",
      "margin-inline"]),
   ("margin-block", ["margin-block-start", "margin-block-end"]),
   ("margin-inline", ["margin-inline-start", "margin-inline-end"]),
   ("mask",
     ["mask-image", "mask-mode", "mask-repeat", "mask-position", "mask-clip", "mask-origin",
      "mask-size", "mask-composite"]),
   ("outline", ["outline-color", "outline-style", "outline-width"]),
   ("overflow", ["overflow-x", "overflow-y"]),
   ("overscroll-behavior", ["overscroll-behavior-x", "overscroll-behavior-y"]),
   ("padding",
     ["padding-top", "padding-right", "padding-bottom", "padding-left", "padding-block",
      "padding-inline"]),
   ("padding-block", ["padding-block-start", "padding-block-end"]),
   ("padding-inline", ["padding-inline-start", "padding-inline-end"]),
   ("place-content", ["align-content", "justify-content"]),
   ("place-items", ["align-items", "justify-items"]),
   ("place-self", ["align-self", "justify-self"]),
   ("scroll-margin",
     ["scroll-margin-top", "scroll-margin-right", "scroll-margin-bottom", "scroll-margin-left"]),
   ("scroll-padding",
     ["scroll-padding-top", "scroll-padding-right", "scroll-padding-bottom",
      "scroll-padding-left"]),
   ("text-decoration",
     ["text-decoration-line", "text-decoration-color", "text-decoration-style",
      "text-decoration-thickness"]),
   ("transition",
     ["transition-property", "transition-duration", "transition-timing-function",
      "transition-delay"])]

/-- Logical properties and the physical ones that they can land on. -/
def logicalTable : List (String × List String) :=
  [("margin-inline-start", ["margin-left", "margin-right"]),
   ("margin-inline-end", ["margin-left", "margin-right"]),
   ("margin-block-start", ["margin-top"]),
   ("margin-block-end", ["margin-bottom"]),
   ("padding-inline-start", ["padding-left", "padding-right"]),
   ("padding-inline-end", ["padding-left", "padding-right"]),
   ("padding-block-start", ["padding-top"]),
   ("padding-block-end", ["padding-bottom"]),
   ("inset-inline-start", ["left", "right"]),
   ("inset-inline-end", ["left", "right"]),
   ("inset-block-start", ["top"]),
   ("inset-block-end", ["bottom"])]

/-- The names of all shorthands, in the order of the table. -/
def shorthands : List String :=
  shorthandTable.map Prod.fst

/-- The direct longhands of a property. -/
def longhands (property : String) : List String :=
  (shorthandTable.lookup property).getD []

def isShorthand (property : String) : Bool :=
  !(longhands property).isEmpty

/-- The physical properties that a property can land on. -/
def physicalSides (property : String) : List String :=
  (logicalTable.lookup property).getD []

/-- Whether some logical property can land on a property. -/
def hasLogicalCounterpart (property : String) : Bool :=
  logicalTable.any fun row => row.2.contains property

/-- The levels of longhands below a property, counted down to a level. -/
def depthWithin : Nat → String → Nat
  | 0, _ => 0
  | level + 1, property =>
    ((longhands property).map fun child => depthWithin level child + 1).foldr max 0

/-- The levels of longhands below a property. No chain of shorthands is longer than their table. -/
def depth (property : String) : Nat :=
  depthWithin shorthandTable.length property

/-- What a property overrides, its longhands followed down to a level. -/
def overriddenWithin : Nat → String → List String
  | 0, _ => []
  | level + 1, property =>
    physicalSides property ++
      (longhands property).flatMap fun child => child :: overriddenWithin level child

/-- Every property that setting a property overrides: all longhands below it and the physical
sides of it and of them, each once and sorted. -/
def resets (property : String) : List String :=
  (KeyMap.ofList ((overriddenWithin (shorthandTable.length + 1) property).map (·, ()))).keys

end AtomicCss.Property
