import AtomicCss.Property.Name
/-!
# What values a property takes

Which properties take bare numbers, times or numbers only, and where a zero keeps its unit. Names
that are not in a table follow the general rule: a bare number is a length in pixels.
-/

namespace AtomicCss.Property

/-- Properties whose numbers take no unit. -/
def unitlessProperties : List String :=
  ["animation-iteration-count", "aspect-ratio", "border-image-outset", "border-image-slice",
   "border-image-width", "column-count", "columns", "fill-opacity", "flex", "flex-grow",
   "flex-shrink", "flood-opacity", "font-weight", "grid-area", "grid-column", "grid-column-end",
   "grid-column-start", "grid-row", "grid-row-end", "grid-row-start", "line-clamp", "line-height",
   "opacity", "order", "orphans", "stop-opacity", "stroke-dasharray", "stroke-dashoffset",
   "stroke-miterlimit", "stroke-opacity", "stroke-width", "tab-size", "widows", "z-index", "zoom"]

/-- Properties whose numbers are milliseconds. -/
def timeProperties : List String :=
  ["animation-delay", "animation-duration", "transition-delay", "transition-duration"]

/-- Properties in which `0px` and `0` differ. -/
def zeroUnitProperties : List String :=
  ["flex", "flex-basis"]

/-- Properties that take only numbers, with the keywords that each allows besides. -/
def numericProperties : List (String × List String) :=
  [("animation-iteration-count", ["infinite"]),
   ("flex-grow", []),
   ("flex-shrink", []),
   ("font-weight", ["normal", "bold", "bolder", "lighter"]),
   ("opacity", []),
   ("order", []),
   ("z-index", ["auto"])]

/-- Keywords that every property takes. -/
def globalKeywords : List String :=
  ["inherit", "initial", "unset", "revert", "revert-layer"]

def isUnitless (property : String) : Bool :=
  isCustom property || unitlessProperties.contains property

def isTime (property : String) : Bool :=
  timeProperties.contains property

def keepsZeroUnits (property : String) : Bool :=
  isCustom property || zeroUnitProperties.contains property

/-- The keywords of a property that takes only numbers, `none` for other properties. -/
def numericKeywords? (property : String) : Option (List String) :=
  numericProperties.lookup property

/-- The properties whose text is quoted. -/
def isQuoted (property : String) : Bool :=
  property == "content" || property == "quotes"

end AtomicCss.Property
