import AtomicCss.Property.Name
/-!
# Known properties

The standard properties, and which names count as known besides them: custom properties and names
with a vendor's mark.
-/

namespace AtomicCss.Property

/-- The standard properties. -/
def knownProperties : List String :=
  ["accent-color", "align-content", "align-items", "align-self", "all", "animation",
   "animation-delay", "animation-direction", "animation-duration", "animation-fill-mode",
   "animation-iteration-count", "animation-name", "animation-play-state",
   "animation-timing-function", "appearance", "aspect-ratio", "backdrop-filter",
   "backface-visibility", "background", "background-attachment", "background-blend-mode",
   "background-clip", "background-color", "background-image", "background-origin",
   "background-position", "background-position-x", "background-position-y", "background-repeat",
   "background-size", "block-size", "border", "border-block", "border-block-color",
   "border-block-end", "border-block-start", "border-block-style", "border-block-width",
   "border-bottom", "border-bottom-color", "border-bottom-left-radius",
   "border-bottom-right-radius", "border-bottom-style", "border-bottom-width", "border-collapse",
   "border-color", "border-end-end-radius", "border-end-start-radius", "border-image",
   "border-image-outset", "border-image-repeat", "border-image-slice", "border-image-source",
   "border-image-width", "border-inline", "border-inline-color", "border-inline-end",
   "border-inline-start", "border-inline-style", "border-inline-width", "border-left",
   "border-left-color", "border-left-style", "border-left-width", "border-radius", "border-right",
   "border-right-color", "border-right-style", "border-right-width", "border-spacing",
   "border-start-end-radius", "border-start-start-radius", "border-style", "border-top",
   "border-top-color", "border-top-left-radius", "border-top-right-radius", "border-top-style",
   "border-top-width", "border-width", "bottom", "box-shadow", "box-sizing", "break-after",
   "break-before", "break-inside", "caption-side", "caret-color", "clear", "clip", "clip-path",
   "color", "color-scheme", "column-count", "column-fill", "column-gap", "column-rule",
   "column-span", "column-width", "columns", "contain", "container", "container-name",
   "container-type", "content", "content-visibility", "counter-increment", "counter-reset",
   "counter-set", "cursor", "direction", "display", "empty-cells", "fill", "fill-opacity",
   "filter", "flex", "flex-basis", "flex-direction", "flex-flow", "flex-grow", "flex-shrink",
   "flex-wrap", "float", "flood-opacity", "font", "font-family", "font-feature-settings",
   "font-kerning", "font-size", "font-size-adjust", "font-stretch", "font-style", "font-variant",
   "font-variant-numeric", "font-variation-settings", "font-weight", "gap", "grid", "grid-area",
   "grid-auto-columns", "grid-auto-flow", "grid-auto-rows", "grid-column", "grid-column-end",
   "grid-column-start", "grid-row", "grid-row-end", "grid-row-start", "grid-template",
   "grid-template-areas", "grid-template-columns", "grid-template-rows", "height", "hyphens",
   "image-rendering", "inline-size", "inset", "inset-block", "inset-block-end",
   "inset-block-start", "inset-inline", "inset-inline-end", "inset-inline-start", "isolation",
   "justify-content", "justify-items", "justify-self", "left", "letter-spacing", "line-clamp",
   "line-height", "list-style", "list-style-image", "list-style-position", "list-style-type",
   "margin", "margin-block", "margin-block-end", "margin-block-start", "margin-bottom",
   "margin-inline", "margin-inline-end", "margin-inline-start", "margin-left", "margin-right",
   "margin-top", "mask", "mask-image", "max-block-size", "max-height", "max-inline-size",
   "max-width", "min-block-size", "min-height", "min-inline-size", "min-width", "mix-blend-mode",
   "object-fit", "object-position", "opacity", "order", "orphans", "outline", "outline-color",
   "outline-offset", "outline-style", "outline-width", "overflow", "overflow-anchor",
   "overflow-wrap", "overflow-x", "overflow-y", "overscroll-behavior", "overscroll-behavior-x",
   "overscroll-behavior-y", "padding", "padding-block", "padding-block-end",
   "padding-block-start", "padding-bottom", "padding-inline", "padding-inline-end",
   "padding-inline-start", "padding-left", "padding-right", "padding-top", "perspective",
   "perspective-origin", "place-content", "place-items", "place-self", "pointer-events",
   "position", "quotes", "resize", "right", "rotate", "row-gap", "scale", "scroll-behavior",
   "scroll-margin", "scroll-padding", "scroll-snap-align", "scroll-snap-type", "scrollbar-color",
   "scrollbar-gutter", "scrollbar-width", "shape-outside", "speak", "stop-color", "stop-opacity",
   "stroke", "stroke-dasharray", "stroke-dashoffset", "stroke-linecap", "stroke-linejoin",
   "stroke-miterlimit", "stroke-opacity", "stroke-width", "tab-size", "table-layout",
   "text-align", "text-align-last", "text-decoration", "text-decoration-color",
   "text-decoration-line", "text-decoration-style", "text-decoration-thickness", "text-indent",
   "text-overflow", "text-rendering", "text-shadow", "text-transform", "text-underline-offset",
   "text-underline-position", "top", "touch-action", "transform", "transform-origin",
   "transform-style", "transition", "transition-delay", "transition-duration",
   "transition-property", "transition-timing-function", "translate", "unicode-bidi",
   "user-select", "vertical-align", "visibility", "white-space", "widows", "width", "will-change",
   "word-break", "word-spacing", "word-wrap", "writing-mode", "z-index", "zoom",
   "border-block-end-color", "border-block-end-style", "border-block-end-width",
   "border-block-start-color", "border-block-start-style", "border-block-start-width",
   "border-inline-end-color", "border-inline-end-style", "border-inline-end-width",
   "border-inline-start-color", "border-inline-start-style", "border-inline-start-width",
   "column-rule-color", "column-rule-style", "column-rule-width", "mask-clip", "mask-composite",
   "mask-mode", "mask-origin", "mask-position", "mask-repeat", "mask-size",
   "scroll-margin-bottom", "scroll-margin-left", "scroll-margin-right", "scroll-margin-top",
   "scroll-padding-bottom", "scroll-padding-left", "scroll-padding-right", "scroll-padding-top"]

def isKnown (property : String) : Bool :=
  isCustom property || knownProperties.contains property || beginsWith "-webkit-" property ||
    beginsWith "-moz-" property || beginsWith "-ms-" property

end AtomicCss.Property
