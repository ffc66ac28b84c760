import AtomicCss.Json.Reader
import AtomicCss.Json.Record
/-!
# Options

Choices that change what is generated. Two builds agree on class names only if they agree on these.
They are loaded from JSON, where each may be left out.
-/

namespace AtomicCss

structure Options where
  /-- What every class and keyframes name begins with. -/
  classPrefix : String := "x"
  /-- Whether compiled objects carry a marker class that names their file and namespace. -/
  devMarkers : Bool := false
  /-- Whether pixel lengths of `font-size` are turned into `rem`. -/
  fontSizeInRem : Bool := false
  /-- How many pixels make one `rem`. -/
  remBase : Binary64 := 16
deriving DecidableEq

namespace Options

open Json (RecordField)

/-- The fields of options in JSON. -/
def fields : List (RecordField Options) :=
  [.ofText "classNamePrefix" fun s options => { options with classPrefix := s },
   .ofBool "dev" fun b options => { options with devMarkers := b },
   .ofBool "legacyFontSizePxToRem" fun b options => { options with fontSizeInRem := b },
   .ofNumber "remBase" fun x options => { options with remBase := x }]

/-- The options that a JSON text gives. -/
def parse (source : String) : Except Json.ParseError Options := do
  let document ← Json.Document.parse source
  match Json.readRecord? fields {} document with
  | some options => .ok options
  | none => .error (.at source.toList 0)

end Options

end AtomicCss
