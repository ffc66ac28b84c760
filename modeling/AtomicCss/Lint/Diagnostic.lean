import AtomicCss.Json.Basic
/-!
# Diagnostics

What a linter has to say about a place in a style sheet.
-/

namespace AtomicCss.Lint

inductive Level where
  | error
  | warning
  | info
deriving DecidableEq, Repr

/-- The name of a level in JSON. -/
def Level.name : Level → String
  | error => "Error"
  | warning => "Warning"
  | info => "Info"

/-- The name of a level in a report. -/
def Level.shown : Level → String
  | error => "error"
  | warning => "warning"
  | info => "info"

structure Diagnostic where
  level : Level
  rule : String
  message : String
  /-- The keys that lead to the place, with dots between them. -/
  path : String
  suggestion : Option String
deriving DecidableEq, Repr

namespace Diagnostic

def isError (d : Diagnostic) : Bool :=
  d.level == .error

def isWarning (d : Diagnostic) : Bool :=
  d.level == .warning

/-- A diagnostic as JSON, its members in the order of a report. -/
def toJson (d : Diagnostic) : Json :=
  .object
    [("level", .string d.level.name),
     ("rule", .string d.rule),
     ("message", .string d.message),
     ("path", .string d.path),
     ("suggestion", match d.suggestion with
       | some text => .string text
       | none => .null)]

end Diagnostic

end AtomicCss.Lint
