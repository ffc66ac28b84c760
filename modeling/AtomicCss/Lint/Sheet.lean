import AtomicCss.Json.Reader
import AtomicCss.Lint.Rule
/-!
# Linting a sheet

All keys of a sheet are shown to all rules. The linter itself reports only what keeps it from
looking at the rest: a sheet, a namespace or a block that is no object.
-/

namespace AtomicCss.Lint

def styleShapeName : String := "style-shape"

def misshapen (error : SheetError) (path : String) : Diagnostic :=
  ⟨.error, styleShapeName, error.message, path, none⟩

/-- Shows a property to the rules. -/
def checkPropertyAt (rules : List Rule) (path key : String) (value : Json) : List Diagnostic :=
  rules.flatMap fun rule => rule.checkProperty ⟨key, value, path ++ "." ++ key⟩

/-- Shows a member of a block to the rules. Blocks inside it are reported, but not looked into. -/
def checkInner (rules : List Rule) (parent path : String) (member : String × Json) :
    List Diagnostic :=
  let (key, value) := member
  let keyPath := path ++ "." ++ key
  if (Context.ofKey? key).isSome then
    (rules.flatMap fun rule => rule.checkContext ⟨key, some parent, keyPath⟩) ++
      match value with
      | .object _ => []
      | _ => [misshapen (.illegalValue key) keyPath]
  else checkPropertyAt rules path key value

/-- Shows a member of a namespace to the rules, and if it opens a block, the members of that. -/
def checkMember (rules : List Rule) (path : String) (member : String × Json) : List Diagnostic :=
  let (key, value) := member
  let keyPath := path ++ "." ++ key
  if (Context.ofKey? key).isSome then
    (rules.flatMap fun rule => rule.checkContext ⟨key, none, keyPath⟩) ++
      match value with
      | .object body => body.flatMap (checkInner rules key keyPath)
      | _ => [misshapen (.illegalValue key) keyPath]
  else checkPropertyAt rules path key value

def checkNamespace (rules : List Rule) (ns : String × Json) : List Diagnostic :=
  match ns.2 with
  | .object body => body.flatMap (checkMember rules ns.1)
  | _ => [misshapen (.nonObjectNamespace ns.1) ns.1]

/-- What the rules have to say about a sheet. -/
def checkSheet (rules : List Rule) : Json → List Diagnostic
  | .object namespaces => namespaces.flatMap (checkNamespace rules)
  | _ => [misshapen .nonObjectSheet ""]

/-- What the rules have to say about the text of a sheet. -/
def checkText (rules : List Rule) (source : String) : Except Json.ParseError (List Diagnostic) := do
  return checkSheet rules (← Json.parse source)

end AtomicCss.Lint
