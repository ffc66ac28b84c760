import AtomicCss.Json.Basic
import AtomicCss.Property.Name
import AtomicCss.Pseudo
import AtomicCss.Sheet.Basic
/-!
# Loading style sheets

A sheet from a JSON value `{ namespace: { key: value or { key: value } } }`. The first thing out of
shape is the error, in the order of the members.
-/

namespace AtomicCss

/-- Why a JSON value is not a style sheet. -/
inductive SheetError where
  | nonObjectSheet
  | nonObjectNamespace (name : String)
  | nestedBlock (parent key : String)
  | unknownPseudo (selector : String)
  | illegalValue (key : String)
  | illegalArray (key : String)
  | illegalStep (selector : String)
deriving DecidableEq, Repr

def SheetError.message : SheetError → String
  | nonObjectSheet => "A style sheet must be an object of namespaces."
  | nonObjectNamespace name => "A namespace must be an object: '" ++ name ++ "'"
  | nestedBlock parent key =>
    "Pseudo objects can't be nested: '" ++ key ++ "' inside '" ++ parent ++ "'"
  | unknownPseudo selector =>
    "Invalid pseudo selector, not on the whitelist: '" ++ selector ++ "'"
  | illegalValue key =>
    "A style value can only contain an array, string, number or null: '" ++ key ++ "'"
  | illegalArray key =>
    "A style array value can only contain strings or numbers: '" ++ key ++ "'"
  | illegalStep selector =>
    "Keyframes step '" ++ selector ++ "' must be an object of properties"

/-- A number or a text. -/
def Scalar.ofJson? : Json → Option Scalar
  | .string s => some (.text s)
  | .number n => some (.number n.toBinary64)
  | _ => none

/-- The value of a key: a scalar, or a list of at least one. -/
def RawValue.ofJson (key : String) : Json → Except SheetError RawValue
  | .array items =>
    match items.mapM Scalar.ofJson? with
    | some (first :: rest) => .ok (.fallbacks (first :: rest))
    | _ => .error (.illegalArray key)
  | other =>
    match Scalar.ofJson? other with
    | some scalar => .ok (.single scalar)
    | none => .error (.illegalValue key)

def Keyframes.propertyOfJson (member : String × Json) : Except SheetError (String × RawValue) := do
  return (member.1, ← RawValue.ofJson member.1 member.2)

def Keyframes.Step.ofJson (member : String × Json) : Except SheetError Keyframes.Step :=
  match member.2 with
  | .object body => do
    return ⟨member.1, ← body.mapM Keyframes.propertyOfJson⟩
  | _ => .error (.illegalStep member.1)

/-- The property that keyframes may be given to. -/
def animationName : String := "animation-name"

def Assignment.ofJson (member : String × Json) : Except SheetError Assignment :=
  match member.2 with
  | .null => .ok ⟨member.1, .reset⟩
  | .object steps =>
    if Property.cssName member.1 = animationName then do
      return ⟨member.1, .keyframes ⟨← steps.mapM Keyframes.Step.ofJson⟩⟩
    else .error (.illegalValue member.1)
  | value => do
    return ⟨member.1, .value (← RawValue.ofJson member.1 value)⟩

/-- An assignment inside the block that `parent` opens. -/
def Assignment.ofJsonIn (parent : String) (member : String × Json) :
    Except SheetError Assignment :=
  if (Context.ofKey? member.1).isSome then .error (.nestedBlock parent member.1)
  else Assignment.ofJson member

/-- Whether a context may be used. -/
def Context.check : Context → Except SheetError PUnit
  | .pseudo selector => if Pseudo.isValid selector then .ok ⟨⟩ else .error (.unknownPseudo selector)
  | _ => .ok ⟨⟩

def Sheet.Entry.ofJson (member : String × Json) : Except SheetError Sheet.Entry :=
  match Context.ofKey? member.1 with
  | none => return .single (← Assignment.ofJson member)
  | some context => do
    context.check
    match member.2 with
    | .object body => return .block context (← body.mapM (Assignment.ofJsonIn member.1))
    | _ => .error (.illegalValue member.1)

def Namespace.ofJson (member : String × Json) : Except SheetError Namespace :=
  match member.2 with
  | .object body => do
    return ⟨member.1, ← body.mapM Sheet.Entry.ofJson⟩
  | _ => .error (.nonObjectNamespace member.1)

def Sheet.ofJson : Json → Except SheetError Sheet
  | .object members => do
    return ⟨← members.mapM Namespace.ofJson⟩
  | _ => .error .nonObjectSheet

end AtomicCss
