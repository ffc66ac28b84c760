import AtomicCss.Sheet.Loader
import Mathlib.Data.List.Forall2
/-!
# The grammar of style sheets

Which JSON values are style sheets (`Sheet.IsLegal`), what the others have wrong with them, item by item
in the order of the members (`Sheet.offences`), and when a sheet says what a JSON value says
(`Sheet.Keeps`).
-/

namespace AtomicCss

/-! ## Legal values -/

namespace Json

/-- A scalar, or at least one of them in a list. -/
inductive IsScalars : Json → Prop
  | single {value : Json} (h : value.isScalar) : IsScalars value
  | fallbacks {items : List Json} (hne : items ≠ []) (h : ∀ item ∈ items, item.isScalar) :
    IsScalars (array items)

end Json

/-- Whether a key opens a block: it begins with a colon or an at sign. Blanks around it do not count. -/
def Sheet.opensBlock (key : String) : Bool :=
  (trim key.toList).head? == some ':' || (trim key.toList).head? == some '@'

/-- Whether a key that begins with a colon is a pseudo selector that may be used. -/
def Sheet.isUsable (key : String) : Bool :=
  (trim key.toList).head? != some ':' || Pseudo.isValid (String.ofList (trim key.toList))

/-- What may stand behind the key of a property. Only the name of an animation takes keyframes. -/
inductive Assignment.IsLegal (key : String) : Json → Prop
  | reset : IsLegal key .null
  | value {value : Json} (h : value.IsScalars) : IsLegal key value
  | keyframes {steps : List (String × Json)} (hname : Property.cssName key = animationName)
      (hsteps : ∀ step ∈ steps, ∃ properties, step.2 = .object properties ∧
        ∀ property ∈ properties, property.2.IsScalars) : IsLegal key (.object steps)

/-- A member of a namespace: a property with its value, or a block of such. -/
inductive Sheet.Entry.IsLegal : String × Json → Prop
  | single {key : String} {value : Json} (hkey : Sheet.opensBlock key = false)
      (hvalue : Assignment.IsLegal key value) : IsLegal (key, value)
  | block {key : String} {members : List (String × Json)} (hkey : Sheet.opensBlock key)
      (husable : Sheet.isUsable key)
      (hmembers : ∀ member ∈ members,
        Sheet.opensBlock member.1 = false ∧ Assignment.IsLegal member.1 member.2) :
      IsLegal (key, .object members)

/-- An object of objects of legal members. -/
inductive Sheet.IsLegal : Json → Prop
  | object {namespaces : List (String × Json)}
      (h : ∀ ns ∈ namespaces, ∃ members, ns.2 = .object members ∧
        ∀ member ∈ members, Entry.IsLegal member) : IsLegal (.object namespaces)

/-! ## Offences -/

/-- What is wrong with the value of a key. Every item of a list that is no scalar is an offence. -/
def RawValue.offences (key : String) : Json → List SheetError
  | .array [] => [.illegalArray key]
  | .array items => items.flatMap fun item => if item.isScalar then [] else [.illegalArray key]
  | value => if value.isScalar then [] else [.illegalValue key]

def Keyframes.Step.offences (step : String × Json) : List SheetError :=
  match step.2 with
  | .object properties => properties.flatMap fun property => RawValue.offences property.1 property.2
  | _ => [.illegalStep step.1]

def Assignment.offences (member : String × Json) : List SheetError :=
  match member.2 with
  | .null => []
  | .object steps =>
    if Property.cssName member.1 = animationName then steps.flatMap Keyframes.Step.offences
    else [.illegalValue member.1]
  | value => RawValue.offences member.1 value

/-- What is wrong with a member of the block that `parent` opens. -/
def Assignment.offencesIn (parent : String) (member : String × Json) : List SheetError :=
  if Sheet.opensBlock member.1 then [.nestedBlock parent member.1] else Assignment.offences member

/-- What is wrong with a member of a namespace: with its key first, then with what stands behind it. -/
def Sheet.Entry.offences (member : String × Json) : List SheetError :=
  if Sheet.opensBlock member.1 then
    (if Sheet.isUsable member.1 then [] else [.unknownPseudo (String.ofList (trim member.1.toList))]) ++
      match member.2 with
      | .object members => members.flatMap (Assignment.offencesIn member.1)
      | _ => [.illegalValue member.1]
  else Assignment.offences member

def Namespace.offences (member : String × Json) : List SheetError :=
  match member.2 with
  | .object members => members.flatMap Sheet.Entry.offences
  | _ => [.nonObjectNamespace member.1]

/-- All that is wrong with a JSON value as a style sheet. -/
def Sheet.offences : Json → List SheetError
  | .object namespaces => namespaces.flatMap Namespace.offences
  | _ => [.nonObjectSheet]

/-! ## What is kept -/

/-- Numbers are kept as doubles, and texts as they are. -/
inductive Scalar.Keeps : Json → Scalar → Prop
  | number (n : Json.Number) : Keeps (.number n) (.number n.toBinary64)
  | text (s : String) : Keeps (.string s) (.text s)

inductive RawValue.Keeps : Json → RawValue → Prop
  | single {value : Json} {scalar : Scalar} (h : Scalar.Keeps value scalar) :
    Keeps value (.single scalar)
  | fallbacks {items : List Json} {scalars : List Scalar}
      (h : List.Forall₂ Scalar.Keeps items scalars) : Keeps (.array items) (.fallbacks scalars)

namespace Keyframes

/-- A property of a step keeps its key and its value. -/
def KeepsProperty (member : String × Json) (property : String × RawValue) : Prop :=
  property.1 = member.1 ∧ RawValue.Keeps member.2 property.2

/-- A step keeps its selector and its properties. -/
inductive Step.Keeps : String × Json → Step → Prop
  | object {selector : String} {members : List (String × Json)}
      {properties : List (String × RawValue)}
      (h : List.Forall₂ KeepsProperty members properties) :
      Keeps (selector, .object members) ⟨selector, properties⟩

end Keyframes

/-- An assignment keeps its key as it is written. -/
inductive Assignment.Keeps : String × Json → Assignment → Prop
  | reset {key : String} : Keeps (key, .null) ⟨key, .reset⟩
  | value {key : String} {value : Json} {raw : RawValue} (h : RawValue.Keeps value raw) :
    Keeps (key, value) ⟨key, .value raw⟩
  | keyframes {key : String} {members : List (String × Json)} {steps : List Keyframes.Step}
      (h : List.Forall₂ Keyframes.Step.Keeps members steps) :
      Keeps (key, .object members) ⟨key, .keyframes ⟨steps⟩⟩

/-- A block keeps the context that its key opens. -/
inductive Sheet.Entry.Keeps : String × Json → Sheet.Entry → Prop
  | single {member : String × Json} {assignment : Assignment} (hkey : Sheet.opensBlock member.1 = false)
      (h : Assignment.Keeps member assignment) : Keeps member (.single assignment)
  | block {key : String} {members : List (String × Json)} {context : Context}
      {assignments : List Assignment} (hkey : Context.ofKey? key = some context)
      (h : List.Forall₂ Assignment.Keeps members assignments) :
      Keeps (key, .object members) (.block context assignments)

/-- A namespace keeps its name, and has one entry for each member. -/
inductive Namespace.Keeps : String × Json → Namespace → Prop
  | object {name : String} {members : List (String × Json)} {entries : List Sheet.Entry}
      (h : List.Forall₂ Sheet.Entry.Keeps members entries) :
      Keeps (name, .object members) ⟨name, entries⟩

/-- A sheet has one namespace for each member, in the order of the members. -/
inductive Sheet.Keeps : Json → Sheet → Prop
  | object {members : List (String × Json)} {namespaces : List Namespace}
      (h : List.Forall₂ Namespace.Keeps members namespaces) : Keeps (.object members) ⟨namespaces⟩

end AtomicCss
