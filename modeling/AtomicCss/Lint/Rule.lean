import AtomicCss.Keyframes.Basic
import AtomicCss.Lint.Diagnostic
import AtomicCss.Property.Known
import AtomicCss.Pseudo
import AtomicCss.Sheet.Loader
/-!
# Lint rules

A rule looks at the keys of a sheet one at a time: at properties with their values, and at the keys
that open blocks. The default rules are, in order:

* `valid-property`: the property is known;
* `valid-pseudo`: the block belongs to a known pseudo selector or at-rule and is not nested;
* `valid-value`: the value has the right shape and can be normalized;
* `no-important`: the value does not make itself important.
-/

namespace AtomicCss.Lint

/-- A property key with its value. -/
structure PropertyCheck where
  key : String
  value : Json
  path : String

/-- A key that opens a block, and the key of the block around it. -/
structure ContextCheck where
  key : String
  parent : Option String
  path : String

structure Rule where
  name : String
  description : String
  checkProperty : PropertyCheck → List Diagnostic
  checkContext : ContextCheck → List Diagnostic

/-! ## Properties -/

def validPropertyName : String := "valid-property"

def checkKnown (check : PropertyCheck) : List Diagnostic :=
  if Property.isKnown (Property.cssName check.key) then []
  else
    [⟨.error, validPropertyName, "This is not a key that is allowed: '" ++ check.key ++ "'",
      check.path, none⟩]

def validProperty : Rule where
  name := validPropertyName
  description := "Property keys must be known CSS properties or custom properties"
  checkProperty := checkKnown
  checkContext _ := []

/-! ## Contexts -/

def validPseudoName : String := "valid-pseudo"

/-- The at-rules that may open a block. -/
def atRules : List String :=
  ["@media", "@supports", "@container"]

/-- An at-rule up to its first space or parenthesis. -/
def atKeyword (condition : String) : String :=
  String.ofList (condition.toList.takeWhile fun c => c != ' ' && c != '(')

def checkOpening (check : ContextCheck) : List Diagnostic :=
  match check.parent with
  | some parent =>
    [⟨.error, validPseudoName, (SheetError.nestedBlock parent check.key).message, check.path, none⟩]
  | none =>
    match Context.ofKey? check.key with
    | some (.pseudo selector) =>
      if Pseudo.isValid selector then []
      else
        [⟨.error, validPseudoName, (SheetError.unknownPseudo selector).message, check.path, none⟩]
    | some (.atRule condition) =>
      if atRules.contains (atKeyword condition) then []
      else
        [⟨.warning, validPseudoName, "Unrecognized at-rule: '" ++ atKeyword condition ++ "'",
          check.path, some "Use @media, @supports or @container"⟩]
    | _ => []

def validPseudo : Rule where
  name := validPseudoName
  description := "Pseudo selectors must be whitelisted and conditional blocks cannot nest"
  checkProperty _ := []
  checkContext := checkOpening

/-! ## Values -/

def validValueName : String := "valid-value"

def invalidValue (message path : String) : Diagnostic :=
  ⟨.error, validValueName, message, path, none⟩

/-- What is wrong with the shape of a value that is no reset, if anything is. -/
def shapeError? (key : String) : Json → Option SheetError
  | .array [] => some (.illegalArray key)
  | .array items =>
    if items.any fun item => !item.isScalar then some (.illegalArray key) else none
  | .string _ => none
  | .number _ => none
  | _ => some (.illegalValue key)

/-- Reads a number or a text. Values are not read by the loader here, which has errors of its own. -/
def readScalar? : Json → Option Scalar
  | .number n => some (.number n.toBinary64)
  | .string s => some (.text s)
  | _ => none

/-- Reads a scalar or a list of scalars. -/
def readRaw? : Json → Option RawValue
  | .array items => (items.mapM readScalar?).map .fallbacks
  | value => (readScalar? value).map .single

/-- What is reported of a value that has the right shape and cannot be read all the same. -/
def unreadMessage : String := "data did not match any variant of untagged enum RawValue"

/-- Checks the value of a property; a reset is always right. -/
def checkRaw (property key : String) (value : Json) (path : String) : List Diagnostic :=
  match value with
  | .null => []
  | value =>
    match shapeError? key value with
    | some error => [invalidValue error.message path]
    | none =>
      match readRaw? value with
      | none => [invalidValue unreadMessage path]
      | some raw =>
        match normalize {} property raw with
        | .error error => [invalidValue error.message path]
        | .ok _ => []

/-- Checks the selector and the properties of a step. -/
def checkStep (path : String) (step : String × Json) : List Diagnostic :=
  let (selector, body) := step
  let stepPath := path ++ "." ++ selector
  let selectorProblems :=
    match Keyframes.Selector.parse selector with
    | .error error => [invalidValue error.message stepPath]
    | .ok _ => []
  let bodyProblems :=
    match body with
    | .object members => members.flatMap fun (key, value) =>
        checkRaw (Property.cssName key) key value (stepPath ++ "." ++ key)
    | _ => [invalidValue (SheetError.illegalStep selector).message stepPath]
  selectorProblems ++ bodyProblems

def checkValue (check : PropertyCheck) : List Diagnostic :=
  let property := Property.cssName check.key
  match check.value with
  | .object steps =>
    if property = animationName then steps.flatMap (checkStep check.path)
    else checkRaw property check.key (.object steps) check.path
  | value => checkRaw property check.key value check.path

def validValue : Rule where
  name := validValueName
  description := "Values must be strings, numbers, lists of those, or null, and must normalize"
  checkProperty := checkValue
  checkContext _ := []

/-! ## Importance -/

def noImportantName : String := "no-important"

/-- Whether a text says `important` in any case behind an exclamation mark and blanks. -/
def mentionsImportant : List Char → Bool
  | [] => false
  | c :: cs =>
    (c == '!' && Token.importantWord.isPrefixOf (lowercase (cs.dropWhile isBlank))) ||
      mentionsImportant cs

/-- The texts of a value. -/
def textsOf : Json → List String
  | .string s => [s]
  | .array items => items.filterMap fun
      | .string s => some s
      | _ => none
  | _ => []

def checkImportance (check : PropertyCheck) : List Diagnostic :=
  if (textsOf check.value).any (mentionsImportant ·.toList) then
    [⟨.error, noImportantName, "Avoid using !important in '" ++ check.key ++ "'", check.path,
      some "Rely on merge order instead: later styles already win"⟩]
  else []

def noImportant : Rule where
  name := noImportantName
  description := "Disallow !important in style values"
  checkProperty := checkImportance
  checkContext _ := []

def defaultRules : List Rule :=
  [validProperty, validPseudo, validValue, noImportant]

end AtomicCss.Lint
