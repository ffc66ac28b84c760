import AtomicCss.Json.Basic
import AtomicCss.Json.Writer
import AtomicCss.KeyMap
import AtomicCss.Text.Quoted
/-!
# Style objects

What a namespace compiles to: for each key the class that styles it, or `none` for a key that is
reset. As JSON such an object carries a marker that tells it apart from other objects.
-/

namespace AtomicCss

structure StyleObject where
  classes : KeyMap (Option String)
deriving DecidableEq

/-- Why JSON is not an argument of a merge. Both cases say what was found in words. -/
inductive MergeError where
  | unexpectedArgument (found : String)
  | invalidEntry (key found : String)
deriving DecidableEq, Repr

namespace MergeError

def message : MergeError → String
  | unexpectedArgument found =>
    "Unexpected argument passed to merge(): expected a compiled style object, an array, false, " ++
      "null or undefined, found " ++ found
  | invalidEntry key found =>
    "Invalid entry '" ++ key ++ "' in compiled style object: expected a class name or null, found "
      ++ found

/-- A JSON value in words. -/
def describe : Json → String
  | .null => "null"
  | .bool b => if b then "true" else "false"
  | .number n => "number " ++ String.ofList n.text
  | .string s => "string " ++ quoted s
  | .array _ => "array"
  | .object _ => "object"

end MergeError

namespace StyleObject

/-- The key of the marker in JSON. -/
def marker : String := "$$css"

def empty : StyleObject := ⟨∅⟩

instance : EmptyCollection StyleObject := ⟨empty⟩
instance : Inhabited StyleObject := ⟨empty⟩

/-- What an object says about a key: nothing, a reset, or a class. -/
def get? (style : StyleObject) (key : String) : Option (Option String) :=
  style.classes.get? key

def contains (style : StyleObject) (key : String) : Bool :=
  style.classes.contains key

/-- Sets a key to a class, or resets it. -/
def set (style : StyleObject) (key : String) (name : Option String) : StyleObject :=
  ⟨style.classes.insert key name⟩

/-- Resets a key that the object does not mention. -/
def resetIfAbsent (style : StyleObject) (key : String) : StyleObject :=
  if style.contains key then style else style.set key none

/-- Objects that say the same of each key are equal. -/
theorem ext_get? {a b : StyleObject} (h : ∀ key, a.get? key = b.get? key) : a = b :=
  congrArg mk (KeyMap.ext_get? h)

/-- Setting a key decides it, and no other one. -/
theorem get?_set (style : StyleObject) (key : String) (name : Option String) (other : String) :
    (style.set key name).get? other = if key = other then some name else style.get? other :=
  KeyMap.get?_insert style.classes key name other

/-- The reset decides the key only if nothing has. -/
theorem get?_resetIfAbsent (style : StyleObject) (key other : String) :
    (style.resetIfAbsent key).get? other =
      (style.get? other).or (if key = other then some none else none) := by
  rw [resetIfAbsent]
  split
  · rename_i hkey
    split
    · rename_i heq
      obtain ⟨name, hname⟩ := Option.isSome_iff_exists.1 hkey
      have hother : style.get? other = some name := heq ▸ hname
      rw [hother]
      rfl
    · rw [Option.or_none]
  · rename_i hkey
    rw [get?_set]
    split
    · rename_i heq
      have hother : style.get? other = none := by
        rw [← heq]
        simpa [contains, KeyMap.contains, get?] using hkey
      rw [hother]
      rfl
    · rw [Option.or_none]

def ofList (entries : List (String × Option String)) : StyleObject :=
  ⟨.ofList entries⟩

def entries (style : StyleObject) : List (String × Option String) :=
  style.classes.entries

def keys (style : StyleObject) : List String :=
  style.classes.keys

/-- The classes that an object names, in the order of their keys. -/
def classNames (style : StyleObject) : List String :=
  style.classes.values.filterMap id

def size (style : StyleObject) : Nat :=
  style.classes.size

def isEmpty (style : StyleObject) : Bool :=
  style.classes.isEmpty

/-! ## JSON -/

def entryJson : Option String → Json
  | some name => .string name
  | none => .null

/-- The members of an object in JSON, without the marker. -/
def members (style : StyleObject) : List (String × Json) :=
  style.entries.map fun (key, name) => (key, entryJson name)

/-- The object as JSON, with the marker among its keys. -/
def toJson (style : StyleObject) : Json :=
  .object (Entries.insert marker (.bool true) style.members)

/-- The object as JSON text, with the marker behind its keys. -/
def text (style : StyleObject) : String :=
  (Json.object (style.members ++ [(marker, .bool true)])).compact

/-- A class or a reset. -/
def entryOfJson (key : String) : Json → Except MergeError (Option String)
  | .string name => .ok (some name)
  | .null => .ok none
  | other => .error (.invalidEntry key (MergeError.describe other))

/-- Adds the members of a JSON object, except for the marker. -/
def addMembers (style : StyleObject) : List (String × Json) → Except MergeError StyleObject
  | [] => .ok style
  | (key, value) :: rest =>
    if key = marker then style.addMembers rest
    else
      match entryOfJson key value with
      | .error error => .error error
      | .ok name => (style.set key name).addMembers rest

def ofJson : Json → Except MergeError StyleObject
  | .object members => empty.addMembers members
  | other => .error (.unexpectedArgument (MergeError.describe other))

end StyleObject

end AtomicCss
