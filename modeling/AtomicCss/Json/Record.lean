import AtomicCss.Json.Document
/-!
# Records in JSON

A record is written as an object of its fields or as an array of their values. Fields that are not
there keep their defaults. An object may have other members, which are not looked into; a field that
is there twice is an error, and so is a value of the wrong kind or an array with too many items.
-/

namespace AtomicCss.Json

/-- A field of a record `α`: its name, and how its value is read into the record. -/
structure RecordField (α : Type) where
  name : String
  read? : Document → α → Option α

namespace RecordField

/-- A field that holds a text. -/
def ofText (name : String) (put : String → α → α) : RecordField α :=
  ⟨name, fun value record =>
    match value with
    | .string pieces => (text? pieces).map (put · record)
    | _ => none⟩

/-- A field that holds a truth value. -/
def ofBool (name : String) (put : Bool → α → α) : RecordField α :=
  ⟨name, fun value record =>
    match value with
    | .bool b => some (put b record)
    | _ => none⟩

/-- A field that holds a number. -/
def ofNumber (name : String) (put : Binary64 → α → α) : RecordField α :=
  ⟨name, fun value record =>
    match value with
    | .number text => text.toNumber?.map fun n => put n.toBinary64 record
    | _ => none⟩

end RecordField

/-- Reads the members of an object. `seen` lists the fields that were there before. -/
def readMembers? (fields : List (RecordField α)) (seen : List String) (record : α) :
    List (List Piece × Document) → Option α
  | [] => some record
  | (name, value) :: rest => do
    let name ← text? name
    match fields.find? (·.name == name) with
    | none => readMembers? fields seen record rest
    | some field =>
      if name ∈ seen then none
      else readMembers? fields (name :: seen) (← field.read? value record) rest

/-- Reads the items of an array into the fields, in their order. -/
def readItems? (record : α) : List (RecordField α) → List Document → Option α
  | _, [] => some record
  | [], _ :: _ => none
  | field :: fields, value :: rest => do
    readItems? (← field.read? value record) fields rest

def readRecord? (fields : List (RecordField α)) (defaults : α) : Document → Option α
  | .object members => readMembers? fields [] defaults members
  | .array items => readItems? defaults fields items
  | _ => none

/-- A field that holds a record. -/
def RecordField.ofRecord (name : String) (fields : List (RecordField β)) (defaults : β)
    (put : β → α → α) : RecordField α :=
  ⟨name, fun value record => (readRecord? fields defaults value).map (put · record)⟩

end AtomicCss.Json
