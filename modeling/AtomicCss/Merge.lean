import AtomicCss.StyleObject
/-!
# Merging style objects

`merge` reads style objects from the left to the right; the last one that mentions a key decides
it. The result lists the classes that are left in the order in which their keys first came up, each
class once.

Arguments nest: a list stands for its items, and some values stand for nothing. JSON values can be
merged as they are, with `mergeJson`.
-/

namespace AtomicCss

/-- Values that add nothing to a merge. -/
inductive Absent where
  | false
  | null
  | undefined
deriving DecidableEq, Repr

/-- An argument of a merge. -/
inductive MergeInput where
  | style (style : StyleObject)
  | list (items : List MergeInput)
  | skip (absent : Absent)

/-- The classes that a merge leaves, each once. -/
structure MergeResult where
  classes : List String
deriving DecidableEq, Repr

/-- The class names as the text of an attribute. -/
def MergeResult.text (result : MergeResult) : String :=
  " ".intercalate result.classes

/-- Keys in the order in which they first came up, each with what decides it so far, and an index
that tells the slot of each key. -/
structure Slots where
  slots : List (String × Option String)
  index : KeyMap Nat
  /-- The index finds every key in the one slot that has it. -/
  indexed : ∀ key slot, index.get? key = some slot ↔ (slots.map Prod.fst)[slot]? = some key

namespace Slots

def empty : Slots := ⟨[], ∅, fun _ _ => by simp⟩

/-- Deciding a slot anew leaves its key. -/
theorem map_fst_modify (slots : List (String × Option String)) (slot : Nat)
    (name : Option String) :
    (slots.modify slot fun decided => (decided.1, name)).map Prod.fst = slots.map Prod.fst := by
  refine List.ext_getElem? fun i => ?_
  simp only [List.getElem?_map, List.getElem?_modify]
  cases slots[i]? with
  | none => rfl
  | some decided =>
    by_cases h : slot = i
    · simp [h]
    · simp [h]

/-- Decides the key that has a slot. -/
def overwrite (slots : Slots) (slot : Nat) (name : Option String) : Slots :=
  ⟨slots.slots.modify slot fun decided => (decided.1, name), slots.index, fun key i => by
    rw [map_fst_modify]
    exact slots.indexed key i⟩

/-- Decides a new key in a slot behind the others. -/
def push (slots : Slots) (key : String) (name : Option String)
    (absent : slots.index.get? key = none) : Slots :=
  ⟨slots.slots ++ [(key, name)], slots.index.insert key slots.slots.length, fun other i => by
    have hlength : (slots.slots.map Prod.fst).length = slots.slots.length := List.length_map ..
    rw [KeyMap.get?_insert, List.map_append, List.getElem?_append, hlength]
    split
    · rename_i heq
      subst heq
      -- No slot among the old ones can have the new key.
      have hnone : ∀ j : Nat, (slots.slots.map Prod.fst)[j]? ≠ some key := fun j hj => by
        simp [(slots.indexed key j).2 hj] at absent
      grind
    · rw [slots.indexed other i]
      grind⟩

/-- Decides a key in the slot that it has, or in a new one behind the others. -/
def set (slots : Slots) (key : String) (name : Option String) : Slots :=
  match h : slots.index.get? key with
  | some slot => slots.overwrite slot name
  | none => slots.push key name h

def addEntries (slots : Slots) (entries : List (String × Option String)) : Slots :=
  entries.foldl (fun slots entry => slots.set entry.1 entry.2) slots

mutual

def add (slots : Slots) : MergeInput → Slots
  | .style style => slots.addEntries style.entries
  | .list items => slots.addAll items
  | .skip _ => slots

def addAll (slots : Slots) : List MergeInput → Slots
  | [] => slots
  | item :: rest => (slots.add item).addAll rest

end

/-- Adds the members of a JSON object, except for the marker. -/
def addMembers (slots : Slots) : List (String × Json) → Except MergeError Slots
  | [] => .ok slots
  | (key, value) :: rest =>
    if key = StyleObject.marker then slots.addMembers rest
    else
      match StyleObject.entryOfJson key value with
      | .error error => .error error
      | .ok name => (slots.set key name).addMembers rest

mutual

def addJson (slots : Slots) : Json → Except MergeError Slots
  | .object members => slots.addMembers members
  | .array items => slots.addAllJson items
  | .bool false => .ok slots
  | .null => .ok slots
  | other => .error (.unexpectedArgument (MergeError.describe other))

def addAllJson (slots : Slots) : List Json → Except MergeError Slots
  | [] => .ok slots
  | item :: rest =>
    match slots.addJson item with
    | .error error => .error error
    | .ok slots => slots.addAllJson rest

end

/-- Names in their order, without those seen before. -/
def withoutRepeats (seen : List String) : List String → List String
  | [] => []
  | name :: rest =>
    if name ∈ seen then withoutRepeats seen rest
    else name :: withoutRepeats (name :: seen) rest

/-- The classes that are left, the first one of each name. -/
def result (slots : Slots) : MergeResult :=
  ⟨withoutRepeats [] (slots.slots.filterMap Prod.snd)⟩

end Slots

def merge (inputs : List MergeInput) : MergeResult :=
  (Slots.empty.addAll inputs).result

/-- Merges JSON values without converting them first. -/
def mergeJson (args : List Json) : Except MergeError MergeResult :=
  match Slots.empty.addAllJson args with
  | .error error => .error error
  | .ok slots => .ok slots.result

mutual

def MergeInput.ofJson : Json → Except MergeError MergeInput
  | .object members =>
    match StyleObject.ofJson (.object members) with
    | .error error => .error error
    | .ok object => .ok (.style object)
  | .array items =>
    match MergeInput.listOfJson items with
    | .error error => .error error
    | .ok items => .ok (.list items)
  | .bool false => .ok (.skip .false)
  | .null => .ok (.skip .null)
  | other => .error (.unexpectedArgument (MergeError.describe other))

def MergeInput.listOfJson : List Json → Except MergeError (List MergeInput)
  | [] => .ok []
  | item :: rest =>
    match MergeInput.ofJson item with
    | .error error => .error error
    | .ok item =>
      match MergeInput.listOfJson rest with
      | .error error => .error error
      | .ok rest => .ok (item :: rest)

end

end AtomicCss
