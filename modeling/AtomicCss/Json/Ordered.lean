import AtomicCss.Json.Basic
import AtomicCss.KeyMap
/-!
# Ordered JSON values

A JSON value is ordered if its objects list their members by name, each name once, at every depth.
-/

namespace AtomicCss.Json

mutual

def Ordered : Json → Prop
  | .array items => OrderedItems items
  | .object members => Entries.Sorted members ∧ OrderedMembers members
  | _ => True

def OrderedItems : List Json → Prop
  | [] => True
  | item :: rest => item.Ordered ∧ OrderedItems rest

def OrderedMembers : List (String × Json) → Prop
  | [] => True
  | (_, value) :: rest => value.Ordered ∧ OrderedMembers rest

end

@[simp]
theorem ordered_array {items : List Json} : (array items).Ordered ↔ OrderedItems items := by
  rw [Ordered]

/-- An object is ordered if its names are and all values are ordered. -/
@[simp]
theorem ordered_object {members : List (String × Json)} :
    (object members).Ordered ↔ Entries.Sorted members ∧ OrderedMembers members := by
  rw [Ordered]

/-- Items are ordered if each of them is. -/
theorem orderedItems_iff {items : List Json} :
    OrderedItems items ↔ ∀ item ∈ items, item.Ordered := by
  induction items with
  | nil => simp [OrderedItems]
  | cons item rest ih => simp [OrderedItems, ih]

end AtomicCss.Json
