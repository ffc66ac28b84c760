import AtomicCss.Proofs.Merge.Json
import AtomicCss.Proofs.Merge.Meaning
/-!
# Arguments of a merge through JSON

Arguments of a merge can be written as JSON, read back, and merged as they are written. Reading back
gives the same arguments but for `undefined`, which JSON does not have, and merging what is written
gives the same classes (`mergeJson_toJson`). The one condition is that no style has a key that looks
like the marker: such an entry is lost.
-/

namespace AtomicCss

/-! ## Style objects -/

namespace StyleObject

/-- An object that has no key of the marker's name. -/
def Unmarked (style : StyleObject) : Prop :=
  style.get? marker = none

variable {style : StyleObject}

theorem Unmarked.ne_marker (h : style.Unmarked) {entry : String × Option String}
    (hentry : entry ∈ style.entries) : entry.1 ≠ marker := by
  intro heq
  have hget : style.get? marker = some entry.2 :=
    KeyMap.mem_entries_iff.1 (heq ▸ hentry)
  rw [h] at hget
  cases hget

end StyleObject

/-- An entry is read as it was written. -/
theorem entryOfJson_entryJson (key : String) (name : Option String) :
    StyleObject.entryOfJson key (StyleObject.entryJson name) = .ok name := by
  cases name with
  | none => rfl
  | some name => rfl

/-- The marker leaves no trace, wherever it stands among the members. -/
theorem entriesOfJson_insert_marker (value : Json) {members : List (String × Json)}
    (h : ∀ entry ∈ members, entry.1 ≠ StyleObject.marker) :
    entriesOfJson (Entries.insert StyleObject.marker value members) = entriesOfJson members := by
  induction members with
  | nil => simp [Entries.insert, entriesOfJson]
  | cons head rest ih =>
    rcases head with ⟨key, old⟩
    have hkey : key ≠ StyleObject.marker := h _ List.mem_cons_self
    have hrest := ih fun entry hentry => h entry (List.mem_cons_of_mem _ hentry)
    rw [Entries.insert]
    split
    · -- The marker comes first.
      rw [entriesOfJson, if_pos rfl]
    · rw [if_neg hkey.symm, entriesOfJson, hrest, entriesOfJson]

/-- Entries without the marker are read as they were written. -/
theorem entriesOfJson_entryJson {entries : List (String × Option String)}
    (h : ∀ entry ∈ entries, entry.1 ≠ StyleObject.marker) :
    entriesOfJson (entries.map fun (key, name) => (key, StyleObject.entryJson name)) =
      .ok entries := by
  induction entries with
  | nil => rfl
  | cons head rest ih =>
    rcases head with ⟨key, name⟩
    have hkey : key ≠ StyleObject.marker := h _ List.mem_cons_self
    have hrest := ih fun entry hentry => h entry (List.mem_cons_of_mem _ hentry)
    rw [List.map_cons, entriesOfJson, if_neg hkey, entryOfJson_entryJson, hrest]
    rfl

namespace StyleObject

variable {style : StyleObject}

/-- The JSON of an object has the entries of the object. -/
theorem Unmarked.entriesOfJson_toJson (h : style.Unmarked) :
    entriesOfJson (Entries.insert marker (.bool true) style.members) = .ok style.entries := by
  have hmembers : ∀ entry ∈ style.members, entry.1 ≠ marker := by
    intro entry hentry
    obtain ⟨original, horiginal, rfl⟩ := List.mem_map.1 hentry
    exact h.ne_marker horiginal
  rw [entriesOfJson_insert_marker _ hmembers]
  exact entriesOfJson_entryJson fun entry => h.ne_marker

/-- An object is what is read back from its JSON. -/
theorem Unmarked.ofJson_toJson (h : style.Unmarked) : ofJson style.toJson = .ok style := by
  have hmembers : Entries.Sorted style.members := List.pairwise_map.2 style.classes.sorted
  have hread := style_ofJson (hmembers.insert marker (.bool true))
  rw [h.entriesOfJson_toJson] at hread
  rw [toJson]
  cases hof : ofJson (.object (Entries.insert marker (.bool true) style.members)) with
  | error error =>
    rw [hof] at hread
    cases hread
  | ok read =>
    rw [hof] at hread
    have hentries : read.classes.entries = style.classes.entries := Except.ok.inj hread
    have hclasses : read.classes = style.classes := KeyMap.ext hentries
    exact congrArg (fun classes => Except.ok (StyleObject.mk classes)) hclasses

end StyleObject

/-! ## Arguments -/

mutual

/-- An argument as JSON: a list is an array, and what is neither a style nor a list is `false` or
`null`. -/
def MergeInput.toJson : MergeInput → Json
  | .style object => object.toJson
  | .list items => .array (MergeInput.toJsons items)
  | .skip .false => .bool false
  | .skip .null => .null
  | .skip .undefined => .null

def MergeInput.toJsons : List MergeInput → List Json
  | [] => []
  | item :: rest => item.toJson :: MergeInput.toJsons rest

end

mutual

/-- An argument with `null` for what is undefined. -/
def MergeInput.defined : MergeInput → MergeInput
  | .style object => .style object
  | .list items => .list (MergeInput.allDefined items)
  | .skip .undefined => .skip .null
  | .skip absent => .skip absent

def MergeInput.allDefined : List MergeInput → List MergeInput
  | [] => []
  | item :: rest => item.defined :: MergeInput.allDefined rest

end

theorem MergeInput.toJsons_eq_map (items : List MergeInput) :
    MergeInput.toJsons items = items.map MergeInput.toJson := by
  induction items with
  | nil => rfl
  | cons item rest ih => rw [MergeInput.toJsons, ih, List.map_cons]

/-- The styles of a list are those of its items. -/
theorem MergeInput.mem_stylesOf {style : StyleObject} {items : List MergeInput} :
    style ∈ MergeInput.stylesOf items ↔ ∃ item ∈ items, style ∈ item.styles := by
  induction items with
  | nil => simp [MergeInput.stylesOf]
  | cons item rest ih => simp [MergeInput.stylesOf, ih]

mutual

/-- What is read back from the JSON of an argument is the argument, with `null` for what is
undefined. -/
theorem MergeInput.ofJson_toJson (input : MergeInput) (h : ∀ style ∈ input.styles, style.Unmarked) :
    MergeInput.ofJson input.toJson = .ok input.defined :=
  match input with
  | .style object => by
    have hread := (h object (by simp [MergeInput.styles])).ofJson_toJson
    rw [MergeInput.toJson, StyleObject.toJson, MergeInput.ofJson, ← StyleObject.toJson, hread,
      MergeInput.defined]
  | .list items => by
    rw [MergeInput.styles] at h
    rw [MergeInput.toJson, MergeInput.ofJson, MergeInput.listOfJson_toJsons items h,
      MergeInput.defined]
  | .skip .false => rfl
  | .skip .null => rfl
  | .skip .undefined => rfl

/-- A list is read as it was written, with a `null` for what is undefined. -/
theorem MergeInput.listOfJson_toJsons (items : List MergeInput)
    (h : ∀ style ∈ MergeInput.stylesOf items, style.Unmarked) :
    MergeInput.listOfJson (MergeInput.toJsons items) = .ok (MergeInput.allDefined items) :=
  match items with
  | [] => rfl
  | item :: rest => by
    simp only [MergeInput.stylesOf, List.mem_append] at h
    rw [MergeInput.toJsons, MergeInput.listOfJson,
      MergeInput.ofJson_toJson item fun style hstyle => h style (.inl hstyle),
      MergeInput.listOfJson_toJsons rest fun style hstyle => h style (.inr hstyle),
      MergeInput.allDefined]

end

namespace Slots

mutual

/-- Adding the JSON of an argument is adding the argument. -/
theorem addJson_toJson (slots : Slots) (input : MergeInput)
    (h : ∀ style ∈ input.styles, style.Unmarked) :
    slots.addJson input.toJson = .ok (slots.add input) :=
  match input with
  | .style object => by
    have hentries := (h object (by simp [MergeInput.styles])).entriesOfJson_toJson
    rw [MergeInput.toJson, StyleObject.toJson, addJson, slots_addMembers, hentries, add]
    rfl
  | .list items => by
    rw [MergeInput.styles] at h
    rw [MergeInput.toJson, addJson, addAllJson_toJsons slots items h, add]
  | .skip .false => rfl
  | .skip .null => rfl
  | .skip .undefined => rfl

/-- Adding what was written adds what it was written for. -/
theorem addAllJson_toJsons (slots : Slots) (items : List MergeInput)
    (h : ∀ style ∈ MergeInput.stylesOf items, style.Unmarked) :
    slots.addAllJson (MergeInput.toJsons items) = .ok (slots.addAll items) :=
  match items with
  | [] => rfl
  | item :: rest => by
    simp only [MergeInput.stylesOf, List.mem_append] at h
    rw [MergeInput.toJsons, addAllJson,
      addJson_toJson slots item fun style hstyle => h style (.inl hstyle)]
    exact addAllJson_toJsons _ rest fun style hstyle => h style (.inr hstyle)

end

end Slots

/-- Arguments whose styles have no key of the marker's name survive the trip through JSON: each
style is read back as it is and each argument as it is but for `undefined`, and merging what is
written gives the classes of the merge, in the same order. -/
theorem mergeJson_toJson (inputs : List MergeInput)
    (h : ∀ input ∈ inputs, ∀ style ∈ input.styles, style.Unmarked) :
    (∀ input ∈ inputs, MergeInput.ofJson input.toJson = .ok input.defined ∧
        ∀ style ∈ input.styles, StyleObject.ofJson style.toJson = .ok style) ∧
      mergeJson (inputs.map MergeInput.toJson) = .ok (merge inputs) := by
  refine ⟨fun input hinput => ⟨input.ofJson_toJson (h input hinput), ?_⟩, ?_⟩
  · intro style hstyle
    exact (h input hinput style hstyle).ofJson_toJson
  · have hall : ∀ style ∈ MergeInput.stylesOf inputs, style.Unmarked := by
      intro style hstyle
      obtain ⟨input, hinput, hmem⟩ := MergeInput.mem_stylesOf.1 hstyle
      exact h input hinput style hmem
    rw [← MergeInput.toJsons_eq_map, mergeJson, Slots.addAllJson_toJsons Slots.empty inputs hall]
    rfl

/-- Two styles, one of them in a list with a value that is undefined, and a key behind the marker in
the order of names. -/
theorem mergeJson_toJson_nested :
    let base : StyleObject := .ofList [("color", some "x1"), ("margin", some "x2")]
    let override : StyleObject := .ofList [("!", some "x3"), ("margin", none)]
    let inputs : List MergeInput := [.style base, .list [.skip .undefined, .style override]]
    (∀ input ∈ inputs, ∀ style ∈ input.styles, style.Unmarked) ∧
      MergeInput.ofJson (MergeInput.list [.skip .undefined, .style override]).toJson =
        .ok (.list [.skip .null, .style override]) ∧
      mergeJson (inputs.map MergeInput.toJson) = .ok ⟨["x1", "x3"]⟩ := by
  intro base override inputs
  have hbase : base.Unmarked := by unfold StyleObject.Unmarked; decide +kernel
  have hoverride : override.Unmarked := by unfold StyleObject.Unmarked; decide +kernel
  have hunmarked : ∀ input ∈ inputs, ∀ style ∈ input.styles, style.Unmarked := by
    simp [inputs, MergeInput.styles, MergeInput.stylesOf, hbase, hoverride]
  obtain ⟨hinputs, hmerge⟩ := mergeJson_toJson inputs hunmarked
  have hclasses : merge inputs = ⟨["x1", "x3"]⟩ := by decide +kernel
  have hmem : MergeInput.list [.skip .undefined, .style override] ∈ inputs := by simp [inputs]
  exact ⟨hunmarked, (hinputs _ hmem).1, hclasses ▸ hmerge⟩

end AtomicCss
