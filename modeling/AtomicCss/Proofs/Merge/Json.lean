import AtomicCss.Json.Ordered
import AtomicCss.Merge
/-!
# Merging JSON values

JSON values can be merged as they are, or be converted first. `mergeJson_eq_merge` says that both
ways give the same classes or the same error. What ties them together is `entriesOfJson`: the
entries of an object without its marker, or the first one that is neither a class nor a reset.
-/

namespace AtomicCss

/-! ## Style objects -/

/-- The entries of a JSON object without its marker. -/
def entriesOfJson : List (String × Json) → Except MergeError (List (String × Option String))
  | [] => .ok []
  | (key, value) :: rest =>
    if key = StyleObject.marker then entriesOfJson rest
    else
      match StyleObject.entryOfJson key value with
      | .error error => .error error
      | .ok name => (entriesOfJson rest).map ((key, name) :: ·)

/-- Whatever is set entry by entry from the members of a JSON object is set from its entries. -/
theorem eq_foldl_entriesOfJson {σ : Type} {set : σ → String → Option String → σ}
    {add : σ → List (String × Json) → Except MergeError σ}
    (hnil : ∀ state, add state [] = .ok state)
    (hcons : ∀ state key value rest, add state ((key, value) :: rest) =
      if key = StyleObject.marker then add state rest
      else
        match StyleObject.entryOfJson key value with
        | .error error => .error error
        | .ok name => add (set state key name) rest)
    (state : σ) (members : List (String × Json)) :
    add state members =
      (entriesOfJson members).map
        (·.foldl (fun state entry => set state entry.1 entry.2) state) := by
  induction members generalizing state with
  | nil => exact hnil state
  | cons head rest ih =>
    rcases head with ⟨key, value⟩
    rw [hcons, entriesOfJson]
    split
    · -- The marker is left out.
      exact ih state
    · cases StyleObject.entryOfJson key value with
      | error error => rfl
      | ok name =>
        simp only [ih]
        cases entriesOfJson rest with
        | error error => rfl
        | ok entries => rfl

theorem slots_addMembers (slots : Slots) (members : List (String × Json)) :
    slots.addMembers members = (entriesOfJson members).map slots.addEntries :=
  eq_foldl_entriesOfJson (fun _ => rfl) (fun _ _ _ _ => rfl) slots members

theorem style_addMembers (style : StyleObject) (members : List (String × Json)) :
    style.addMembers members =
      (entriesOfJson members).map
        (·.foldl (fun style entry => style.set entry.1 entry.2) style) :=
  eq_foldl_entriesOfJson (fun _ => rfl) (fun _ _ _ _ => rfl) style members

/-- The entries of an object have names of its members, in their order. -/
theorem entriesOfJson_keys {members : List (String × Json)}
    {entries : List (String × Option String)} (h : entriesOfJson members = .ok entries) :
    (entries.map Prod.fst).Sublist (members.map Prod.fst) := by
  induction members generalizing entries with
  | nil =>
    cases h
    exact List.Sublist.refl _
  | cons head rest ih =>
    rcases head with ⟨key, value⟩
    rw [entriesOfJson] at h
    split at h
    · -- The marker is left out, and with it its name.
      exact (ih h).cons key
    · split at h
      · cases h
      · rename_i name _
        cases hrest : entriesOfJson rest with
        | error error =>
          rw [hrest] at h
          cases h
        | ok others =>
          rw [hrest] at h
          cases h
          exact (ih hrest).cons_cons key

/-- A name that comes behind all others is inserted at the end. -/
theorem insert_of_forall_lt {key : String} {value : Option String}
    {entries : List (String × Option String)} (h : ∀ entry ∈ entries, entry.1 < key) :
    Entries.insert key value entries = entries ++ [(key, value)] := by
  induction entries with
  | nil => rfl
  | cons head rest ih =>
    rcases head with ⟨name, old⟩
    have hname : name < key := h _ List.mem_cons_self
    have hnlt : ¬ key < name := fun hlt => String.lt_irrefl _ (String.lt_trans hlt hname)
    have hne : key ≠ name := fun heq => String.lt_irrefl name (heq ▸ hname)
    rw [Entries.insert, if_neg hnlt, if_neg hne,
      ih fun entry hentry => h entry (List.mem_cons_of_mem _ hentry), List.cons_append]

/-- Setting keys in ascending order, each behind those that are there, appends their entries. -/
theorem entries_foldl_set (style : StyleObject) (entries : List (String × Option String))
    (h : Entries.Sorted (style.entries ++ entries)) :
    (entries.foldl (fun style entry => style.set entry.1 entry.2) style).entries =
      style.entries ++ entries := by
  induction entries generalizing style with
  | nil => exact (List.append_nil _).symm
  | cons entry rest ih =>
    have hlt : ∀ other ∈ style.entries, other.1 < entry.1 := fun other hother =>
      (List.pairwise_append.1 h).2.2 other hother entry List.mem_cons_self
    have hset : (style.set entry.1 entry.2).entries = style.entries ++ [entry] :=
      insert_of_forall_lt hlt
    rw [List.foldl_cons, ih _ (by rw [hset, List.append_assoc]; exact h), hset,
      List.append_assoc, List.singleton_append]

/-- The style object of an ordered JSON object has the entries of the object. -/
theorem style_ofJson {members : List (String × Json)} (h : Entries.Sorted members) :
    (StyleObject.ofJson (.object members)).map StyleObject.entries = entriesOfJson members := by
  rw [StyleObject.ofJson, style_addMembers]
  cases hentries : entriesOfJson members with
  | error error => rfl
  | ok entries =>
    have hsorted : Entries.Sorted entries :=
      List.pairwise_map.1 ((List.pairwise_map.2 h).sublist (entriesOfJson_keys hentries))
    exact congrArg Except.ok (entries_foldl_set ∅ entries hsorted)

/-! ## Arguments -/

mutual

/-- Adding a JSON value is adding what it converts to. -/
theorem addJson_eq (slots : Slots) (json : Json) (h : json.Ordered) :
    slots.addJson json = (MergeInput.ofJson json).map slots.add :=
  match json with
  | .null => rfl
  | .bool false => rfl
  | .bool true => rfl
  | .number _ => rfl
  | .string _ => rfl
  | .array items => by
    rw [Slots.addJson, MergeInput.ofJson, addAllJson_eq slots items (Json.ordered_array.1 h)]
    cases MergeInput.listOfJson items with
    | error error => rfl
    | ok inputs => simp [Except.map, Slots.add]
  | .object members => by
    rw [Slots.addJson, MergeInput.ofJson, slots_addMembers,
      ← style_ofJson (Json.ordered_object.1 h).1]
    cases StyleObject.ofJson (.object members) with
    | error error => rfl
    | ok style => simp [Except.map, Slots.add]

theorem addAllJson_eq (slots : Slots) (items : List Json) (h : Json.OrderedItems items) :
    slots.addAllJson items = (MergeInput.listOfJson items).map slots.addAll :=
  match items with
  | [] => rfl
  | item :: rest => by
    rw [Json.OrderedItems] at h
    rw [Slots.addAllJson, MergeInput.listOfJson, addJson_eq slots item h.1]
    cases MergeInput.ofJson item with
    | error error => rfl
    | ok input =>
      -- The items behind are added to what the first one has left.
      have hrest := addAllJson_eq (slots.add input) rest h.2
      simp only [Except.map] at hrest ⊢
      rw [hrest]
      cases MergeInput.listOfJson rest with
      | error error => rfl
      | ok inputs => simp [Slots.addAll]

end

/-- Converting a list of JSON values converts one after the other up to the first that fails. -/
theorem listOfJson_eq_mapM (items : List Json) :
    MergeInput.listOfJson items = items.mapM MergeInput.ofJson := by
  induction items with
  | nil => rfl
  | cons item rest ih =>
    rw [MergeInput.listOfJson, List.mapM_cons]
    cases MergeInput.ofJson item with
    | error error => rfl
    | ok input =>
      simp only [ih]
      cases rest.mapM MergeInput.ofJson with
      | error error => rfl
      | ok inputs => rfl

/-- Merging JSON values as they are gives what converting them in order and merging the results
gives: the same classes in the same order, or the error of the first value that does not convert. -/
theorem mergeJson_eq_merge (args : List Json) (h : ∀ arg ∈ args, arg.Ordered) :
    mergeJson args = (args.mapM MergeInput.ofJson).map merge := by
  rw [mergeJson, addAllJson_eq Slots.empty args (Json.orderedItems_iff.2 h), listOfJson_eq_mapM]
  cases args.mapM MergeInput.ofJson with
  | error error => rfl
  | ok inputs => rfl

/-- Objects in lists, and then one more with an entry that is neither a class nor a reset. -/
theorem mergeJson_eq_merge_list :
    let base := Json.object
      [("$$css", .bool true), ("color", .string "x1"), ("margin", .string "x2")]
    let override := Json.array [.null, .object [("color", .null), ("width", .string "x3")]]
    let broken := Json.object [("color", .bool true)]
    (∀ arg ∈ [base, override, broken], arg.Ordered) ∧
      mergeJson [base, override] = ([base, override].mapM MergeInput.ofJson).map merge ∧
      mergeJson [base, override] = .ok ⟨["x2", "x3"]⟩ ∧
      mergeJson [base, override, broken] =
        ([base, override, broken].mapM MergeInput.ofJson).map merge ∧
      mergeJson [base, override, broken] = .error (.invalidEntry "color" "true") := by
  intro base override broken
  have hbase : base.Ordered :=
    Json.ordered_object.2 ⟨by unfold Entries.Sorted; decide, trivial, trivial, trivial, trivial⟩
  have hoverride : override.Ordered :=
    Json.ordered_array.2 ⟨trivial,
      Json.ordered_object.2 ⟨by unfold Entries.Sorted; decide, trivial, trivial, trivial⟩, trivial⟩
  have hbroken : broken.Ordered :=
    Json.ordered_object.2 ⟨by unfold Entries.Sorted; decide, trivial, trivial⟩
  have hordered : ∀ arg ∈ [base, override, broken], arg.Ordered := by
    simp [hbase, hoverride, hbroken]
  have hpair : ∀ arg ∈ [base, override], arg.Ordered := by
    simp [hbase, hoverride]
  exact ⟨hordered, mergeJson_eq_merge [base, override] hpair, rfl,
    mergeJson_eq_merge [base, override, broken] hordered, rfl⟩

end AtomicCss
