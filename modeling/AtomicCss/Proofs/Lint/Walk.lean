import AtomicCss.Lint.Sheet
import AtomicCss.Proofs.Compile.Authored
import AtomicCss.Proofs.Value.Source
import Mathlib.Data.List.Forall2
/-!
# The walk over a sheet that loads

The linter walks over the JSON of a sheet with its own checks of shapes and nesting. Where a sheet
loads, these checks have nothing to say: what is reported comes from rules that look at the
properties that are loaded, and at the keys of contexts that may be used (`walk_sheet`). So what a
rule says about a loaded assignment is said about the sheet (`Walk.exists_check`), and all that is
said about a sheet can be shown from the rules (`Walk.forall_mem`). The check of a value agrees with
the loader even where it has something to say (`checkRaw_eq`).
-/

namespace AtomicCss.Lint

/-! ## Values -/

/-- The linter reads scalars as the loader does. -/
theorem readScalar?_eq : readScalar? = Scalar.ofJson? := by
  funext value
  cases value with
  | _ => rfl

/-- A list can be read just if all its items are scalars. -/
theorem any_not_isScalar_eq (items : List Json) :
    (items.any fun item => !item.isScalar) = (items.mapM Scalar.ofJson?).isNone := by
  induction items with
  | nil => rfl
  | cons item rest ih =>
    rw [List.any_cons, List.mapM_cons, ih]
    cases item with
    | number _ | string _ => cases rest.mapM Scalar.ofJson? <;> rfl
    | _ => rfl

/-- The linter reads values as the loader does, and finds the same wrong with the others. So what has
the right shape can always be read. -/
theorem checkRaw_eq {value : Json} (h : value ≠ .null) (property key path : String) :
    checkRaw property key value path =
      match RawValue.ofJson key value with
      | .error error => [invalidValue error.message path]
      | .ok raw =>
        match normalize {} property raw with
        | .error error => [invalidValue error.message path]
        | .ok _ => [] := by
  cases value with
  | null => exact absurd rfl h
  | array items =>
    cases items with
    | nil => rfl
    | cons item rest =>
      simp only [checkRaw, shapeError?, any_not_isScalar_eq, readRaw?, readScalar?_eq,
        RawValue.ofJson]
      rw [List.mapM_cons]
      cases Scalar.ofJson? item with
      | none => rfl
      | some scalar => cases rest.mapM Scalar.ofJson? <;> rfl
  | _ => rfl

/-! ## Walks -/

/-- What the rules say about the key that opens a block. -/
def checkOpeningAt (rules : List Rule) (path key : String) : List Diagnostic :=
  rules.flatMap fun rule => rule.checkContext ⟨key, none, path⟩

/-- A walk over parts of a sheet that load: all that is said about them, and what they load as. -/
inductive Walk (rules : List Rule) : List Diagnostic → List (Context × Assignment) → Prop
  | nil : Walk rules [] []
  | property {path key : String} {value : Json} {context : Context} {assignment : Assignment}
      (h : Assignment.ofJson (key, value) = .ok assignment) :
      Walk rules (checkPropertyAt rules path key value) [(context, assignment)]
  | opening {path key : String} {context : Context} (hkey : Context.ofKey? key = some context)
      (hcheck : Context.check.{0} context = .ok ⟨⟩) : Walk rules (checkOpeningAt rules path key) []
  | append {said said' : List Diagnostic} {items items' : List (Context × Assignment)}
      (hfirst : Walk rules said items) (hrest : Walk rules said' items') :
      Walk rules (said ++ said') (items ++ items')

namespace Walk

variable {rules : List Rule} {said : List Diagnostic} {items : List (Context × Assignment)}

/-- A walk over parts, one after the other. -/
theorem flatMap {α β : Type} {check : α → List Diagnostic}
    {itemsOf : β → List (Context × Assignment)} {parts : List α} {loaded : List β}
    (h : List.Forall₂ (fun part b => Walk rules (check part) (itemsOf b)) parts loaded) :
    Walk rules (parts.flatMap check) (loaded.flatMap itemsOf) := by
  induction h with
  | nil => exact .nil
  | cons hpart _ ih => exact .append hpart ih

/-- What holds of all that the rules say about loaded properties and about usable contexts holds of
all that is said. -/
theorem forall_mem {P : Diagnostic → Prop} (h : Walk rules said items)
    (hproperty : ∀ path key value, ∀ item ∈ items,
      Assignment.ofJson (key, value) = .ok item.2 → ∀ d ∈ checkPropertyAt rules path key value, P d)
    (hopening : ∀ path key context, Context.ofKey? key = some context →
      Context.check.{0} context = .ok ⟨⟩ →
      ∀ d ∈ checkOpeningAt rules path key, P d) :
    ∀ d ∈ said, P d := by
  -- By induction on the walk: each rule of it says what one hypothesis is about.
  induction h with
  | nil => simp
  | property h => exact hproperty _ _ _ _ List.mem_cons_self h
  | opening hkey hcheck => exact hopening _ _ _ hkey hcheck
  | append _ _ ihfirst ihrest =>
    intro d hd
    rcases List.mem_append.1 hd with hd | hd
    · exact ihfirst (fun path key value item hitem =>
        hproperty path key value item (List.mem_append_left _ hitem)) d hd
    · exact ihrest (fun path key value item hitem =>
        hproperty path key value item (List.mem_append_right _ hitem)) d hd

/-- Each loaded assignment is shown to the rules as the property that it is loaded from. -/
theorem exists_check (h : Walk rules said items) {item : Context × Assignment}
    (hitem : item ∈ items) :
    ∃ path key value, Assignment.ofJson (key, value) = .ok item.2 ∧
      checkPropertyAt rules path key value ⊆ said := by
  induction h with
  | nil => cases hitem
  | property h =>
    obtain rfl := List.mem_singleton.1 hitem
    exact ⟨_, _, _, h, List.Subset.refl _⟩
  | opening => cases hitem
  | append _ _ ihfirst ihrest =>
    rcases List.mem_append.1 hitem with hitem | hitem
    · obtain ⟨path, key, value, hload, hsub⟩ := ihfirst hitem
      exact ⟨path, key, value, hload, List.subset_append_of_subset_left _ hsub⟩
    · obtain ⟨path, key, value, hload, hsub⟩ := ihrest hitem
      exact ⟨path, key, value, hload, List.subset_append_of_subset_right _ hsub⟩

end Walk

/-! ## Level by level -/

variable (rules : List Rule)

/-- A member of a block is walked over as a property. -/
theorem walk_inner {parent : String} {member : String × Json} {assignment : Assignment}
    (h : Assignment.ofJsonIn parent member = .ok assignment) (path : String) (context : Context) :
    Walk rules (checkInner rules parent path member) [(context, assignment)] := by
  rcases member with ⟨key, value⟩
  rw [Assignment.ofJsonIn] at h
  split at h
  · cases h
  · rename_i hkey
    simp only [checkInner, if_neg hkey]
    exact .property h

/-- A member is walked over as a property, or as a block behind its opening. -/
theorem walk_member {member : String × Json} {entry : Sheet.Entry}
    (h : Sheet.Entry.ofJson member = .ok entry) (path : String) :
    Walk rules (checkMember rules path member) entry.assignments := by
  rcases member with ⟨key, value⟩
  cases hkey : Context.ofKey? key with
  | none =>
    simp only [Sheet.Entry.ofJson, hkey] at h
    obtain ⟨assignment, hassignment, ⟨⟩⟩ := Except.bind_eq_ok_iff.1 h
    simp only [checkMember, hkey, Option.isSome_none, Bool.false_eq_true, if_false]
    exact .property hassignment
  | some context =>
    simp only [Sheet.Entry.ofJson, hkey] at h
    obtain ⟨⟨⟩, hcheck, hvalue⟩ := Except.bind_eq_ok_iff.1 h
    cases value with
    | object body =>
      obtain ⟨assignments, hbody, ⟨⟩⟩ := Except.bind_eq_ok_iff.1 hvalue
      have hwalk := Walk.flatMap ((forall₂_of_mapM hbody).imp fun inner assignment hload =>
        walk_inner rules hload (path ++ "." ++ key) context)
      rw [← List.map_eq_flatMap] at hwalk
      simp only [checkMember, hkey, Option.isSome_some, if_true]
      exact .append (.opening hkey hcheck) hwalk
    | _ => cases hvalue

/-- A namespace is walked over member by member. -/
theorem walk_namespace {member : String × Json} {ns : Namespace}
    (h : Namespace.ofJson member = .ok ns) :
    Walk rules (checkNamespace rules member) ns.assignments := by
  rcases member with ⟨name, value⟩
  cases value with
  | object body =>
    obtain ⟨entries, hbody, ⟨⟩⟩ := Except.bind_eq_ok_iff.1 h
    exact Walk.flatMap ((forall₂_of_mapM hbody).imp fun member entry hload =>
      walk_member rules hload name)
  | _ => cases h

/-- The linter's walk over a sheet that loads. -/
theorem walk_sheet {sheet : Json} {loaded : Sheet} (h : Sheet.ofJson sheet = .ok loaded) :
    Walk rules (checkSheet rules sheet) loaded.assignments := by
  cases sheet with
  | object members =>
    obtain ⟨namespaces, hmembers, ⟨⟩⟩ := Except.bind_eq_ok_iff.1 h
    exact Walk.flatMap ((forall₂_of_mapM hmembers).imp fun member ns hload =>
      walk_namespace rules hload)
  | _ => cases h

end AtomicCss.Lint
