import AtomicCss.Sheet.Grammar
/-!
# Loading accepts the grammar

A JSON value is loaded if and only if it is legal; the sheet then keeps all that the value says, and
otherwise the first offence is the error (`Sheet.ofJson_outcome`). Loader and offences are compared level
by level: `LoadsAs` is what is shown of each part, and lists of parts are dealt with once
(`LoadsAs.mapM`).
-/

namespace AtomicCss

/-! ## Loading part by part -/

/-- A part without offences is loaded and kept, and of one with offences the first is the error. -/
def LoadsAs {α : Type} (keeps : α → Prop) (offences : List SheetError) : Except SheetError α → Prop
  | .ok a => offences = [] ∧ keeps a
  | .error error => offences.head? = some error

namespace LoadsAs

variable {α β : Type} {keeps : α → Prop} {offences : List SheetError} {result : Except SheetError α}

/-- What is made of a part that is loaded has no other offences. -/
theorem map {keeps' : β → Prop} {f : α → β} (h : LoadsAs keeps offences result)
    (hf : ∀ a, keeps a → keeps' (f a)) :
    LoadsAs keeps' offences (result.bind fun a => pure (f a)) := by
  cases result with
  | error error => exact h
  | ok a => exact ⟨h.1, hf a h.2⟩

/-- Parts are loaded in order, up to the first that has an offence. -/
theorem mapM {keeps : β → α → Prop} {offences : β → List SheetError} {f : β → Except SheetError α}
    {items : List β} (h : ∀ item ∈ items, LoadsAs (keeps item) (offences item) (f item)) :
    LoadsAs (List.Forall₂ keeps items) (items.flatMap offences) (items.mapM f) := by
  -- The first item with an offence decides; those behind it are listed, but not loaded.
  induction items with
  | nil => exact ⟨rfl, .nil⟩
  | cons item rest ih =>
    have hitem := h item List.mem_cons_self
    have hrest := ih fun other hother => h other (List.mem_cons_of_mem _ hother)
    rw [List.mapM_cons, List.flatMap_cons]
    cases hf : f item with
    | error error =>
      rw [hf] at hitem
      have hfirst : (offences item).head? = some error := hitem
      change (offences item ++ rest.flatMap offences).head? = some error
      rw [List.head?_append, hfirst, Option.some_or]
    | ok a =>
      rw [hf] at hitem
      rw [hitem.1, List.nil_append]
      exact hrest.map (f := fun as => a :: as) fun as has => .cons hitem.2 has

end LoadsAs

/-! ## Values -/

/-- A scalar is kept, and what is no scalar is the given offence. -/
theorem Scalar.loadsAs (offence : SheetError) (json : Json) :
    LoadsAs (Keeps json) (if json.isScalar then [] else [offence])
      ((ofJson? json).elim (.error offence) .ok) := by
  cases json with
  | number n => exact ⟨rfl, .number n⟩
  | string s => exact ⟨rfl, .text s⟩
  | _ => rfl

/-- The first item without a result decides, as an error would. -/
theorem mapM_elim {α β ε : Type} (f : α → Option β) (error : ε) (items : List α) :
    items.mapM (fun item => (f item).elim (.error error) Except.ok) =
      (items.mapM f).elim (.error error) .ok := by
  induction items with
  | nil => rfl
  | cons item rest ih =>
    rw [List.mapM_cons, List.mapM_cons, ih]
    cases f item with
    | none => rfl
    | some result => cases rest.mapM f <;> rfl

/-- The items of a list are loaded one after the other. -/
theorem RawValue.ofJson_array (key : String) (item : Json) (rest : List Json) :
    ofJson key (.array (item :: rest)) =
      ((item :: rest).mapM fun item =>
        (Scalar.ofJson? item).elim (.error (SheetError.illegalArray key)) Except.ok).bind
          fun scalars => pure (.fallbacks scalars) := by
  -- The loader has one error for the whole list, which is the error of each item.
  rw [mapM_elim, ofJson, List.mapM_cons]
  cases Scalar.ofJson? item with
  | none => rfl
  | some scalar => cases rest.mapM Scalar.ofJson? <;> rfl

/-- What is no list is loaded as a scalar. -/
theorem RawValue.ofJson_single {key : String} {value : Json} (h : ∀ items, value ≠ .array items) :
    ofJson key value =
      ((Scalar.ofJson? value).elim (.error (SheetError.illegalValue key)) Except.ok).bind
        fun scalar => pure (.single scalar) := by
  cases value with
  | array items => exact absurd rfl (h items)
  | _ => rfl

/-- A value is kept as a scalar or as a list of such. -/
theorem RawValue.loadsAs (key : String) (value : Json) :
    LoadsAs (Keeps value) (offences key value) (ofJson key value) := by
  -- Lists and single values are loaded in two ways, and an empty list in neither.
  by_cases harray : ∃ items, value = .array items
  · obtain ⟨items, rfl⟩ := harray
    cases items with
    | nil => rfl
    | cons item rest =>
      rw [ofJson_array]
      exact LoadsAs.map (LoadsAs.mapM fun item _ => Scalar.loadsAs (.illegalArray key) item)
        fun _ hscalars => .fallbacks hscalars
  · have hsingle : ∀ items, value ≠ .array items := fun items heq => harray ⟨items, heq⟩
    have hoffences : offences key value = if value.isScalar then [] else [.illegalValue key] := by
      cases value with
      | array items => exact absurd rfl (hsingle items)
      | _ => rfl
    rw [ofJson_single hsingle, hoffences]
    exact LoadsAs.map (Scalar.loadsAs (.illegalValue key) value) fun _ hscalar => .single hscalar

/-! ## Properties -/

theorem Keyframes.loadsAs_property (member : String × Json) :
    LoadsAs (KeepsProperty member) (RawValue.offences member.1 member.2) (propertyOfJson member) :=
  LoadsAs.map (RawValue.loadsAs member.1 member.2) fun _ hraw => ⟨rfl, hraw⟩

/-- A step is loaded property by property. -/
theorem Keyframes.Step.loadsAs (step : String × Json) :
    LoadsAs (Keeps step) (offences step) (ofJson step) := by
  obtain ⟨selector, body⟩ := step
  cases body with
  | object members =>
    exact LoadsAs.map (LoadsAs.mapM fun member _ => loadsAs_property member)
      fun _ hproperties => .object hproperties
  | _ => rfl

/-- An assignment is loaded as a reset, as keyframes or as a value. -/
theorem Assignment.loadsAs (member : String × Json) :
    LoadsAs (Keeps member) (offences member) (ofJson member) := by
  obtain ⟨key, value⟩ := member
  have hraw : LoadsAs (Keeps (key, value)) (RawValue.offences key value)
      ((RawValue.ofJson key value).bind fun raw => pure ⟨key, .value raw⟩) :=
    LoadsAs.map (RawValue.loadsAs key value) fun _ hkept => .value hkept
  -- Only a null and an object are not read as a value.
  cases value with
  | null => exact ⟨rfl, .reset⟩
  | object steps =>
    simp only [offences, ofJson]
    split
    · exact LoadsAs.map (LoadsAs.mapM fun step _ => Keyframes.Step.loadsAs step)
        fun _ hsteps => .keyframes hsteps
    · rfl
  | _ => exact hraw

/-! ## Sheets -/

/-- The keys that open a block are those with a context. -/
theorem Sheet.isSome_ofKey? (key : String) : (Context.ofKey? key).isSome = opensBlock key := by
  unfold Context.ofKey? opensBlock
  cases trim key.toList with
  | nil => rfl
  | cons c rest =>
    by_cases hcolon : c = ':'
    · simp [hcolon]
    · by_cases hat : c = '@' <;> simp [hcolon, hat]

theorem Assignment.loadsAs_in (parent : String) (member : String × Json) :
    LoadsAs (Keeps member) (offencesIn parent member) (ofJsonIn parent member) := by
  rw [offencesIn, ofJsonIn, Sheet.isSome_ofKey?]
  split
  · rfl
  · exact loadsAs member

/-- Only pseudo selectors are checked, and those by their text without blanks around it. -/
theorem Context.check_eq {key : String} {context : Context} (h : ofKey? key = some context) :
    context.check = if Sheet.isUsable key then .ok ⟨⟩
      else .error (.unknownPseudo (String.ofList (trim key.toList))) := by
  unfold ofKey? at h
  split at h
  · rename_i rest htrim
    obtain rfl := Option.some.inj h
    simp [check, Sheet.isUsable, htrim]
  · rename_i rest htrim
    obtain rfl := Option.some.inj h
    simp [check, Sheet.isUsable, htrim]
  · contradiction

/-- A member is loaded as a block or as an assignment. -/
theorem Sheet.Entry.loadsAs (member : String × Json) :
    LoadsAs (Keeps member) (offences member) (ofJson member) := by
  obtain ⟨key, value⟩ := member
  rw [offences, ofJson, ← isSome_ofKey?]
  cases hkey : Context.ofKey? key with
  | none =>
    have hopens : opensBlock key = false := by rw [← isSome_ofKey?, hkey]; rfl
    exact LoadsAs.map (Assignment.loadsAs (key, value)) fun _ hassignment => .single hopens hassignment
  | some context =>
    -- The key is checked first. If it may not be used, nothing behind it is looked at.
    simp only [Option.isSome_some, if_true, Context.check_eq hkey]
    split
    · rw [List.nil_append]
      cases value with
      | object members =>
        exact LoadsAs.map (LoadsAs.mapM fun member _ => Assignment.loadsAs_in key member)
          fun _ hassignments => .block hkey hassignments
      | _ => rfl
    · rfl

/-- A namespace is loaded member by member. -/
theorem Namespace.loadsAs (member : String × Json) :
    LoadsAs (Keeps member) (offences member) (ofJson member) := by
  obtain ⟨name, value⟩ := member
  cases value with
  | object members =>
    exact LoadsAs.map (LoadsAs.mapM fun member _ => Sheet.Entry.loadsAs member)
      fun _ hentries => .object hentries
  | _ => rfl

/-- A sheet is loaded namespace by namespace. -/
theorem Sheet.loadsAs (json : Json) : LoadsAs (Keeps json) (offences json) (ofJson json) := by
  cases json with
  | object members =>
    exact LoadsAs.map (LoadsAs.mapM fun member _ => Namespace.loadsAs member)
      fun _ hnamespaces => .object hnamespaces
  | _ => rfl

/-! ## Parts without offences -/

namespace RawValue

theorem offences_eq_nil_of_isScalar {value : Json} (h : value.isScalar) (key : String) :
    offences key value = [] := by
  cases value with
  | number _ | string _ => rfl
  | _ => contradiction

/-- A list of values has no offences if it has items and all of them are scalars. -/
theorem offences_array_eq_nil_iff (key : String) (items : List Json) :
    offences key (.array items) = [] ↔ items ≠ [] ∧ ∀ item ∈ items, item.isScalar := by
  cases items with
  | nil => simp [offences]
  | cons item rest => simp [offences]

/-- Values without offences are those that the grammar has. -/
theorem offences_eq_nil_iff (key : String) (value : Json) :
    offences key value = [] ↔ value.IsScalars := by
  constructor
  · intro h
    cases value with
    | number _ | string _ => exact .single rfl
    | array items =>
      obtain ⟨hne, hitems⟩ := (offences_array_eq_nil_iff key items).mp h
      exact .fallbacks hne hitems
    | _ => contradiction
  · rintro (hscalar | ⟨hne, hitems⟩)
    · exact offences_eq_nil_of_isScalar hscalar key
    · exact (offences_array_eq_nil_iff key _).mpr ⟨hne, hitems⟩

end RawValue

theorem Keyframes.Step.offences_eq_nil_iff (step : String × Json) :
    offences step = [] ↔ ∃ properties, step.2 = .object properties ∧
      ∀ property ∈ properties, property.2.IsScalars := by
  obtain ⟨selector, body⟩ := step
  cases body <;> simp [offences, RawValue.offences_eq_nil_iff]

namespace Assignment

/-- An object is a value only as the keyframes of an animation. -/
theorem isLegal_object_iff {key : String} {steps : List (String × Json)} :
    IsLegal key (.object steps) ↔ Property.cssName key = animationName ∧
      ∀ step ∈ steps, ∃ properties, step.2 = .object properties ∧
        ∀ property ∈ properties, property.2.IsScalars := by
  constructor
  · rintro (_ | hscalars | ⟨hname, hsteps⟩)
    · cases hscalars
      contradiction
    · exact ⟨hname, hsteps⟩
  · rintro ⟨hname, hsteps⟩
    exact .keyframes hname hsteps

theorem offences_eq_nil_iff (member : String × Json) :
    offences member = [] ↔ IsLegal member.1 member.2 := by
  obtain ⟨key, value⟩ := member
  have hraw : RawValue.offences key value = [] ↔ value.IsScalars :=
    RawValue.offences_eq_nil_iff key value
  cases value with
  | null => exact ⟨fun _ => .reset, fun _ => rfl⟩
  | object steps =>
    rw [isLegal_object_iff]
    simp only [offences]
    split
    · rename_i hname
      simp [hname, Keyframes.Step.offences_eq_nil_iff]
    · rename_i hname
      simp [hname]
  | _ =>
    refine hraw.trans ⟨.value, fun h => ?_⟩
    cases h
    assumption

theorem offencesIn_eq_nil_iff (parent : String) (member : String × Json) :
    offencesIn parent member = [] ↔
      Sheet.opensBlock member.1 = false ∧ IsLegal member.1 member.2 := by
  rw [offencesIn, ← offences_eq_nil_iff]
  split <;> simp_all

end Assignment

/-- Members without offences are those that the grammar has. -/
theorem Sheet.Entry.offences_eq_nil_iff (member : String × Json) :
    offences member = [] ↔ IsLegal member := by
  obtain ⟨key, value⟩ := member
  rw [offences]
  split
  · rename_i hopens
    constructor
    · intro h
      obtain ⟨husable, hmembers⟩ := List.append_eq_nil_iff.mp h
      cases value with
      | object members =>
        refine .block hopens (by simpa using husable) fun member hmember => ?_
        exact (Assignment.offencesIn_eq_nil_iff key member).mp
          (List.flatMap_eq_nil_iff.mp hmembers member hmember)
      | _ => contradiction
    · rintro (⟨hkey, -⟩ | ⟨-, husable, hmembers⟩)
      · exact absurd hopens (by simp [hkey])
      · rw [if_pos husable, List.nil_append]
        exact List.flatMap_eq_nil_iff.mpr fun member hmember =>
          (Assignment.offencesIn_eq_nil_iff key member).mpr (hmembers member hmember)
  · rename_i hplain
    rw [Assignment.offences_eq_nil_iff]
    constructor
    · exact .single (by simpa using hplain)
    · rintro (⟨-, hvalue⟩ | ⟨hkey, -, -⟩)
      · exact hvalue
      · exact absurd hkey hplain

theorem Namespace.offences_eq_nil_iff (member : String × Json) :
    offences member = [] ↔ ∃ members, member.2 = .object members ∧
      ∀ member ∈ members, Sheet.Entry.IsLegal member := by
  obtain ⟨name, value⟩ := member
  cases value <;> simp [offences, Sheet.Entry.offences_eq_nil_iff]

/-- Sheets without offences are those that the grammar has. -/
theorem Sheet.offences_eq_nil_iff (json : Json) : offences json = [] ↔ IsLegal json := by
  constructor
  · intro h
    cases json with
    | object namespaces =>
      exact .object fun ns hns =>
        (Namespace.offences_eq_nil_iff ns).mp (List.flatMap_eq_nil_iff.mp h ns hns)
    | _ => contradiction
  · rintro ⟨hnamespaces⟩
    exact List.flatMap_eq_nil_iff.mpr fun ns hns =>
      (Namespace.offences_eq_nil_iff ns).mpr (hnamespaces ns hns)

/-! ## The outcome -/

/-- Loading succeeds exactly on legal values. The sheet then keeps the value, and without one the error is
the first offence. -/
theorem Sheet.ofJson_outcome (json : Json) :
    ((∃ sheet, ofJson json = .ok sheet) ↔ IsLegal json) ∧
      ((∃ sheet, ofJson json = .ok sheet ∧ Keeps json sheet) ∨
        ∃ error, ofJson json = .error error ∧ (offences json).head? = some error) := by
  have hloads := loadsAs json
  rw [← offences_eq_nil_iff]
  cases hjson : ofJson json with
  | ok sheet =>
    rw [hjson] at hloads
    obtain ⟨hnone, hkeeps⟩ := hloads
    exact ⟨iff_of_true ⟨sheet, rfl⟩ hnone, .inl ⟨sheet, rfl, hkeeps⟩⟩
  | error error =>
    rw [hjson] at hloads
    have hfirst : (offences json).head? = some error := hloads
    have hsome : offences json ≠ [] := fun hnone => by simp [hnone] at hfirst
    exact ⟨iff_of_false (fun ⟨sheet, hsheet⟩ => nomatch hsheet) hsome, .inr ⟨error, rfl, hfirst⟩⟩

/-- Of a block, the key is looked at before what stands behind it. -/
example : Sheet.ofJson (.object [("box", .object [(":hoover", .null), ("color", .bool true)])]) =
    .error (.unknownPseudo ":hoover") := by
  rfl

end AtomicCss
