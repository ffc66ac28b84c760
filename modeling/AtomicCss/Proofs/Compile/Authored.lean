import AtomicCss.Plan
import Mathlib.Data.List.Basic
/-!
# What is authored

What an assignment means is stated here without a store: the declaration that it makes, the block of
keyframes that it defines, what it gives the key of its property, and what is wrong with its value.
An assignment takes effect just if nothing is wrong with its value (`error?_eq_none_iff`). Then it
gives its key one thing (`gives_iff`), and what it emits are the block that it defines and the
declaration that it makes (`mem_emissions_iff`).
-/

theorem Except.map_eq_ok_iff {ε α β : Type} {f : α → β} {result : Except ε α} {b : β} :
    result.map f = .ok b ↔ ∃ a, result = .ok a ∧ f a = b := by
  cases result with
  | error error => simp [Except.map]
  | ok a => simp [Except.map]

/-- A computation in two parts succeeds if both parts do. -/
theorem Except.bind_eq_ok_iff {ε α β : Type} {result : Except ε α} {f : α → Except ε β} {b : β} :
    (result >>= f) = .ok b ↔ ∃ a, result = .ok a ∧ f a = .ok b := by
  cases result with
  | error error => simp [bind, Except.bind]
  | ok a => simp [bind, Except.bind]

namespace AtomicCss

/-- Among the items of a list that have a property there is one that no other is behind, if there are
any. In a namespace the last assignment to a key decides, and in a stylesheet the last rule. -/
theorem forall_not_or_exists_last {α : Type} (Q : α → Prop) (items : List α) :
    (∀ item ∈ items, ¬ Q item) ∨
      ∃ before item after, items = before ++ item :: after ∧ Q item ∧ ∀ later ∈ after, ¬ Q later := by
  induction items with
  | nil => exact .inl fun item hitem => nomatch hitem
  | cons head rest ih =>
    rcases ih with hnone | ⟨before, item, after, rfl, hitem, hlast⟩
    · -- Only the head is left to be the last one.
      by_cases hhead : Q head
      · exact .inr ⟨[], head, rest, rfl, hhead, hnone⟩
      · exact .inl (List.forall_mem_cons.2 ⟨hhead, hnone⟩)
    · exact .inr ⟨head :: before, item, after, rfl, hitem, hlast⟩

namespace Assignment

/-- The CSS name of the property that is assigned. -/
def property (assignment : Assignment) : String :=
  Property.cssName assignment.key

/-- The key of a compiled object that an assignment decides in a context. -/
def keyIn (context : Context) (assignment : Assignment) : String :=
  context.decorate (Property.styleKey assignment.property)

/-- The keys that an assignment resets in a context. -/
def resetKeysIn (context : Context) (assignment : Assignment) : List String :=
  (Property.resets assignment.property).map fun property =>
    context.decorate (Property.styleKey property)

/-- The block of keyframes that an assignment defines. -/
inductive Defines (options : Options) : Assignment → Keyframes.Block → Prop
  | keyframes {key : String} {keyframes : Keyframes} {block : Keyframes.Block}
      (h : keyframes.normalize options = .ok block) : Defines options ⟨key, .keyframes keyframes⟩ block

/-- The declaration that an assignment makes in a context. The value of keyframes is the name of
their block. -/
inductive Declares (options : Options) (context : Context) : Assignment → Declaration → Prop
  | value {key : String} {raw : RawValue} {value : Value}
      (h : normalize options (Property.cssName key) raw = .ok value) :
      Declares options context ⟨key, .value raw⟩ ⟨Property.cssName key, value, context⟩
  | keyframes {key : String} {keyframes : Keyframes} {block : Keyframes.Block}
      (h : keyframes.normalize options = .ok block) :
      Declares options context ⟨key, .keyframes keyframes⟩
        ⟨Property.cssName key, ⟨[block.name options.classPrefix]⟩, context⟩

/-- What an assignment gives its key: the class of the declaration that it makes, or no class at
all. -/
inductive Gives (options : Options) (context : Context) : Assignment → Option String → Prop
  | reset {key : String} : Gives options context ⟨key, .reset⟩ none
  | declares {assignment : Assignment} {d : Declaration}
      (h : assignment.Declares options context d) :
      Gives options context assignment (some (d.className options.classPrefix))

/-- What is wrong with the value or the keyframes of an assignment, if anything is. -/
def error? (options : Options) (assignment : Assignment) : Option ValueError :=
  match assignment.assigned with
  | .reset => none
  | .value raw =>
    match normalize options assignment.property raw with
    | .ok _ => none
    | .error error => some error
  | .keyframes keyframes =>
    match keyframes.normalize options with
    | .ok _ => none
    | .error error => some error

/-- Whether an assignment is left out because of its value. -/
def rejected (options : Options) (assignment : Assignment) : Bool :=
  (assignment.error? options).isSome

/-! ## Effects -/

variable {options : Options} {context : Context} {key : String}

/-- A reset takes effect with no class. -/
theorem apply_reset :
    (⟨key, .reset⟩ : Assignment).apply options context =
      .ok ⟨context, Property.cssName key, none, []⟩ := rfl

/-- A value takes effect as the declaration of its canonical form. -/
theorem apply_value (raw : RawValue) :
    (⟨key, .value raw⟩ : Assignment).apply options context =
      (normalize options (Property.cssName key) raw).map fun value =>
        .ofDeclaration options [] ⟨Property.cssName key, value, context⟩ := by
  simp only [apply, bind, Except.bind, pure, Except.pure]
  cases normalize options (Property.cssName key) raw with
  | error error => rfl
  | ok value => rfl

/-- Keyframes take effect as a declaration of their name, and are emitted themselves. -/
theorem apply_keyframes (keyframes : Keyframes) :
    (⟨key, .keyframes keyframes⟩ : Assignment).apply options context =
      (keyframes.normalize options).map fun block =>
        .ofDeclaration options [block.emission options.classPrefix]
          ⟨Property.cssName key, ⟨[block.name options.classPrefix]⟩, context⟩ := by
  simp only [apply, bind, Except.bind, pure, Except.pure]
  cases keyframes.normalize options with
  | error error => rfl
  | ok block => rfl

/-- An assignment fails in any context just if something is wrong with its value. -/
theorem apply_eq_error_iff {assignment : Assignment} {error : ValueError} :
    assignment.apply options context = .error error ↔ assignment.error? options = some error := by
  rcases assignment with ⟨key, raw | _ | keyframes⟩
  · simp only [apply_value, error?, property]
    cases normalize options (Property.cssName key) raw with
    | error other => simp [Except.map]
    | ok value => simp [Except.map]
  · simp [apply_reset, error?]
  · simp only [apply_keyframes, error?]
    cases keyframes.normalize options with
    | error other => simp [Except.map]
    | ok block => simp [Except.map]

/-- An assignment takes effect just if nothing is wrong with it. -/
theorem error?_eq_none_iff {assignment : Assignment} (context : Context) :
    assignment.error? options = none ↔
      ∃ applied, assignment.apply options context = .ok applied := by
  cases happly : assignment.apply options context with
  | error error => simp [apply_eq_error_iff.1 happly]
  | ok applied =>
    simp only [Except.ok.injEq, exists_eq', iff_true]
    cases herror : assignment.error? options with
    | none => rfl
    | some error =>
      rw [apply_eq_error_iff.2 herror] at happly
      cases happly

/-- A declaration has the context and the property of its assignment. -/
theorem Declares.context_property {assignment : Assignment} {d : Declaration}
    (h : assignment.Declares options context d) :
    d.context = context ∧ d.property = assignment.property := by
  cases h with
  | value h => exact ⟨rfl, rfl⟩
  | keyframes h => exact ⟨rfl, rfl⟩

/-- A declaration has the key of its assignment. -/
theorem Declares.key_eq {assignment : Assignment} {d : Declaration}
    (h : assignment.Declares options context d) :
    d.context.decorate (Property.styleKey d.property) = assignment.keyIn context := by
  obtain ⟨hcontext, hproperty⟩ := h.context_property
  rw [hcontext, hproperty, keyIn]

/-- An assignment declares one thing only. -/
theorem Declares.unique {assignment : Assignment} {first second : Declaration}
    (hfirst : assignment.Declares options context first)
    (hsecond : assignment.Declares options context second) : first = second := by
  cases hfirst with
  | value h =>
    cases hsecond with
    | value h' =>
      cases h.symm.trans h'
      rfl
  | keyframes h =>
    cases hsecond with
    | keyframes h' =>
      cases h.symm.trans h'
      rfl

/-- An assignment that takes effect resets its key, or it emits the declaration that it makes behind
the block that it defines. -/
theorem apply_cases {assignment : Assignment} {applied : Applied}
    (h : assignment.apply options context = .ok applied) :
    (∃ key, assignment = ⟨key, .reset⟩ ∧ applied = ⟨context, Property.cssName key, none, []⟩) ∨
    ∃ before d, applied = .ofDeclaration options before d ∧
      assignment.Declares options context d ∧
      ∀ emission, emission ∈ before ↔ ∃ block, assignment.Defines options block ∧
        emission = block.emission options.classPrefix := by
  rcases assignment with ⟨key, raw | _ | keyframes⟩
  · rw [apply_value, Except.map_eq_ok_iff] at h
    rcases h with ⟨value, hvalue, rfl⟩
    -- A value defines no block.
    refine .inr ⟨[], _, rfl, .value hvalue, fun emission => ?_⟩
    constructor
    · intro hmem
      cases hmem
    · rintro ⟨block, hdefines, -⟩
      cases hdefines
  · cases h
    exact .inl ⟨key, rfl, rfl⟩
  · rw [apply_keyframes, Except.map_eq_ok_iff] at h
    rcases h with ⟨block, hblock, rfl⟩
    refine .inr ⟨_, _, rfl, .keyframes hblock, fun emission => ?_⟩
    rw [List.mem_singleton]
    constructor
    · rintro rfl
      exact ⟨block, .keyframes hblock, rfl⟩
    · rintro ⟨other, hdefines, rfl⟩
      cases hdefines with
      | keyframes h =>
        cases hblock.symm.trans h
        rfl

theorem context_property_of_apply {assignment : Assignment} {applied : Applied}
    (h : assignment.apply options context = .ok applied) :
    applied.context = context ∧ applied.property = assignment.property := by
  rcases apply_cases h with ⟨key, rfl, rfl⟩ | ⟨before, d, rfl, hd, -⟩
  · exact ⟨rfl, rfl⟩
  · exact hd.context_property

/-- An assignment decides and resets the same keys in a context, whatever its value is. -/
theorem key_of_apply {assignment : Assignment} {applied : Applied}
    (h : assignment.apply options context = .ok applied) :
    applied.key = assignment.keyIn context ∧ applied.resetKeys = assignment.resetKeysIn context := by
  obtain ⟨hcontext, hproperty⟩ := context_property_of_apply h
  constructor
  · rw [Applied.key, hcontext, hproperty, keyIn]
  · rw [Applied.resetKeys, hcontext, hproperty, resetKeysIn]

/-- An assignment that makes a declaration takes effect with the class of it. -/
theorem Declares.exists_apply {assignment : Assignment} {d : Declaration}
    (h : assignment.Declares options context d) :
    ∃ applied, assignment.apply options context = .ok applied ∧
      applied.className = some (d.className options.classPrefix) := by
  cases h with
  | value h => exact ⟨_, by rw [apply_value, h]; rfl, rfl⟩
  | keyframes h => exact ⟨_, by rw [apply_keyframes, h]; rfl, rfl⟩

/-- What an assignment gives its key is the class of its effect. -/
theorem gives_iff {assignment : Assignment} {name : Option String} :
    assignment.Gives options context name ↔
      ∃ applied, assignment.apply options context = .ok applied ∧ applied.className = name := by
  constructor
  · intro h
    cases h with
    | reset => exact ⟨_, apply_reset, rfl⟩
    | declares hd => exact hd.exists_apply
  · rintro ⟨applied, h, rfl⟩
    rcases apply_cases h with ⟨key, rfl, rfl⟩ | ⟨before, d, rfl, hd, -⟩
    · exact .reset
    · exact .declares hd

/-- An assignment that takes effect emits the block that it defines and the declaration that it
makes. -/
theorem mem_emissions_iff {assignment : Assignment} {applied : Applied}
    (h : assignment.apply options context = .ok applied) {emission : Emission} :
    emission ∈ applied.emissions ↔
      (∃ block, assignment.Defines options block ∧
        emission = block.emission options.classPrefix) ∨
      ∃ d, assignment.Declares options context d ∧ emission = d.emission options.classPrefix := by
  rcases apply_cases h with ⟨key, rfl, rfl⟩ | ⟨before, d, rfl, hd, hbefore⟩
  · -- A reset emits nothing.
    constructor
    · intro hmem
      cases hmem
    · rintro (⟨block, hdefines, -⟩ | ⟨d, hdeclares, -⟩)
      · cases hdefines
      · cases hdeclares
  · have hdeclares : (∃ other, assignment.Declares options context other ∧
        emission = other.emission options.classPrefix) ↔
          emission = d.emission options.classPrefix := by
      constructor
      · rintro ⟨other, hother, rfl⟩
        rw [hother.unique hd]
      · intro heq
        exact ⟨d, hd, heq⟩
    rw [hdeclares, ← hbefore, ← List.mem_singleton, ← List.mem_append]
    rfl

/-- Keyframes are declared wherever they are defined. -/
theorem Defines.exists_declares {assignment : Assignment} {block : Keyframes.Block}
    (h : assignment.Defines options block) (context : Context) :
    ∃ d, assignment.Declares options context d := by
  cases h with
  | keyframes h => exact ⟨_, .keyframes h⟩

end Assignment

/-! ## Runs of assignments -/

variable {options : Options}

/-- The effects are those of the assignments that take effect. -/
theorem mem_appliedOf {assignments : List (Context × Assignment)} {applied : Applied} :
    applied ∈ appliedOf options assignments ↔
      ∃ item ∈ assignments, item.2.apply options item.1 = .ok applied := by
  rw [appliedOf, List.mem_filterMap]
  constructor
  · rintro ⟨⟨context, assignment⟩, hmem, h⟩
    refine ⟨⟨context, assignment⟩, hmem, ?_⟩
    cases happly : assignment.apply options context with
    | error error =>
      simp only [happly] at h
      cases h
    | ok other =>
      simp only [happly] at h
      rw [Option.some.inj h]
  · rintro ⟨⟨context, assignment⟩, hmem, h⟩
    exact ⟨⟨context, assignment⟩, hmem, by simp only [h]⟩

/-- The errors are those of the assignments that do not take effect. -/
theorem errorsOf_eq (assignments : List (Context × Assignment)) :
    errorsOf options assignments = assignments.filterMap fun item => item.2.error? options := by
  refine List.filterMap_congr ?_
  rintro ⟨context, assignment⟩ -
  cases happly : assignment.apply options context with
  | error error => simp only [happly, Assignment.apply_eq_error_iff.1 happly]
  | ok applied => simp only [happly, (Assignment.error?_eq_none_iff context).2 ⟨applied, happly⟩]

namespace Sheet

/-- All assignments of a sheet in authored order, each with its context. -/
def assignments (sheet : Sheet) : List (Context × Assignment) :=
  sheet.namespaces.flatMap Namespace.assignments

/-- The namespace that a name stands for: the last one of this name. -/
def namespace? (sheet : Sheet) (name : String) : Option Namespace :=
  sheet.namespaces.findRev? (·.name == name)

/-- A sheet emits what its assignments emit, one after the other. -/
theorem emissions_eq (sheet : Sheet) (options : Options) :
    sheet.emissions options =
      (appliedOf options sheet.assignments).flatMap Applied.emissions := by
  simp only [emissions, Namespace.applied, appliedOf, assignments, List.filterMap_flatMap,
    List.flatMap_assoc]

theorem errors_plan (sheet : Sheet) (options : Options) (file : Option String) :
    (sheet.plan options file).errors = errorsOf options sheet.assignments := by
  simp only [plan, Namespace.errors, errorsOf, assignments, List.filterMap_flatMap]

theorem lookup_map_name {β : Type} (f : Namespace → β) (name : String)
    (namespaces : List Namespace) :
    (namespaces.map fun ns => (ns.name, f ns)).lookup name =
      (namespaces.find? (·.name == name)).map f := by
  induction namespaces with
  | nil => rfl
  | cons ns rest ih =>
    rw [List.map_cons, List.lookup_cons, List.find?_cons, ih, BEq.comm]
    cases ns.name == name with
    | true => rfl
    | false => rfl

/-- An object of a sheet is that of the namespace that its name stands for. -/
theorem get?_styles_plan (sheet : Sheet) (options : Options) (file : Option String)
    (name : String) :
    (sheet.plan options file).styles.get? name =
      (sheet.namespace? name).map (·.compiled options file) := by
  simp only [plan, KeyMap.get?_ofList, namespace?, List.findRev?_eq_find?_reverse,
    ← List.map_reverse]
  exact lookup_map_name (·.compiled options file) name sheet.namespaces.reverse

/-- What compiling a sheet emits are the blocks that it defines and the declarations that it
makes. -/
theorem mem_emissions_iff {sheet : Sheet} {emission : Emission} :
    emission ∈ sheet.emissions options ↔
      ∃ item ∈ sheet.assignments,
        (∃ block, item.2.Defines options block ∧
          emission = block.emission options.classPrefix) ∨
        ∃ d, item.2.Declares options item.1 d ∧
          emission = d.emission options.classPrefix := by
  rw [emissions_eq, List.mem_flatMap]
  constructor
  · rintro ⟨applied, hmem, hemission⟩
    rcases mem_appliedOf.1 hmem with ⟨item, hitem, happly⟩
    exact ⟨item, hitem, (Assignment.mem_emissions_iff happly).1 hemission⟩
  · rintro ⟨item, hitem, h⟩
    have heffect : ∃ applied, item.2.apply options item.1 = .ok applied := by
      rcases h with ⟨block, hdefines, -⟩ | ⟨d, hdeclares, -⟩
      · -- What defines a block declares its name.
        rcases hdefines.exists_declares item.1 with ⟨d, hdeclares⟩
        exact hdeclares.exists_apply.imp fun applied h => h.1
      · exact hdeclares.exists_apply.imp fun applied h => h.1
    rcases heffect with ⟨applied, happly⟩
    exact ⟨applied, mem_appliedOf.2 ⟨item, hitem, happly⟩,
      (Assignment.mem_emissions_iff happly).2 h⟩

end Sheet

end AtomicCss
