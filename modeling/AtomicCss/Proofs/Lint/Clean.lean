import AtomicCss.Proofs.Compile.Plan
import AtomicCss.Proofs.Lint.Walk
import AtomicCss.Proofs.Sheet.Loaded
/-!
# Sheets that lint clean

A sheet on which the default rules report no error can be loaded and compiles without errors of
values, with one exception: the linter takes a reset for right everywhere, and the loader does not
know resets inside the steps of keyframes. `lints_clean_iff_loads` says that this is the only place
where they differ. Such resets are the only offences of a sheet that lints clean
(`ResetsOnly.sheet`), and what it loads is sound (`sound_of_mem`).
-/

namespace AtomicCss

/-! ## Resets in steps -/

namespace Json

/-- The members of an object; other values have none. -/
def members : Json → List (String × Json)
  | object members => members
  | _ => []

def isNull : Json → Bool
  | null => true
  | _ => false

end Json

/-- Whether a step of keyframes resets a property. -/
def Keyframes.Step.resets (step : String × Json) : Bool :=
  step.2.members.any fun property => property.2.isNull

/-- Whether a member assigns keyframes with a step that resets a property. -/
def Assignment.resetsInStep (member : String × Json) : Bool :=
  Property.cssName member.1 == animationName && member.2.members.any Keyframes.Step.resets

/-- The same of a member of a namespace, which may open a block. -/
def Sheet.Entry.resetsInStep (member : String × Json) : Bool :=
  if (Context.ofKey? member.1).isSome then member.2.members.any Assignment.resetsInStep
  else Assignment.resetsInStep member

def Namespace.resetsInStep (member : String × Json) : Bool :=
  member.2.members.any Sheet.Entry.resetsInStep

/-- Whether keyframes in a sheet have a step that resets a property. -/
def Sheet.resetsInStep (sheet : Json) : Bool :=
  sheet.members.any Namespace.resetsInStep

namespace Lint

/-- Diagnostics without an error among them. -/
def Passes (diagnostics : List Diagnostic) : Prop :=
  ∀ d ∈ diagnostics, d.isError = false

namespace Passes

/-- Where all parts pass together, each of them passes. -/
theorem of_flatMap {α : Type} {check : α → List Diagnostic} {items : List α}
    (h : Passes (items.flatMap check)) {item : α} (hitem : item ∈ items) : Passes (check item) :=
  fun d hd => h d (List.mem_flatMap.2 ⟨item, hitem, hd⟩)

/-- Where two lists pass together, each of them passes. -/
theorem of_append {first second : List Diagnostic} (h : Passes (first ++ second)) :
    Passes first ∧ Passes second :=
  ⟨fun d hd => h d (List.mem_append_left _ hd), fun d hd => h d (List.mem_append_right _ hd)⟩

/-- An error does not pass. -/
theorem false_of_error {rule message path : String} {suggestion : Option String}
    (h : Passes [⟨.error, rule, message, path, suggestion⟩]) : False := by
  cases h _ List.mem_cons_self

end Passes

/-! ## Offences -/

/-- What is wrong with a part that lints clean: resets in steps, which the loader takes for illegal
values, and nothing else. -/
structure ResetsOnly (resets : Bool) (offences : List SheetError) : Prop where
  eq_nil_iff : offences = [] ↔ resets = false
  illegalValue : ∀ error ∈ offences, ∃ key, error = .illegalValue key

namespace ResetsOnly

theorem nil : ResetsOnly false [] :=
  ⟨by simp, fun error herror => by cases herror⟩

theorem single (key : String) : ResetsOnly true [.illegalValue key] :=
  ⟨by simp, fun error herror => ⟨key, List.mem_singleton.1 herror⟩⟩

/-- The offences of all parts together. -/
theorem flatMap {α : Type} {resets : α → Bool} {offences : α → List SheetError} {items : List α}
    (h : ∀ item ∈ items, ResetsOnly (resets item) (offences item)) :
    ResetsOnly (items.any resets) (items.flatMap offences) := by
  constructor
  · rw [List.flatMap_eq_nil_iff, List.any_eq_false]
    refine forall₂_congr fun item hitem => ?_
    rw [(h item hitem).eq_nil_iff, Bool.not_eq_true]
  · intro error herror
    rcases List.mem_flatMap.1 herror with ⟨item, hitem, hmem⟩
    exact (h item hitem).illegalValue error hmem

end ResetsOnly

/-- What passes as a value and is no reset loads, and can be normalized. -/
theorem exists_raw_of_passes {property key path : String} {value : Json}
    (h : Passes (checkRaw property key value path)) (hreset : value ≠ .null) :
    ∃ raw, RawValue.ofJson key value = .ok raw ∧ ∃ v, normalize {} property raw = .ok v := by
  rw [checkRaw_eq hreset] at h
  cases hraw : RawValue.ofJson key value with
  | error error =>
    rw [hraw] at h
    exact (Passes.false_of_error h).elim
  | ok raw =>
    rw [hraw] at h
    cases hnormalize : normalize {} property raw with
    | error error =>
      simp only [hnormalize] at h
      exact (Passes.false_of_error h).elim
    | ok v => exact ⟨raw, rfl, v, hnormalize⟩

/-- What passes as a value and is no reset has no offences. -/
theorem offences_eq_nil_of_passes {property key path : String} {value : Json}
    (h : Passes (checkRaw property key value path)) (hreset : value ≠ .null) :
    RawValue.offences key value = [] := by
  rcases exists_raw_of_passes h hreset with ⟨raw, hraw, -⟩
  have hloads := RawValue.loadsAs key value
  rw [hraw] at hloads
  exact hloads.1

/-- What the default rules let pass passes the rule on values. -/
theorem passes_checkValue {path key : String} {value : Json}
    (h : Passes (checkPropertyAt defaultRules path key value)) :
    Passes (checkValue ⟨key, value, path ++ "." ++ key⟩) := by
  have hrule : validValue ∈ defaultRules := by simp [defaultRules]
  exact Passes.of_flatMap h hrule

/-- What the default rules let pass passes the rule on contexts. -/
theorem passes_checkOpening {check : ContextCheck}
    (h : Passes (defaultRules.flatMap fun rule => rule.checkContext check)) :
    Passes (checkOpening check) := by
  have hrule : validPseudo ∈ defaultRules := by simp [defaultRules]
  exact Passes.of_flatMap h hrule

/-- A context that passes may be used. -/
theorem check_of_passes {key path : String} {context : Context}
    (hkey : Context.ofKey? key = some context)
    (h : Passes (checkOpening ⟨key, none, path⟩)) : context.check = .ok ⟨⟩ := by
  simp only [checkOpening, hkey] at h
  cases context with
  | plain => rfl
  | atRule condition => rfl
  | pseudo selector =>
    by_cases hvalid : Pseudo.isValid selector
    · rw [Context.check, if_pos hvalid]
    · simp only [if_neg hvalid] at h
      exact (Passes.false_of_error h).elim

/-- A key that passes may be used. -/
theorem isUsable_of_passes {key path : String} {context : Context}
    (hkey : Context.ofKey? key = some context)
    (h : Passes (checkOpening ⟨key, none, path⟩)) : Sheet.isUsable key := by
  have hcheck : Context.check.{0} context = .ok ⟨⟩ := check_of_passes hkey h
  rw [Context.check_eq hkey] at hcheck
  split at hcheck
  · assumption
  · cases hcheck

namespace ResetsOnly

/-- A property inside a step. -/
theorem property {path : String} {member : String × Json}
    (h : Passes (checkRaw (Property.cssName member.1) member.1 member.2 path)) :
    ResetsOnly member.2.isNull (RawValue.offences member.1 member.2) := by
  rcases member with ⟨key, value⟩
  by_cases hreset : value = .null
  · subst hreset
    exact single key
  · have hnull : value.isNull = false := by
      cases value with
      | null => exact absurd rfl hreset
      | _ => rfl
    rw [offences_eq_nil_of_passes h hreset, hnull]
    exact nil

/-- A step that passes has no other offences than resets. -/
theorem step {path : String} {step : String × Json} (h : Passes (checkStep path step)) :
    ResetsOnly (Keyframes.Step.resets step) (Keyframes.Step.offences step) := by
  rcases step with ⟨selector, body⟩
  rcases Passes.of_append h with ⟨-, hbody⟩
  cases body with
  | object members => exact flatMap fun member hmember => property (Passes.of_flatMap hbody hmember)
  | _ => exact (Passes.false_of_error hbody).elim

/-- An assignment that passes has no other offences than resets in its steps. -/
theorem assignment {path key : String} {value : Json} (h : Passes (checkValue ⟨key, value, path⟩)) :
    ResetsOnly (Assignment.resetsInStep (key, value)) (Assignment.offences (key, value)) := by
  -- Without steps there is none to reset anything.
  have hnone (hmembers : value.members = []) : Assignment.resetsInStep (key, value) = false := by
    rw [Assignment.resetsInStep, hmembers, List.any_nil, Bool.and_false]
  cases value with
  | null =>
    rw [hnone rfl]
    exact nil
  | object steps =>
    simp only [checkValue] at h
    split at h
    · rename_i hname
      -- The member resets in a step just if one of its steps does.
      simp only [Assignment.resetsInStep, Assignment.offences, hname, beq_self_eq_true,
        Bool.true_and, Json.members, if_true]
      exact flatMap fun member hmember => step (Passes.of_flatMap h hmember)
    · -- Other properties do not take objects.
      exact (Passes.false_of_error h).elim
  | _ =>
    simp only [checkValue] at h
    have hoffences := offences_eq_nil_of_passes h fun heq => by cases heq
    simp only [hnone rfl, Assignment.offences, hoffences]
    exact nil

/-- What the default rules let pass as a property. -/
theorem propertyAt {path key : String} {value : Json}
    (h : Passes (checkPropertyAt defaultRules path key value)) :
    ResetsOnly (Assignment.resetsInStep (key, value)) (Assignment.offences (key, value)) :=
  assignment (passes_checkValue h)

/-- A member of a block. -/
theorem inner {parent path : String} {member : String × Json}
    (h : Passes (checkInner defaultRules parent path member)) :
    ResetsOnly (Assignment.resetsInStep member) (Assignment.offencesIn parent member) := by
  rcases member with ⟨key, value⟩
  rw [Assignment.offencesIn, ← Sheet.isSome_ofKey?]
  simp only [checkInner] at h
  split at h
  · -- A block inside a block is reported.
    exact (Passes.false_of_error (passes_checkOpening (Passes.of_append h).1)).elim
  · rename_i hkey
    rw [if_neg hkey]
    exact propertyAt h

/-- A member that passes, which may be a block. -/
theorem member {path : String} {member : String × Json}
    (h : Passes (checkMember defaultRules path member)) :
    ResetsOnly (Sheet.Entry.resetsInStep member) (Sheet.Entry.offences member) := by
  rcases member with ⟨key, value⟩
  simp only [checkMember] at h
  rw [Sheet.Entry.resetsInStep, Sheet.Entry.offences, ← Sheet.isSome_ofKey?]
  cases hkey : Context.ofKey? key with
  | none =>
    simp only [hkey, Option.isSome_none, Bool.false_eq_true, if_false] at h ⊢
    exact propertyAt h
  | some context =>
    simp only [hkey, Option.isSome_some, if_true] at h ⊢
    rcases Passes.of_append h with ⟨hopening, hbody⟩
    rw [if_pos (isUsable_of_passes hkey (passes_checkOpening hopening)), List.nil_append]
    cases value with
    | object body => exact flatMap fun member hmember => inner (Passes.of_flatMap hbody hmember)
    | _ => exact (Passes.false_of_error hbody).elim

/-- A namespace that passes. -/
theorem ns {member : String × Json} (h : Passes (checkNamespace defaultRules member)) :
    ResetsOnly (Namespace.resetsInStep member) (Namespace.offences member) := by
  rcases member with ⟨name, value⟩
  cases value with
  | object body => exact flatMap fun _ hmember => member (Passes.of_flatMap h hmember)
  | _ => exact (Passes.false_of_error h).elim

/-- A sheet that lints clean has no other offences than resets in steps. -/
theorem sheet {sheet : Json} (h : Passes (checkSheet defaultRules sheet)) :
    ResetsOnly (Sheet.resetsInStep sheet) (Sheet.offences sheet) := by
  cases sheet with
  | object namespaces => exact flatMap fun _ hmember => ns (Passes.of_flatMap h hmember)
  | _ => exact (Passes.false_of_error h).elim

end ResetsOnly

/-! ## Sound assignments -/

/-- An assignment that takes effect whatever the context. -/
def Sound (assignment : Assignment) : Prop :=
  assignment.error? {} = none

theorem exists_mapM_eq_ok {α β ε : Type} {f : α → Except ε β} {items : List α}
    (h : ∀ item ∈ items, ∃ b, f item = .ok b) : ∃ bs, items.mapM f = .ok bs := by
  induction items with
  | nil => exact ⟨[], rfl⟩
  | cons item rest ih =>
    rcases h item List.mem_cons_self with ⟨b, hb⟩
    rcases ih fun other hother => h other (List.mem_cons_of_mem _ hother) with ⟨bs, hbs⟩
    exact ⟨b :: bs, by rw [List.mapM_cons, hb, hbs]; rfl⟩

/-- A value that loads and passes can be normalized. -/
theorem exists_normal_of_passes {property key path : String} {value : Json} {raw : RawValue}
    (hload : RawValue.ofJson key value = .ok raw)
    (h : Passes (checkRaw property key value path)) : ∃ v, normalize {} property raw = .ok v := by
  have hreset : value ≠ .null := by
    rintro rfl
    cases hload
  rcases exists_raw_of_passes h hreset with ⟨other, hother, hnormal⟩
  rw [hload] at hother
  cases hother
  exact hnormal

/-- A step that loads and passes has a canonical form. -/
theorem exists_frame_of_passes {path : String} {member : String × Json} {step : Keyframes.Step}
    (hload : Keyframes.Step.ofJson member = .ok step) (h : Passes (checkStep path member)) :
    ∃ frame, step.normalize {} = .ok frame := by
  rcases member with ⟨selector, body⟩
  rcases Passes.of_append h with ⟨hselector, hbody⟩
  cases body with
  | object members =>
    rcases Except.bind_eq_ok_iff.1 hload with ⟨properties, hmembers, ⟨⟩⟩
    -- Each property of the step is loaded from a member that passes.
    have hproperties : ∀ property ∈ properties,
        ∃ v, Keyframes.normalizeProperty {} property = .ok v := by
      intro property hproperty
      obtain ⟨member, hmember, hloaded⟩ :=
        (mem_iff_of_forall₂ (forall₂_of_mapM hmembers)).1 hproperty
      rcases Except.bind_eq_ok_iff.1 hloaded with ⟨raw, hraw, ⟨⟩⟩
      rcases exists_normal_of_passes hraw (Passes.of_flatMap hbody hmember) with ⟨v, hv⟩
      exact ⟨_, by simp only [Keyframes.normalizeProperty, hv, bind, Except.bind]; rfl⟩
    cases hparse : Keyframes.Selector.parse selector with
    | error error =>
      rw [hparse] at hselector
      exact (Passes.false_of_error hselector).elim
    | ok parsed =>
      rcases exists_mapM_eq_ok hproperties with ⟨frames, hframes⟩
      simp only [Keyframes.Step.normalize, hparse, hframes, bind, Except.bind]
      exact ⟨_, rfl⟩
  | _ => cases hload

/-- An assignment that loads and passes takes effect. -/
theorem sound_of_passes {path key : String} {value : Json} {assignment : Assignment}
    (hload : Assignment.ofJson (key, value) = .ok assignment)
    (h : Passes (checkValue ⟨key, value, path⟩)) : Sound assignment := by
  cases value with
  | null =>
    cases hload
    rfl
  | object members =>
    simp only [Assignment.ofJson] at hload
    split at hload
    · rename_i hname
      simp only [checkValue, if_pos hname] at h
      rcases Except.bind_eq_ok_iff.1 hload with ⟨steps, hsteps, ⟨⟩⟩
      have hframes : ∀ step ∈ steps, ∃ frame, step.normalize {} = .ok frame := by
        intro step hstep
        rcases (mem_iff_of_forall₂ (forall₂_of_mapM hsteps)).1 hstep with ⟨member, hmember, hload⟩
        exact exists_frame_of_passes hload (Passes.of_flatMap h hmember)
      rcases exists_mapM_eq_ok hframes with ⟨frames, hnormal⟩
      simp only [Sound, Assignment.error?, Keyframes.normalize, hnormal, bind, Except.bind]
      rfl
    · cases hload
  | _ =>
    simp only [checkValue] at h
    rcases Except.bind_eq_ok_iff.1 hload with ⟨raw, hraw, ⟨⟩⟩
    rcases exists_normal_of_passes hraw h with ⟨v, hv⟩
    simp only [Sound, Assignment.error?, Assignment.property, hv]

/-- What a sheet that lints clean loads is sound. -/
theorem sound_of_mem {sheet : Json} {loaded : Sheet}
    (h : Passes (checkSheet defaultRules sheet)) (hload : Sheet.ofJson sheet = .ok loaded) :
    ∀ item ∈ loaded.assignments, Sound item.2 := by
  intro item hitem
  obtain ⟨path, key, value, hproperty, hsaid⟩ := (walk_sheet defaultRules hload).exists_check hitem
  exact sound_of_passes hproperty (passes_checkValue fun d hd => h d (hsaid hd))

end Lint

/-- Where all assignments are sound, no error is recorded. -/
theorem errors_eq_nil_of_sound {sheet : Sheet} (h : ∀ item ∈ sheet.assignments, Lint.Sound item.2)
    {store : Store} {file : Option String} {compiled : CompiledModule}
    (hcompiled : (store.compile {} file sheet).2 = .ok compiled) : compiled.errors = [] := by
  rcases compile_eq_ok_iff.1 hcompiled with ⟨-, rfl⟩
  rw [Sheet.errors_plan, errorsOf_eq, List.filterMap_eq_nil_iff]
  exact h

/-- Of the sheets on which the default rules report no error, those load in which no step of
keyframes resets a property. What is loaded compiles with default options without errors of values,
unless the store stops the compilation. In the other sheets the loader takes such a reset for an
illegal value. -/
theorem lints_clean_iff_loads (sheet : Json)
    (h : ∀ d ∈ Lint.checkSheet Lint.defaultRules sheet, d.isError = false) :
    (Sheet.resetsInStep sheet = false ↔ ∃ loaded, Sheet.ofJson sheet = .ok loaded) ∧
      (Sheet.resetsInStep sheet = true ↔
        ∃ key, Sheet.ofJson sheet = .error (.illegalValue key)) ∧
      ∀ loaded, Sheet.ofJson sheet = .ok loaded → ∀ file : Option String,
        (∃ error, ((∅ : Store).compile {} file loaded).2 = .error error) ∨
          ∃ compiled, ((∅ : Store).compile {} file loaded).2 = .ok compiled ∧
            compiled.errors = [] := by
  have honly := Lint.ResetsOnly.sheet h
  have hloads := Sheet.loadsAs sheet
  cases hsheet : Sheet.ofJson sheet with
  | error error =>
    rw [hsheet] at hloads
    have hfirst : (Sheet.offences sheet).head? = some error := hloads
    rcases honly.illegalValue error (List.mem_of_head? hfirst) with ⟨key, rfl⟩
    have hresets : Sheet.resetsInStep sheet = true := by
      rw [← Bool.not_eq_false, ← honly.eq_nil_iff]
      intro hnone
      rw [hnone] at hfirst
      cases hfirst
    simp [hresets]
  | ok loaded =>
    rw [hsheet] at hloads
    have hresets := honly.eq_nil_iff.1 hloads.1
    refine ⟨by simp [hresets], by simp [hresets], ?_⟩
    rintro loaded' ⟨⟩ file
    cases hcompiled : ((∅ : Store).compile {} file loaded).2 with
    | error error => exact .inl ⟨error, rfl⟩
    | ok compiled =>
      exact .inr ⟨compiled, rfl, errors_eq_nil_of_sound (Lint.sound_of_mem h hsheet) hcompiled⟩

/-- Keyframes with one step that sets the opacity. -/
def pulsing (opacity : Json) : Json :=
  .object [("pulse", .object [("animationName", .object [("50%", .object [("opacity", opacity)])])])]

/-- What a sheet with a number as opacity is loaded to. -/
def pulsingHalf : Sheet :=
  ⟨[⟨"pulse", [.single ⟨"animationName", .keyframes
    ⟨[⟨"50%", [("opacity", .single (.text "0.5"))]⟩]⟩⟩]⟩]⟩

/-- With a number as opacity the sheet loads and compiles without errors, and with a reset it does not
load. -/
theorem lints_clean_iff_loads_pulsing :
    (∀ d ∈ Lint.checkSheet Lint.defaultRules (pulsing (.string "0.5")), d.isError = false) ∧
      Sheet.ofJson (pulsing (.string "0.5")) = .ok pulsingHalf ∧
      (∃ compiled, ((∅ : Store).compile {} none pulsingHalf).2 = .ok compiled ∧
        (compiled.styles.get? "pulse").bind (·.get? "animationName") = some (some "x1azn18e") ∧
        compiled.errors = []) ∧
      (∀ d ∈ Lint.checkSheet Lint.defaultRules (pulsing .null), d.isError = false) ∧
      ∃ key, Sheet.ofJson (pulsing .null) = .error (.illegalValue key) := by
  have hnumber : ∀ d ∈ Lint.checkSheet Lint.defaultRules (pulsing (.string "0.5")),
      d.isError = false := by
    decide +kernel
  have hreset : ∀ d ∈ Lint.checkSheet Lint.defaultRules (pulsing .null), d.isError = false := by
    decide +kernel
  rcases lints_clean_iff_loads _ hnumber with ⟨hloads, -, hcompiles⟩
  rcases hloads.1 (by decide +kernel) with ⟨loaded, hloaded⟩
  obtain rfl : pulsingHalf = loaded := Except.ok.inj hloaded
  have hcompiled : ((∅ : Store).compile {} none pulsingHalf).2 = .ok (pulsingHalf.plan {} none) :=
    compile_eq_ok_iff.2 ⟨by decide +kernel, rfl⟩
  have herrors : (pulsingHalf.plan {} none).errors = [] := by
    rcases hcompiles _ hloaded none with ⟨error, herror⟩ | ⟨compiled, hok, herrors⟩
    · rw [hcompiled] at herror
      cases herror
    · rw [hcompiled] at hok
      cases hok
      exact herrors
  exact ⟨hnumber, hloaded, ⟨_, hcompiled, by decide +kernel, herrors⟩, hreset,
    (lints_clean_iff_loads _ hreset).2.1.1 (by decide +kernel)⟩

/-- A reset in a step lints clean, and the loader refuses the sheet. -/
theorem reset_in_step_lints_clean :
    Lint.checkSheet Lint.defaultRules (pulsing .null) = [] ∧
      Sheet.ofJson (pulsing .null) = .error (.illegalValue "opacity") :=
  ⟨by decide +kernel, by decide +kernel⟩

end AtomicCss
