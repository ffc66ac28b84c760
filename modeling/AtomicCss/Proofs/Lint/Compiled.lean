import AtomicCss.Proofs.Compile.Plan
import AtomicCss.Proofs.Lint.Walk
/-!
# Sheets that compile

The linter repeats the checks of the loader and of normalization in its own walk. A sheet that loads
and compiles without errors of values passes these checks: what is still reported as an error are
unknown properties and `!important` (`isError_eq_false_of_compiles`).
-/

namespace AtomicCss

namespace Lint

variable {property key path : String}

/-! ## Values -/

theorem checkRaw_eq_nil {value : Json} {raw : RawValue} {normal : Value}
    (hraw : RawValue.ofJson key value = .ok raw)
    (hnormal : normalize {} property raw = .ok normal) :
    checkRaw property key value path = [] := by
  have hreset : value ≠ .null := by
    rintro rfl
    cases hraw
  simp only [checkRaw_eq hreset, hraw, hnormal]

/-- A step that loads and has a canonical form passes. -/
theorem checkStep_eq_nil {member : String × Json} {step : Keyframes.Step} {frame : Keyframes.Frame}
    (hload : Keyframes.Step.ofJson member = .ok step) (hframe : step.normalize {} = .ok frame) :
    checkStep path member = [] := by
  rcases member with ⟨selector, body⟩
  cases body with
  | object members =>
    obtain ⟨properties, hmembers, ⟨⟩⟩ := Except.bind_eq_ok_iff.1 hload
    obtain ⟨parsed, hparsed, hrest⟩ := Except.bind_eq_ok_iff.1 hframe
    obtain ⟨values, hvalues, -⟩ := Except.bind_eq_ok_iff.1 hrest
    -- Each member is loaded as a property, which the frame has a canonical value for.
    have hbody : ∀ member ∈ members, checkRaw (Property.cssName member.1) member.1 member.2
        (path ++ "." ++ selector ++ "." ++ member.1) = [] := by
      intro member hmember
      obtain ⟨loaded, hloaded, hproperty⟩ :=
        exists_result_of_forall₂ (forall₂_of_mapM hmembers) hmember
      obtain ⟨raw, hraw, ⟨⟩⟩ := Except.bind_eq_ok_iff.1 hproperty
      obtain ⟨value, -, hvalue⟩ := exists_result_of_forall₂ (forall₂_of_mapM hvalues) hloaded
      obtain ⟨normal, hnormal, -⟩ := Except.bind_eq_ok_iff.1 hvalue
      exact checkRaw_eq_nil hraw hnormal
    simp only [checkStep, hparsed, List.nil_append]
    exact List.flatMap_eq_nil_iff.2 hbody
  | _ => cases hload

/-- An assignment that takes effect passes as the property that it is loaded from. -/
theorem checkValue_eq_nil {value : Json} {assignment : Assignment}
    (hload : Assignment.ofJson (key, value) = .ok assignment)
    (hsound : assignment.error? {} = none) : checkValue ⟨key, value, path⟩ = [] := by
  obtain ⟨applied, happly⟩ := (Assignment.error?_eq_none_iff .plain).1 hsound
  cases value with
  | null => rfl
  | object steps =>
    simp only [Assignment.ofJson] at hload
    split at hload
    · rename_i hname
      obtain ⟨loaded, hsteps, ⟨⟩⟩ := Except.bind_eq_ok_iff.1 hload
      rw [Assignment.apply_keyframes, Except.map_eq_ok_iff] at happly
      obtain ⟨block, hblock, -⟩ := happly
      obtain ⟨frames, hframes, -⟩ := Except.bind_eq_ok_iff.1 hblock
      simp only [checkValue, if_pos hname]
      refine List.flatMap_eq_nil_iff.2 fun step hstep => ?_
      obtain ⟨loadedStep, hmem, hstepLoad⟩ :=
        exists_result_of_forall₂ (forall₂_of_mapM hsteps) hstep
      obtain ⟨frame, -, hframe⟩ := exists_result_of_forall₂ (forall₂_of_mapM hframes) hmem
      exact checkStep_eq_nil hstepLoad hframe
    · cases hload
  | _ =>
    obtain ⟨raw, hraw, ⟨⟩⟩ := Except.bind_eq_ok_iff.1 hload
    rw [Assignment.apply_value, Except.map_eq_ok_iff] at happly
    obtain ⟨normal, hnormal, -⟩ := happly
    exact checkRaw_eq_nil hraw hnormal

/-! ## Rules -/

/-- The rules whose errors are about what the loader and normalization check. -/
def validityRules : List String :=
  [styleShapeName, validPseudoName, validValueName]

/-- What the default rules say about an assignment that takes effect is about its name or its
importance. -/
theorem not_mem_validityRules {value : Json} {assignment : Assignment}
    (hload : Assignment.ofJson (key, value) = .ok assignment)
    (hsound : assignment.error? {} = none) {d : Diagnostic}
    (hd : d ∈ checkPropertyAt defaultRules path key value) : d.rule ∉ validityRules := by
  obtain ⟨rule, hrule, hmem⟩ := List.mem_flatMap.1 hd
  simp only [defaultRules, List.mem_cons, List.not_mem_nil, or_false] at hrule
  -- The rule on values is silent, and the others report under names of their own.
  rcases hrule with rfl | rfl | rfl | rfl
  · have hknown : d ∈ checkKnown ⟨key, value, path ++ "." ++ key⟩ := hmem
    rw [checkKnown] at hknown
    split at hknown
    · cases hknown
    · obtain rfl := List.mem_singleton.1 hknown
      show validPropertyName ∉ validityRules
      decide
  · cases hmem
  · have hvalue : d ∈ checkValue ⟨key, value, path ++ "." ++ key⟩ := hmem
    rw [checkValue_eq_nil hload hsound] at hvalue
    cases hvalue
  · have himportant : d ∈ checkImportance ⟨key, value, path ++ "." ++ key⟩ := hmem
    rw [checkImportance] at himportant
    split at himportant
    · obtain rfl := List.mem_singleton.1 himportant
      show noImportantName ∉ validityRules
      decide
    · cases himportant

/-- A context that may be used is not reported as an error. -/
theorem isError_eq_false_of_opening {context : Context} (hkey : Context.ofKey? key = some context)
    (hcheck : Context.check.{0} context = .ok ⟨⟩) {d : Diagnostic}
    (hd : d ∈ checkOpeningAt defaultRules path key) : d.isError = false := by
  have hopening : d ∈ checkOpening ⟨key, none, path⟩ := by
    simpa [checkOpeningAt, defaultRules, validProperty, validPseudo, validValue, noImportant]
      using hd
  cases context with
  | plain =>
    simp only [checkOpening, hkey] at hopening
    cases hopening
  | pseudo selector =>
    by_cases hvalid : Pseudo.isValid selector
    · simp only [checkOpening, hkey, if_pos hvalid] at hopening
      cases hopening
    · simp [Context.check, hvalid] at hcheck
  | atRule condition =>
    by_cases hknown : atRules.contains (atKeyword condition)
    · simp only [checkOpening, hkey, if_pos hknown] at hopening
      cases hopening
    · -- Other at-rules are warned about only.
      simp only [checkOpening, hkey, if_neg hknown] at hopening
      obtain rfl := List.mem_singleton.1 hopening
      rfl

end Lint

/-- A module without errors is compiled from assignments that all take effect. -/
theorem error?_eq_none_of_compiles {sheet : Sheet} {store : Store} {options : Options}
    {file : Option String} {compiled : CompiledModule}
    (hcompiled : (store.compile options file sheet).2 = .ok compiled)
    (herrors : compiled.errors = []) :
    ∀ item ∈ sheet.assignments, item.2.error? options = none := by
  obtain ⟨-, rfl⟩ := compile_eq_ok_iff.1 hcompiled
  rwa [Sheet.errors_plan, errorsOf_eq, List.filterMap_eq_nil_iff] at herrors

/-- A sheet that loads and compiles without errors is not reported by the linter as misshapen, for a
context that may not be used, or for its values. -/
theorem isError_eq_false_of_compiles {sheet : Json} {loaded : Sheet} {file : Option String}
    {compiled : CompiledModule} (hload : Sheet.ofJson sheet = .ok loaded)
    (hcompiled : ((∅ : Store).compile {} file loaded).2 = .ok compiled)
    (herrors : compiled.errors = []) :
    ∀ d ∈ Lint.checkSheet Lint.defaultRules sheet,
      d.rule ∈ Lint.validityRules → d.isError = false := by
  have hsound := error?_eq_none_of_compiles hcompiled herrors
  refine (Lint.walk_sheet Lint.defaultRules hload).forall_mem ?_ ?_
  · intro path key value item hitem hproperty d hd hrule
    exact absurd hrule (Lint.not_mem_validityRules hproperty (hsound item hitem) hd)
  · intro path key context hkey hcheck d hd _
    exact Lint.isError_eq_false_of_opening hkey hcheck hd

/-- A namespace with an unknown property, fallbacks in a block, an at-rule that the linter does not
know, and keyframes. -/
def misspelled : Json :=
  .object [("card", .object
    [("colour", .string "red"),
     (":hover", .object [("margin", .array [.string "4px", .string "1em"])]),
     ("@layer base", .object [("color", .null)]),
     ("animationName", .object [("50%", .object [("opacity", .string "0.5")])])])]

/-- It compiles, and the linter rejects it for the name of the property only. -/
theorem isError_eq_false_of_compiles_misspelled :
    ∃ loaded compiled, Sheet.ofJson misspelled = .ok loaded ∧
      ((∅ : Store).compile {} none loaded).2 = .ok compiled ∧ compiled.errors = [] ∧
      (∀ d ∈ Lint.checkSheet Lint.defaultRules misspelled,
        d.rule ∈ Lint.validityRules → d.isError = false) ∧
      (Lint.checkSheet Lint.defaultRules misspelled).map (fun d => (d.rule, d.isError)) =
        [(Lint.validPropertyName, true), (Lint.validPseudoName, false)] := by
  obtain ⟨loaded, hload⟩ : ∃ loaded, Sheet.ofJson misspelled = .ok loaded := ⟨_, rfl⟩
  obtain ⟨compiled, hcompiled, herrors⟩ : ∃ compiled,
      ((∅ : Store).compile {} none loaded).2 = .ok compiled ∧ compiled.errors = [] := by
    obtain rfl := Except.ok.inj hload
    exact ⟨_, compile_eq_ok_iff.2 ⟨by decide +kernel, rfl⟩, by decide +kernel⟩
  exact ⟨loaded, compiled, hload, hcompiled, herrors,
    isError_eq_false_of_compiles hload hcompiled herrors, by decide +kernel⟩

end AtomicCss
