import AtomicCss.Proofs.Compile.Authored
import AtomicCss.Proofs.Compile.Plan
/-!
# Assignments that are left out

An assignment whose value cannot be normalized leaves no trace but its error. What a sheet compiles
to without such assignments is what it compiles to with them, less the errors
(`Sheet.plan_withoutRejected`), and it emits the same. So both end alike on any store
(`compile_withoutRejected`).
-/

namespace AtomicCss

/-! ## Sheets without such assignments -/

/-- An entry without the assignments that are left out; a block stays even if it is left empty. -/
def Sheet.Entry.withoutRejected (options : Options) : Sheet.Entry → List Sheet.Entry
  | .single assignment => if assignment.rejected options then [] else [.single assignment]
  | .block context assignments =>
    [.block context (assignments.filter fun assignment => !assignment.rejected options)]

def Namespace.withoutRejected (options : Options) (ns : Namespace) : Namespace :=
  ⟨ns.name, ns.entries.flatMap (Sheet.Entry.withoutRejected options)⟩

/-- A sheet without the assignments whose values cannot be normalized. -/
def Sheet.withoutRejected (options : Options) (sheet : Sheet) : Sheet :=
  ⟨sheet.namespaces.map (Namespace.withoutRejected options)⟩

/-- The assignments of a sheet whose values cannot be normalized, in authored order. -/
def Sheet.rejected (options : Options) (sheet : Sheet) : List (Context × Assignment) :=
  sheet.assignments.filter fun item => item.2.rejected options

variable {options : Options}

/-- Of an entry, only the assignments that take effect are kept. -/
theorem Sheet.Entry.assignments_withoutRejected (entry : Sheet.Entry) :
    (entry.withoutRejected options).flatMap Sheet.Entry.assignments =
      entry.assignments.filter fun item => !item.2.rejected options := by
  cases entry with
  | single assignment =>
    cases h : assignment.rejected options with
    | true => simp [withoutRejected, assignments, h]
    | false => simp [withoutRejected, assignments, h]
  | block context assignments =>
    simp [withoutRejected, Sheet.Entry.assignments, List.filter_map, Function.comp_def]

/-- Of a namespace, only the assignments that take effect are kept. -/
theorem Namespace.assignments_withoutRejected (ns : Namespace) :
    (ns.withoutRejected options).assignments =
      ns.assignments.filter fun item => !item.2.rejected options := by
  simp only [assignments, withoutRejected, List.flatMap_assoc, List.filter_flatMap,
    Sheet.Entry.assignments_withoutRejected]

/-- Of a sheet, only the assignments that take effect are kept. -/
theorem Sheet.assignments_withoutRejected (sheet : Sheet) :
    (sheet.withoutRejected options).assignments =
      sheet.assignments.filter fun item => !item.2.rejected options := by
  simp only [assignments, withoutRejected, List.flatMap_map, List.filter_flatMap,
    Namespace.assignments_withoutRejected]

/-! ## What is compiled without them -/

/-- An assignment that is left out has no effect. -/
theorem appliedOf_withoutRejected (assignments : List (Context × Assignment)) :
    appliedOf options (assignments.filter fun item => !item.2.rejected options) =
      appliedOf options assignments := by
  rw [appliedOf, List.filterMap_filter, appliedOf]
  refine List.filterMap_congr ?_
  rintro ⟨context, assignment⟩ -
  cases happly : assignment.apply options context with
  | error error =>
    simp [happly, Assignment.rejected, Assignment.apply_eq_error_iff.1 happly]
  | ok applied =>
    simp [Assignment.rejected, (Assignment.error?_eq_none_iff context).2 ⟨applied, happly⟩]

/-- An assignment that is not left out has no error. -/
theorem errorsOf_withoutRejected (assignments : List (Context × Assignment)) :
    errorsOf options (assignments.filter fun item => !item.2.rejected options) = [] := by
  rw [errorsOf_eq, List.filterMap_eq_nil_iff]
  intro item hitem
  simpa [Assignment.rejected] using (List.mem_filter.1 hitem).2

/-- Each assignment that is left out has one error. -/
theorem errorsOf_eq_map_rejected (assignments : List (Context × Assignment)) :
    (errorsOf options assignments).map some =
      (assignments.filter fun item => item.2.rejected options).map
        fun item => item.2.error? options := by
  rw [errorsOf_eq]
  induction assignments with
  | nil => rfl
  | cons item rest ih =>
    cases herror : item.2.error? options with
    | none => simpa [Assignment.rejected, herror] using ih
    | some error => simpa [Assignment.rejected, herror] using ih

/-- What is left out does not style anything. -/
theorem Namespace.compiled_withoutRejected (ns : Namespace) (file : Option String) :
    (ns.withoutRejected options).compiled options file = ns.compiled options file := by
  have happlied : (ns.withoutRejected options).applied options = ns.applied options := by
    rw [applied, assignments_withoutRejected, appliedOf_withoutRejected, applied]
  rw [compiled, happlied, compiled]
  rfl

/-- What is left out emits nothing. -/
theorem Sheet.emissions_withoutRejected (sheet : Sheet) :
    (sheet.withoutRejected options).emissions options = sheet.emissions options := by
  rw [emissions_eq, assignments_withoutRejected, appliedOf_withoutRejected, emissions_eq]

/-- What is left out is missing among the errors only. -/
theorem Sheet.plan_withoutRejected (sheet : Sheet) (file : Option String) :
    (sheet.withoutRejected options).plan options file =
      { sheet.plan options file with errors := [] } := by
  have herrors : ((sheet.withoutRejected options).plan options file).errors = [] := by
    rw [errors_plan, assignments_withoutRejected, errorsOf_withoutRejected]
  have hstyles : ((sheet.withoutRejected options).plan options file).styles =
      (sheet.plan options file).styles := by
    simp only [plan, withoutRejected, List.map_map, Function.comp_def,
      Namespace.compiled_withoutRejected]
    rfl
  have hrules : ((sheet.withoutRejected options).plan options file).rules =
      (sheet.plan options file).rules := by
    simp only [plan, emissions_withoutRejected]
  show _ = CompiledModule.mk (sheet.plan options file).styles (sheet.plan options file).rules []
  rw [← hstyles, ← hrules, ← herrors]

/-- Compiling a sheet with and without the assignments whose values cannot be normalized leaves one
store, and both compilations fail with one error, or both succeed with the same objects and the same
rules. Then the errors of the first are those of the assignments that were left out, each once in
authored order, and the second has none. -/
theorem compile_withoutRejected (store : Store) (options : Options) (file : Option String)
    (sheet : Sheet) :
    let full := store.compile options file sheet
    let clean := store.compile options file (sheet.withoutRejected options)
    clean.1 = full.1 ∧
      (∀ error, clean.2 = .error error ↔ full.2 = .error error) ∧
      ∀ compiled, full.2 = .ok compiled →
        clean.2 = .ok { compiled with errors := [] } ∧
          compiled.errors.map some =
            (sheet.rejected options).map fun item => item.2.error? options := by
  simp only [compile_eq_plan, Sheet.emissions_withoutRejected, Sheet.plan_withoutRejected]
  rcases store.insertAll (sheet.emissions options) with ⟨after, error | ⟨⟩⟩
  · simp
  · refine ⟨rfl, by simp, ?_⟩
    rintro compiled ⟨⟩
    refine ⟨rfl, ?_⟩
    rw [Sheet.errors_plan, errorsOf_eq_map_rejected, Sheet.rejected]

/-- A namespace with a shorthand and with keyframes that cannot be normalized. -/
def faulty : Namespace :=
  ⟨"faulty", [.single ⟨"color", .value (.single (.text "red"))⟩,
    .block (.pseudo ":hover") [⟨"overflow", .value (.single (.text "calc(1px"))⟩],
    .single ⟨"animationName", .keyframes ⟨[⟨"up", []⟩]⟩⟩]⟩

/-- Its two errors are all that is left of them. -/
theorem compile_withoutRejected_faulty :
    let full := (∅ : Store).compile {} none ⟨[faulty]⟩
    let clean := (∅ : Store).compile {} none (Sheet.withoutRejected {} ⟨[faulty]⟩)
    ∃ compiled, full.2 = .ok compiled ∧ clean.1 = full.1 ∧
      clean.2 = .ok { compiled with errors := [] } ∧ compiled.errors.length = 2 := by
  intro full clean
  have hok : full.2 = .ok (Sheet.plan ⟨[faulty]⟩ {} none) :=
    compile_eq_ok_iff.2 ⟨by decide +kernel, rfl⟩
  obtain ⟨hstore, -, hcompiled⟩ := compile_withoutRejected ∅ {} none ⟨[faulty]⟩
  obtain ⟨hclean, herrors⟩ := hcompiled _ hok
  have hlength := congrArg List.length herrors
  rw [List.length_map, List.length_map] at hlength
  exact ⟨_, hok, hstore, hclean, hlength.trans (by decide +kernel)⟩

end AtomicCss
