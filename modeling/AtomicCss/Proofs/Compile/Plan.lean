import AtomicCss.Plan
import AtomicCss.Proofs.Store.Emissions
/-!
# Compiling is planning and emitting

Compiling a sheet step by step threads a store, a list of rules, a list of errors and an object
through the assignments. `compile_eq_plan` says what comes out: the store after all emissions of the
sheet, and what the sheet compiles to in any store, or else the store and the error of the first
emission that is refused.
-/

namespace AtomicCss

/-! ## Assignments -/

namespace Draft

/-- The draft after emissions that the store has accepted. -/
def emitted (draft : Draft) (store : Store) (emissions : List Emission) : Draft :=
  { draft with store, rules := draft.rules ++ emissions.map (·.atomic.rule) }

/-- Makes emissions, and on success goes on with the draft after them. -/
def emitThen (draft : Draft) (emissions : List Emission) (next : Draft → Draft) :
    Except Halt Draft :=
  match draft.store.insertAll emissions with
  | (store, .ok ()) => .ok (next (draft.emitted store emissions))
  | (store, .error error) => .error ⟨store, error⟩

theorem emit_eq (draft : Draft) (emission : Emission) :
    draft.emit emission =
      match draft.store.insert emission with
      | .error error => .error ⟨draft.store, error⟩
      | .ok store => .ok (draft.emitted store [emission], emission.atomic) := by
  rw [emit, Store.emit_eq_insert]
  cases draft.store.insert emission with
  | error error => rfl
  | ok store => rfl

theorem declare_eq (options : Options) (draft : Draft) (d : Declaration) :
    draft.declare options d =
      draft.emitThen [d.emission options.classPrefix]
        (·.decideKey d.context d.property (some (d.className options.classPrefix))) := by
  rw [declare, emit_eq, emitThen, Store.insertAll]
  cases draft.store.insert (d.emission options.classPrefix) with
  | error error => rfl
  | ok store => rfl

/-- An assignment leaves the draft with its effect, or with its error. -/
theorem assign_eq (options : Options) (context : Context) (draft : Draft)
    (assignment : Assignment) :
    draft.assign options context assignment =
      match assignment.apply options context with
      | .error error => .ok (draft.reject error)
      | .ok applied =>
        draft.emitThen applied.emissions
          (·.decideKey applied.context applied.property applied.className) := by
  cases hassigned : assignment.assigned with
  | reset =>
    -- A reset emits nothing.
    simp [assign, Assignment.apply, hassigned, emitThen, Store.insertAll, emitted]
  | value raw =>
    simp only [assign, Assignment.apply, hassigned, bind, Except.bind, pure, Except.pure]
    cases normalize options (Property.cssName assignment.key) raw with
    | error error => rfl
    | ok value => exact declare_eq options draft _
  | keyframes keyframes =>
    simp only [assign, Assignment.apply, hassigned, bind, Except.bind, pure, Except.pure]
    cases keyframes.normalize options with
    | error error => rfl
    | ok block =>
      simp only [emit_eq, Applied.ofDeclaration, emitThen, List.singleton_append, Store.insertAll]
      cases draft.store.insert (block.emission options.classPrefix) with
      | error error => rfl
      | ok store =>
        -- The name that the store answers with is that of the block.
        simp only [declare_eq, emitThen, Store.insertAll, emitted]
        cases store.insert _ with
        | error error => rfl
        | ok after =>
          simp only [List.map_cons, List.map_nil, List.append_assoc, List.cons_append,
            List.nil_append]
          rfl

/-- Compiles an assignment that stands with its context. -/
def assignIn (options : Options) (draft : Draft) (assignment : Context × Assignment) :
    Except Halt Draft :=
  draft.assign options assignment.1 assignment.2

/-- What a run of assignments makes of a draft whose store accepts their emissions. -/
def performed (options : Options) (draft : Draft) (store : Store)
    (assignments : List (Context × Assignment)) : Draft :=
  let applied := appliedOf options assignments
  { store
    rules := draft.rules ++ (applied.flatMap Applied.emissions).map (·.atomic.rule)
    errors := draft.errors ++ errorsOf options assignments
    style := applied.foldl (fun style a => style.set a.key a.className) draft.style
    applied := draft.applied ++ applied.map fun a => (a.context, a.property) }

/-- A run of assignments makes their emissions, and on success leaves all their effects and all
their errors. -/
theorem foldlM_assignIn (options : Options) (draft : Draft)
    (assignments : List (Context × Assignment)) :
    assignments.foldlM (assignIn options) draft =
      match draft.store.insertAll ((appliedOf options assignments).flatMap Applied.emissions) with
      | (store, .ok ()) => .ok (draft.performed options store assignments)
      | (store, .error error) => .error ⟨store, error⟩ := by
  induction assignments generalizing draft with
  | nil => simp [appliedOf, errorsOf, performed, Store.insertAll, pure, Except.pure]
  | cons head rest ih =>
    rcases head with ⟨context, assignment⟩
    rw [List.foldlM_cons, assignIn, assign_eq]
    cases happly : assignment.apply options context with
    | error error =>
      simp only [bind, Except.bind, ih, appliedOf_cons_of_error happly, performed,
        errorsOf_cons_of_error happly, reject, List.append_assoc, List.cons_append,
        List.nil_append]
    | ok applied =>
      have happlied := appliedOf_cons_of_ok happly rest
      have herrors := errorsOf_cons_of_ok happly rest
      simp only [happlied, List.flatMap_cons, Store.insertAll_append, emitThen]
      -- The store refuses the emissions of this assignment, or goes on with the rest.
      rcases draft.store.insertAll applied.emissions with ⟨store, error | ⟨⟩⟩
      · rfl
      · simp only [bind, Except.bind, ih, performed, happlied, herrors, emitted, decideKey,
          List.flatMap_cons, List.map_append, List.map_cons, List.foldl_cons, List.append_assoc,
          List.cons_append, List.nil_append]
        rfl

/-- The entries of a namespace are its assignments one after the other. -/
theorem foldlM_enter (options : Options) (draft : Draft) (entries : List Sheet.Entry) :
    entries.foldlM (enter options) draft =
      (entries.flatMap Sheet.Entry.assignments).foldlM (assignIn options) draft := by
  induction entries generalizing draft with
  | nil => rfl
  | cons entry rest ih =>
    -- Either kind of entry is entered as the list of its assignments.
    have hentry : enter options draft entry =
        entry.assignments.foldlM (assignIn options) draft := by
      cases entry with
      | single assignment =>
        simp [enter, Sheet.Entry.assignments, assignIn]
      | block context assignments =>
        simp only [enter, Sheet.Entry.assignments, List.foldlM_map]
        rfl
    rw [List.foldlM_cons, List.flatMap_cons, List.foldlM_append, hentry]
    congr 1
    funext draft
    exact ih draft

/-- The resets of applied properties one after the other are those of all their keys in a row. -/
theorem foldl_resets (applied : List Applied) (style : StyleObject) :
    applied.foldl
      (fun style a => (Property.resets a.property).foldl
        (fun style property =>
          style.resetIfAbsent (a.context.decorate (Property.styleKey property)))
        style)
      style =
      (applied.flatMap Applied.resetKeys).foldl StyleObject.resetIfAbsent style := by
  induction applied generalizing style with
  | nil => rfl
  | cons a rest ih =>
    rw [List.foldl_cons, ih, List.flatMap_cons, List.foldl_append, Applied.resetKeys,
      List.foldl_map]

/-- What is reset in a draft depends on its applied properties and its object only. -/
theorem resetOverridden_eq (draft : Draft) (applied : List Applied)
    (h : draft.applied = applied.map fun a => (a.context, a.property)) :
    draft.resetOverridden =
      (applied.flatMap Applied.resetKeys).foldl StyleObject.resetIfAbsent draft.style := by
  rw [resetOverridden, h, List.foldl_map]
  exact foldl_resets applied draft.style

end Draft

/-! ## Namespaces and sheets -/

namespace Progress

/-- The progress after the namespaces of a list whose emissions the store has accepted. -/
def through (options : Options) (file : Option String) (progress : Progress) (store : Store)
    (namespaces : List Namespace) : Progress where
  store
  rules := progress.rules ++
    (namespaces.flatMap fun ns => (ns.applied options).flatMap Applied.emissions).map
      (·.atomic.rule)
  errors := progress.errors ++ namespaces.flatMap fun ns => ns.errors options
  styles := (namespaces.map fun ns => (ns.name, ns.compiled options file)).foldl
    (fun styles entry => styles.insert entry.1 entry.2) progress.styles

/-- Compiling a namespace adds its object, its rules and its errors if its emissions succeed. -/
theorem compile_eq (options : Options) (file : Option String) (progress : Progress)
    (ns : Namespace) :
    progress.compile options file ns =
      match progress.store.insertAll ((ns.applied options).flatMap Applied.emissions) with
      | (store, .ok ()) => .ok (progress.through options file store [ns])
      | (store, .error error) => .error ⟨store, error⟩ := by
  rw [compile, Draft.foldlM_enter, Draft.foldlM_assignIn]
  simp only [Namespace.applied, Namespace.assignments]
  rcases progress.store.insertAll _ with ⟨store, error | ⟨⟩⟩
  · rfl
  · simp only
    rw [Draft.resetOverridden_eq _ (appliedOf options (ns.entries.flatMap Sheet.Entry.assignments))
      (by simp [Draft.performed])]
    simp [through, Draft.performed, Namespace.compiled, Namespace.applied, Namespace.errors,
      Namespace.assignments]

theorem foldlM_compile (options : Options) (file : Option String) (progress : Progress)
    (namespaces : List Namespace) :
    namespaces.foldlM (compile options file) progress =
      match progress.store.insertAll
        (namespaces.flatMap fun ns => (ns.applied options).flatMap Applied.emissions) with
      | (store, .ok ()) => .ok (progress.through options file store namespaces)
      | (store, .error error) => .error ⟨store, error⟩ := by
  -- By induction for every progress: each namespace goes on with the store of those before it.
  induction namespaces generalizing progress with
  | nil => simp [through, Store.insertAll, pure, Except.pure]
  | cons ns rest ih =>
    rw [List.foldlM_cons, compile_eq, List.flatMap_cons, Store.insertAll_append]
    rcases progress.store.insertAll _ with ⟨store, error | ⟨⟩⟩
    · rfl
    · simp only [bind, Except.bind, ih, through, List.flatMap_cons, List.flatMap_nil,
        List.append_nil, List.map_append, List.map_cons, List.map_nil, List.foldl_cons,
        List.foldl_nil, List.append_assoc]

end Progress

/-- Compiling a sheet into a store makes all its emissions in order. If the store accepts them, the
sheet compiles to what it compiles to in any store; if not, the store keeps those before the first
that it refuses. -/
theorem compile_eq_plan (store : Store) (options : Options) (file : Option String)
    (sheet : Sheet) :
    store.compile options file sheet =
      match store.insertAll (sheet.emissions options) with
      | (after, .ok ()) => (after, .ok (sheet.plan options file))
      | (after, .error error) => (after, .error error) := by
  rw [Store.compile, Progress.foldlM_compile]
  simp only [Progress.start, Sheet.emissions]
  rcases store.insertAll _ with ⟨after, error | ⟨⟩⟩
  · rfl
  · simp only [Progress.through, List.nil_append]
    rfl

/-- A compilation leaves the store that its emissions leave. -/
theorem compile_store (store : Store) (options : Options) (file : Option String) (sheet : Sheet) :
    (store.compile options file sheet).1 = (store.insertAll (sheet.emissions options)).1 := by
  rw [compile_eq_plan]
  rcases store.insertAll _ with ⟨after, error | ⟨⟩⟩
  · rfl
  · rfl

/-- A compilation that succeeds gives the plan of the sheet, and it does so just if all emissions of
the sheet are accepted. -/
theorem compile_eq_ok_iff {store : Store} {options : Options} {file : Option String}
    {sheet : Sheet} {compiled : CompiledModule} :
    (store.compile options file sheet).2 = .ok compiled ↔
      (store.insertAll (sheet.emissions options)).2 = .ok () ∧
        compiled = sheet.plan options file := by
  rw [compile_eq_plan]
  rcases store.insertAll _ with ⟨after, error | ⟨⟩⟩
  · simp
  · simp [eq_comm]

end AtomicCss
