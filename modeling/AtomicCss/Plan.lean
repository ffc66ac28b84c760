import AtomicCss.Compile
/-!
# What a sheet compiles to

What a sheet compiles to does not depend on the store that it is compiled into: `Sheet.plan` gives
the compiled objects, the rules and the errors, and `Sheet.emissions` all that the store has to
accept for it.
-/

namespace AtomicCss

/-- An assignment that took effect: a key that is set to a class, or reset. -/
structure Applied where
  context : Context
  /-- The CSS name of the property. -/
  property : String
  className : Option String
  emissions : List Emission
deriving DecidableEq

namespace Applied

/-- The key of the compiled object that is decided. -/
def key (applied : Applied) : String :=
  applied.context.decorate (Property.styleKey applied.property)

/-- The keys that are reset by it. -/
def resetKeys (applied : Applied) : List String :=
  (Property.resets applied.property).map fun property =>
    applied.context.decorate (Property.styleKey property)

/-- The effect of a declaration that is emitted behind others. -/
def ofDeclaration (options : Options) (before : List Emission) (d : Declaration) : Applied :=
  let emission := d.emission options.classPrefix
  ⟨d.context, d.property, some emission.atomic.name, before ++ [emission]⟩

end Applied

/-- The effect of an assignment in a context. Keyframes are emitted first, and their name is then
the value of the property. -/
def Assignment.apply (options : Options) (context : Context) (assignment : Assignment) :
    Except ValueError Applied :=
  let property := Property.cssName assignment.key
  match assignment.assigned with
  | .reset => .ok ⟨context, property, none, []⟩
  | .value raw => do
    let value ← normalize options property raw
    return .ofDeclaration options [] ⟨property, value, context⟩
  | .keyframes keyframes => do
    let block ← keyframes.normalize options
    let emission := block.emission options.classPrefix
    return .ofDeclaration options [emission] ⟨property, ⟨[emission.atomic.name]⟩, context⟩

/-- The assignments that take effect. -/
def appliedOf (options : Options) (assignments : List (Context × Assignment)) : List Applied :=
  assignments.filterMap fun (context, assignment) =>
    match assignment.apply options context with
    | .ok applied => some applied
    | .error _ => none

/-- What is wrong with those that do not. -/
def errorsOf (options : Options) (assignments : List (Context × Assignment)) : List ValueError :=
  assignments.filterMap fun (context, assignment) =>
    match assignment.apply options context with
    | .ok _ => none
    | .error error => some error

section Cons

variable {options : Options} {context : Context} {assignment : Assignment}

/-- An assignment that takes effect is applied in front of the others. -/
theorem appliedOf_cons_of_ok {applied : Applied} (h : assignment.apply options context = .ok applied)
    (rest : List (Context × Assignment)) :
    appliedOf options ((context, assignment) :: rest) = applied :: appliedOf options rest := by
  simp [appliedOf, h]

/-- An assignment that does not take effect is passed over. -/
theorem appliedOf_cons_of_error {error : ValueError}
    (h : assignment.apply options context = .error error) (rest : List (Context × Assignment)) :
    appliedOf options ((context, assignment) :: rest) = appliedOf options rest := by
  simp [appliedOf, h]

/-- An assignment that takes effect adds no error. -/
theorem errorsOf_cons_of_ok {applied : Applied} (h : assignment.apply options context = .ok applied)
    (rest : List (Context × Assignment)) :
    errorsOf options ((context, assignment) :: rest) = errorsOf options rest := by
  simp [errorsOf, h]

/-- The error of an assignment comes in front of those of the others. -/
theorem errorsOf_cons_of_error {error : ValueError}
    (h : assignment.apply options context = .error error) (rest : List (Context × Assignment)) :
    errorsOf options ((context, assignment) :: rest) = error :: errorsOf options rest := by
  simp [errorsOf, h]

end Cons

namespace Namespace

def applied (ns : Namespace) (options : Options) : List Applied :=
  appliedOf options ns.assignments

def errors (ns : Namespace) (options : Options) : List ValueError :=
  errorsOf options ns.assignments

/-- The compiled object: what was assigned last to each key, and resets for the keys that an
assignment overrides and none decides. -/
def compiled (ns : Namespace) (options : Options) (file : Option String) : StyleObject :=
  let applied := ns.applied options
  let assigned := applied.foldl (fun style a => style.set a.key a.className) (∅ : StyleObject)
  let style := (applied.flatMap Applied.resetKeys).foldl StyleObject.resetIfAbsent assigned
  if options.devMarkers then style.set (ns.marker file) (some (ns.marker file)) else style

end Namespace

namespace Sheet

/-- All that compiling a sheet emits, in order. -/
def emissions (sheet : Sheet) (options : Options) : List Emission :=
  sheet.namespaces.flatMap fun ns => (ns.applied options).flatMap Applied.emissions

/-- What a sheet compiles to if its emissions succeed. -/
def plan (sheet : Sheet) (options : Options) (file : Option String) : CompiledModule where
  styles := .ofList (sheet.namespaces.map fun ns => (ns.name, ns.compiled options file))
  rules := (Stylesheet.ofRules ((sheet.emissions options).map (·.atomic.rule))).rules
  errors := sheet.namespaces.flatMap fun ns => ns.errors options

end Sheet

end AtomicCss
