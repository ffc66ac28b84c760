import AtomicCss.Declaration
import AtomicCss.Json.Reader
import AtomicCss.Property.Shorthand
import AtomicCss.Sheet.Loader
import AtomicCss.Store
import AtomicCss.StyleObject
import AtomicCss.Text.Affix
/-!
# Compiling style sheets

The assignments of a sheet are compiled one after the other. Each emits its class, which is the one
that the store answers with, and decides a key of the object of its namespace. When all assignments
of a namespace are through, the keys are reset that one of them overrides and none decides.

A value that cannot be normalized is recorded as an error, and its assignment is left out. If the
store refuses an emission, that is the outcome, and the store keeps what was emitted before.
-/

namespace AtomicCss

/-- What a sheet compiles to: an object for each namespace, the rules that these need, and the
errors of the assignments that were left out. -/
structure CompiledModule where
  styles : KeyMap StyleObject
  rules : List Rule
  errors : List ValueError
deriving DecidableEq

namespace CompiledModule

/-- The objects as JSON. -/
def toJson (compiled : CompiledModule) : Json :=
  .object (compiled.styles.entries.map fun (name, style) => (name, style.toJson))

def stylesheet (compiled : CompiledModule) : Stylesheet :=
  .ofRules compiled.rules

end CompiledModule

/-- A compilation that the store has stopped: the store as it is left, and why. -/
structure Halt where
  store : Store
  error : IntegrityError

/-! ## Assignments -/

/-- A namespace that is being compiled: the store, the rules of all emissions of the sheet in their
order, the errors of the sheet, the object, and the properties that took effect in it. -/
structure Draft where
  store : Store
  rules : List Rule
  errors : List ValueError
  style : StyleObject
  applied : List (Context × String)

namespace Draft

/-- Leaves an assignment out because of its value. -/
def reject (draft : Draft) (error : ValueError) : Draft :=
  { draft with errors := draft.errors ++ [error] }

/-- Sets the key of a property to a class, or resets it. -/
def decideKey (draft : Draft) (context : Context) (property : String) (name : Option String) :
    Draft :=
  { draft with
    style := draft.style.set (context.decorate (Property.styleKey property)) name
    applied := draft.applied ++ [(context, property)] }

/-- Emits a class and lists its rule. -/
def emit (draft : Draft) (emission : Emission) : Except Halt (Draft × AtomicClass) :=
  match draft.store.emit emission with
  | .error error => .error ⟨draft.store, error⟩
  | .ok (store, atomic) => .ok ({ draft with store, rules := draft.rules ++ [atomic.rule] }, atomic)

/-- Emits the class of a declaration and sets the key to it. -/
def declare (options : Options) (draft : Draft) (d : Declaration) : Except Halt Draft :=
  match draft.emit (d.emission options.classPrefix) with
  | .error halt => .error halt
  | .ok (draft, atomic) => .ok (draft.decideKey d.context d.property (some atomic.name))

/-- Compiles an assignment in a context. Keyframes are emitted first, and their name is then the
value of the property. -/
def assign (options : Options) (context : Context) (draft : Draft) (assignment : Assignment) :
    Except Halt Draft :=
  let property := Property.cssName assignment.key
  match assignment.assigned with
  | .reset => .ok (draft.decideKey context property none)
  | .value raw =>
    match normalize options property raw with
    | .error error => .ok (draft.reject error)
    | .ok value => draft.declare options ⟨property, value, context⟩
  | .keyframes keyframes =>
    match keyframes.normalize options with
    | .error error => .ok (draft.reject error)
    | .ok block =>
      match draft.emit (block.emission options.classPrefix) with
      | .error halt => .error halt
      | .ok (draft, atomic) => draft.declare options ⟨property, ⟨[atomic.name]⟩, context⟩

def enter (options : Options) (draft : Draft) : Sheet.Entry → Except Halt Draft
  | .single assignment => draft.assign options .plain assignment
  | .block context assignments => assignments.foldlM (assign options context) draft

/-- The object with resets for the keys that a property overrides and none decides. -/
def resetOverridden (draft : Draft) : StyleObject :=
  draft.applied.foldl
    (fun style (context, property) =>
      (Property.resets property).foldl
        (fun style property => style.resetIfAbsent (context.decorate (Property.styleKey property)))
        style)
    draft.style

end Draft

/-! ## Namespaces and sheets -/

/-- The class that names the file and the namespace of an object. -/
def Namespace.marker (ns : Namespace) (file : Option String) : String :=
  (match file with
    | some path => fileStem path
    | none => "style") ++ "__" ++ ns.name

/-- A sheet that is being compiled: the store, the rules and errors so far, and the objects of the
namespaces that are through. -/
structure Progress where
  store : Store
  rules : List Rule
  errors : List ValueError
  styles : KeyMap StyleObject

namespace Progress

def start (store : Store) : Progress := ⟨store, [], [], ∅⟩

/-- Compiles a namespace. -/
def compile (options : Options) (file : Option String) (progress : Progress) (ns : Namespace) :
    Except Halt Progress :=
  match ns.entries.foldlM (Draft.enter options)
      ⟨progress.store, progress.rules, progress.errors, ∅, []⟩ with
  | .error halt => .error halt
  | .ok draft =>
    let style := draft.resetOverridden
    let style :=
      if options.devMarkers then style.set (ns.marker file) (some (ns.marker file)) else style
    .ok ⟨draft.store, draft.rules, draft.errors, progress.styles.insert ns.name style⟩

end Progress

/-- Compiles a sheet into a store. -/
def Store.compile (store : Store) (options : Options) (file : Option String) (sheet : Sheet) :
    Store × Except IntegrityError CompiledModule :=
  match sheet.namespaces.foldlM (Progress.compile options file) (.start store) with
  | .error halt => (halt.store, .error halt.error)
  | .ok progress =>
    (progress.store,
      .ok ⟨progress.styles, (Stylesheet.ofRules progress.rules).rules, progress.errors⟩)

/-- Why the text of a sheet was not compiled. -/
inductive CompileError where
  | json (error : Json.ParseError)
  | sheet (error : SheetError)
  | integrity (error : IntegrityError)
deriving DecidableEq, Repr

/-- The message of an error, given the words for what is wrong with a text that is no JSON. -/
def CompileError.message (words : Json.ParseError → String) : CompileError → String
  | json error => "Invalid style JSON: " ++ words error
  | sheet error => error.message
  | integrity error => error.message

/-- The sheet that a text stands for. -/
def Sheet.parse (source : String) : Except CompileError Sheet := do
  let value ← (Json.parse source).mapError .json
  (Sheet.ofJson value).mapError .sheet

/-- Compiles the text of a sheet into a store. -/
def Store.compileText (store : Store) (options : Options) (file : Option String)
    (source : String) : Store × Except CompileError CompiledModule :=
  match Sheet.parse source with
  | .error error => (store, .error error)
  | .ok sheet =>
    let (store, result) := store.compile options file sheet
    (store, result.mapError .integrity)

end AtomicCss
