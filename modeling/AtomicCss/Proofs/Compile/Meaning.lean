import AtomicCss.Proofs.Compile.Authored
import AtomicCss.Proofs.Compile.Objects
import AtomicCss.Proofs.Compile.Plan
/-!
# What a compiled object says

What a namespace says of a key is read off its assignments alone (`Namespace.Means`): the last one to
the key that takes effect decides it, a key that none decides is reset if one that takes effect
overrides it, and no other key is mentioned. A compiled object says just this
(`Namespace.describes_compiled`), and nothing else does (`Namespace.Describes.unique`). So the
objects of a sheet are those that the namespaces describe that their names stand for
(`compiled_object_describes`).
-/

namespace AtomicCss

/-- An assignment takes effect, and it decides a key. -/
def Assignment.Decides (options : Options) (key : String) (item : Context × Assignment) : Prop :=
  item.2.rejected options = false ∧ item.2.keyIn item.1 = key

/-- What a namespace says of a key of its object: nothing, a reset, or a class. -/
inductive Namespace.Means (ns : Namespace) (options : Options) (key : String) :
    Option (Option String) → Prop
  /-- The last assignment to the key that takes effect decides it. -/
  | decided {before after : List (Context × Assignment)} {context : Context}
      {assignment : Assignment} {name : Option String}
      (split : ns.assignments = before ++ (context, assignment) :: after)
      (key_eq : assignment.keyIn context = key) (gives : assignment.Gives options context name)
      (last : ∀ later ∈ after, ¬ Assignment.Decides options key later) : Means ns options key (some name)
  /-- A key that none decides is reset if an assignment that takes effect overrides it. -/
  | overridden {item : Context × Assignment} (mem : item ∈ ns.assignments)
      (effective : item.2.rejected options = false) (resets : key ∈ item.2.resetKeysIn item.1)
      (undecided : ∀ other ∈ ns.assignments, ¬ Assignment.Decides options key other) :
      Means ns options key (some none)
  | unmentioned (undecided : ∀ item ∈ ns.assignments, ¬ Assignment.Decides options key item)
      (unreset : ∀ item ∈ ns.assignments, item.2.rejected options = false →
        key ∉ item.2.resetKeysIn item.1) : Means ns options key none

namespace Assignment

variable {options : Options} {context : Context} {assignment : Assignment}

theorem rejected_eq_false_iff (context : Context) :
    assignment.rejected options = false ↔
      ∃ applied, assignment.apply options context = .ok applied := by
  rw [← error?_eq_none_iff context, rejected, Option.isSome_eq_false_iff, Option.isNone_iff_eq_none]

theorem exists_gives_of_decides {key : String} {item : Context × Assignment}
    (h : Decides options key item) : ∃ name, item.2.Gives options item.1 name := by
  rcases (rejected_eq_false_iff item.1).1 h.1 with ⟨applied, happly⟩
  exact ⟨applied.className, gives_iff.2 ⟨applied, happly, rfl⟩⟩

end Assignment

namespace Namespace

variable {ns : Namespace} {options : Options} {key : String}

/-- Effects of assignments that do not decide a key are effects on other keys. -/
theorem key_ne_of_mem_appliedOf {assignments : List (Context × Assignment)}
    (h : ∀ item ∈ assignments, ¬ Assignment.Decides options key item) {a : Applied}
    (ha : a ∈ appliedOf options assignments) : a.key ≠ key := by
  rcases mem_appliedOf.1 ha with ⟨item, hitem, happly⟩
  intro hkey
  refine h item hitem ⟨(Assignment.rejected_eq_false_iff item.1).2 ⟨a, happly⟩, ?_⟩
  rw [← (Assignment.key_of_apply happly).1, hkey]

/-- The last assignment to a key that takes effect is what a lookup from the end finds. -/
theorem lookup_decided {before after : List (Context × Assignment)} {context : Context}
    {assignment : Assignment} {name : Option String}
    (hsplit : ns.assignments = before ++ (context, assignment) :: after)
    (hkey : assignment.keyIn context = key) (hgives : assignment.Gives options context name)
    (hlast : ∀ later ∈ after, ¬ Assignment.Decides options key later) :
    (ns.decided options).reverse.lookup key = some name := by
  rcases Assignment.gives_iff.1 hgives with ⟨a, happly, rfl⟩
  have happlied : ns.applied options = appliedOf options before ++ a :: appliedOf options after := by
    simp only [applied, hsplit, appliedOf, List.filterMap_append, List.filterMap_cons, happly]
  rw [decided, happlied, List.map_append, List.map_cons, List.reverse_append, List.reverse_cons,
    List.append_assoc, List.lookup_eq_some_iff]
  refine ⟨_, _, by rw [← hkey, ← (Assignment.key_of_apply happly).1]; rfl, ?_⟩
  -- What comes first from the end are the effects of the assignments behind it.
  intro entry hentry
  rcases List.mem_map.1 (List.mem_reverse.1 hentry) with ⟨later, hlater, rfl⟩
  exact bne_iff_ne.2 (key_ne_of_mem_appliedOf hlast hlater).symm

theorem lookup_decided_eq_none
    (h : ∀ item ∈ ns.assignments, ¬ Assignment.Decides options key item) :
    (ns.decided options).reverse.lookup key = none := by
  rw [List.lookup_eq_none_iff]
  intro entry hentry
  rcases List.mem_map.1 (List.mem_reverse.1 hentry) with ⟨a, ha, rfl⟩
  exact bne_iff_ne.2 (key_ne_of_mem_appliedOf h ha).symm

theorem mem_resetKeys_iff :
    key ∈ (ns.applied options).flatMap Applied.resetKeys ↔
      ∃ item ∈ ns.assignments, item.2.rejected options = false ∧
        key ∈ item.2.resetKeysIn item.1 := by
  rw [List.mem_flatMap]
  constructor
  · rintro ⟨a, ha, hkey⟩
    rcases mem_appliedOf.1 ha with ⟨item, hitem, happly⟩
    rw [(Assignment.key_of_apply happly).2] at hkey
    exact ⟨item, hitem, (Assignment.rejected_eq_false_iff item.1).2 ⟨a, happly⟩, hkey⟩
  · rintro ⟨item, hitem, hrejected, hkey⟩
    rcases (Assignment.rejected_eq_false_iff item.1).1 hrejected with ⟨a, happly⟩
    rw [← (Assignment.key_of_apply happly).2] at hkey
    exact ⟨a, mem_appliedOf.2 ⟨item, hitem, happly⟩, hkey⟩

/-- A compiled object says what its namespace says. -/
theorem Means.get?_compiled {said : Option (Option String)} (h : ns.Means options key said)
    (hdev : options.devMarkers = false) (file : Option String) :
    (ns.compiled options file).get? key = said := by
  rw [Namespace.get?_compiled hdev]
  cases h with
  | decided split key_eq gives last => rw [lookup_decided split key_eq gives last, Option.some_or]
  | overridden mem effective resets undecided =>
    rw [lookup_decided_eq_none undecided, Option.none_or,
      if_pos (mem_resetKeys_iff.2 ⟨_, mem, effective, resets⟩)]
  | unmentioned undecided unreset =>
    rw [lookup_decided_eq_none undecided, Option.none_or, if_neg]
    intro hmem
    rcases mem_resetKeys_iff.1 hmem with ⟨item, hitem, heffective, hkey⟩
    exact unreset item hitem heffective hkey

/-- A namespace says something of each key. -/
theorem exists_means (ns : Namespace) (options : Options) (key : String) :
    ∃ said, ns.Means options key said := by
  rcases forall_not_or_exists_last (Assignment.Decides options key) ns.assignments with
    hnone | ⟨before, ⟨context, assignment⟩, after, hsplit, hdecides, hlast⟩
  · by_cases hreset : ∃ item ∈ ns.assignments, item.2.rejected options = false ∧
      key ∈ item.2.resetKeysIn item.1
    · rcases hreset with ⟨item, hitem, heffective, hkey⟩
      exact ⟨_, .overridden hitem heffective hkey hnone⟩
    · exact ⟨_, .unmentioned hnone fun item hitem heffective hkey =>
        hreset ⟨item, hitem, heffective, hkey⟩⟩
  · rcases Assignment.exists_gives_of_decides hdecides with ⟨name, hgives⟩
    exact ⟨_, .decided hsplit hdecides.2 hgives hlast⟩

/-- An object mentions just what a namespace says of each key. -/
def Describes (ns : Namespace) (options : Options) (object : StyleObject) : Prop :=
  ∀ key said, object.get? key = said ↔ ns.Means options key said

theorem describes_compiled (ns : Namespace) (hdev : options.devMarkers = false)
    (file : Option String) : ns.Describes options (ns.compiled options file) := by
  intro key said
  constructor
  · rintro rfl
    rcases exists_means ns options key with ⟨said, h⟩
    rw [h.get?_compiled hdev file]
    exact h
  · intro h
    exact h.get?_compiled hdev file

/-- A namespace describes one object. -/
theorem Describes.unique {first second : StyleObject} (hfirst : ns.Describes options first)
    (hsecond : ns.Describes options second) : first = second := by
  refine StyleObject.ext_get? fun key => ?_
  rw [hfirst, ← hsecond]

/-- A class of an object that describes a namespace is that of a declaration of its key. -/
theorem Describes.exists_declares {object : StyleObject} (h : ns.Describes options object) {name : String}
    (hname : object.get? key = some (some name)) :
    ∃ item ∈ ns.assignments, ∃ d : Declaration, item.2.Declares options item.1 d ∧
      d.context.decorate (Property.styleKey d.property) = key ∧
      d.className options.classPrefix = name := by
  cases (h _ _).1 hname with
  | @decided before after context assignment _ split key_eq gives last =>
    have hmem : (context, assignment) ∈ ns.assignments := by
      rw [split]
      exact List.mem_append_right before List.mem_cons_self
    cases gives with
    | @declares _ d hd => exact ⟨_, hmem, d, hd, hd.key_eq.trans key_eq, rfl⟩

/-- An object that describes a namespace mentions the key of each assignment that takes effect, and
the keys that it resets. -/
theorem Describes.get?_ne_none {object : StyleObject} (h : ns.Describes options object)
    {item : Context × Assignment} (hitem : item ∈ ns.assignments)
    (heffective : item.2.rejected options = false)
    (hkey : item.2.keyIn item.1 = key ∨ key ∈ item.2.resetKeysIn item.1) :
    object.get? key ≠ none := by
  intro hnone
  cases (h key none).1 hnone with
  | unmentioned undecided unreset =>
    rcases hkey with hkey | hkey
    · exact undecided item hitem ⟨heffective, hkey⟩
    · exact unreset item hitem heffective hkey

end Namespace

/-- If markers are off, the object of a namespace that has been compiled, whatever was compiled
before it, is the one that the namespace describes. The objects of a sheet that has been compiled
are those that the namespaces describe that their names stand for. -/
theorem compiled_object_describes {options : Options} (hdev : options.devMarkers = false)
    (file : Option String) :
    (∀ (progress after : Progress) (ns : Namespace),
      progress.compile options file ns = .ok after →
        ∃ object, after.styles = progress.styles.insert ns.name object ∧
          ns.Describes options object) ∧
    ∀ (store : Store) (sheet : Sheet) (compiled : CompiledModule),
      (store.compile options file sheet).2 = .ok compiled →
        ∀ name object, compiled.styles.get? name = some object ↔
          ∃ ns, sheet.namespace? name = some ns ∧ ns.Describes options object := by
  constructor
  · intro progress after ns hok
    refine ⟨ns.compiled options file, ?_, ns.describes_compiled hdev file⟩
    rw [Progress.compile_eq] at hok
    split at hok
    · cases hok
      rfl
    · cases hok
  · intro store sheet compiled hok name object
    rcases compile_eq_ok_iff.1 hok with ⟨-, rfl⟩
    rw [Sheet.get?_styles_plan, Option.map_eq_some_iff]
    constructor
    · rintro ⟨ns, hns, rfl⟩
      exact ⟨ns, hns, ns.describes_compiled hdev file⟩
    · rintro ⟨ns, hns, hobject⟩
      exact ⟨ns, hns, (ns.describes_compiled hdev file).unique hobject⟩

/-- A namespace with a property in two spellings, a shorthand in a context, and a value beside it
that has no end. -/
def hovered : Namespace :=
  ⟨"hovered", [.single ⟨"marginTop", .value (.single (.text "4px"))⟩,
    .block (.pseudo ":hover") [⟨"gap", .value (.single (.text "8px"))⟩,
      ⟨"overflow", .value (.single (.text "calc(1px"))⟩],
    .single ⟨"margin-top", .reset⟩]⟩

/-- The second spelling decides the key of both, the shorthand resets what it overrides in its
context, and the value without an end resets nothing. -/
theorem compiled_object_describes_hovered :
    (∃ after object, (Progress.start ∅).compile {} none hovered = .ok after ∧
      after.styles = (∅ : KeyMap StyleObject).insert "hovered" object ∧
        hovered.Describes {} object) ∧
    ∃ compiled object, ((∅ : Store).compile {} none ⟨[hovered]⟩).2 = .ok compiled ∧
      compiled.styles.get? "hovered" = some object ∧ hovered.Describes {} object ∧
      object.get? "marginTop" = some none ∧
      object.get? ":hover_rowGap" = some none ∧
      object.get? ":hover_overflowX" = none := by
  have hdescribes := @compiled_object_describes {} rfl none
  constructor
  · have hok : ((Progress.start ∅).compile {} none hovered).isOk = true := by decide +kernel
    cases hafter : (Progress.start ∅).compile {} none hovered with
    | error halt =>
      rw [hafter] at hok
      cases hok
    | ok after =>
      rcases hdescribes.1 _ after hovered hafter with ⟨object, hstyles, hobject⟩
      exact ⟨after, object, rfl, hstyles, hobject⟩
  · have hok : ((∅ : Store).compile {} none ⟨[hovered]⟩).2 =
        .ok (Sheet.plan ⟨[hovered]⟩ {} none) :=
      compile_eq_ok_iff.2 ⟨by decide +kernel, rfl⟩
    have hget : (Sheet.plan ⟨[hovered]⟩ {} none).styles.get? "hovered" =
        some (hovered.compiled {} none) := by
      rw [Sheet.get?_styles_plan]
      rfl
    rcases (hdescribes.2 ∅ ⟨[hovered]⟩ _ hok "hovered" _).1 hget with ⟨ns, hns, hobject⟩
    cases hns
    exact ⟨_, _, hok, hget, hobject, by decide +kernel⟩

end AtomicCss
