import AtomicCss.Proofs.Compile.Authored
import AtomicCss.Proofs.Compile.Objects
import AtomicCss.Proofs.Compile.Plan
import AtomicCss.Proofs.Stylesheet.Repeats
import Mathlib.Logic.Relation
/-!
# The order of authoring

Moves rearrange a sheet: its namespaces, the entries of a namespace and the assignments of a block
come in another order, or a block is split in two or joined from two. A move permutes the
assignments of the sheet (`Sheet.Move.assignments_perm`), and if no key is assigned twice in a
namespace it leaves the objects as they are (`Sheet.Move.styles_plan_eq`). So compilations of
rearranged sheets end alike on any store (`compile_rearranged`).
-/

namespace AtomicCss

/-! ## Moves -/

/-- One change of the order of the entries of a namespace. -/
inductive Sheet.Entry.Move : List Sheet.Entry → List Sheet.Entry → Prop
  | entries {first second : List Sheet.Entry} (h : first.Perm second) : Move first second
  | assignments (before after : List Sheet.Entry) (context : Context)
      {first second : List Assignment} (h : first.Perm second) :
      Move (before ++ .block context first :: after) (before ++ .block context second :: after)
  | split (before after : List Sheet.Entry) (context : Context) (first second : List Assignment) :
      Move (before ++ .block context (first ++ second) :: after)
        (before ++ .block context first :: .block context second :: after)

/-- One change of the order of a sheet. -/
inductive Sheet.Move : Sheet → Sheet → Prop
  | namespaces {first second : List Namespace} (h : first.Perm second) : Move ⟨first⟩ ⟨second⟩
  | entries (before after : List Namespace) (name : String) {first second : List Sheet.Entry}
      (h : Sheet.Entry.Move first second) :
      Move ⟨before ++ ⟨name, first⟩ :: after⟩ ⟨before ++ ⟨name, second⟩ :: after⟩

/-- A sheet comes from another one by moves and their inverses, among which blocks are joined. -/
def Sheet.Rearranged : Sheet → Sheet → Prop :=
  Relation.EqvGen Sheet.Move

/-- No namespace is given twice, and in each of them no key is assigned twice. -/
structure Sheet.Unambiguous (sheet : Sheet) : Prop where
  names : (sheet.namespaces.map Namespace.name).Nodup
  keys : ∀ ns ∈ sheet.namespaces, (ns.assignments.map fun item => item.2.keyIn item.1).Nodup

/-- A sheet is unambiguous if its namespaces have different names and each of them decides no key
twice. -/
theorem Sheet.unambiguous_iff {sheet : Sheet} :
    sheet.Unambiguous ↔ (sheet.namespaces.map Namespace.name).Nodup ∧
      ∀ ns ∈ sheet.namespaces, (ns.assignments.map fun item => item.2.keyIn item.1).Nodup :=
  ⟨fun h => ⟨h.names, h.keys⟩, fun h => ⟨h.1, h.2⟩⟩

/-- Two compilations end alike: the store refuses an emission in both, or both leave one store, with
the same objects and rules, and with the same errors in some order. -/
inductive EndAlike : Store × Except IntegrityError CompiledModule →
    Store × Except IntegrityError CompiledModule → Prop
  | refused (first second : Store) (error other : IntegrityError) :
      EndAlike (first, .error error) (second, .error other)
  | compiled (store : Store) (styles : KeyMap StyleObject) (rules : List Rule)
      {errors others : List ValueError} (h : errors.Perm others) :
      EndAlike (store, .ok ⟨styles, rules, errors⟩) (store, .ok ⟨styles, rules, others⟩)

namespace EndAlike

variable {first second third : Store × Except IntegrityError CompiledModule}

theorem refl (result : Store × Except IntegrityError CompiledModule) : EndAlike result result := by
  rcases result with ⟨store, error | ⟨styles, rules, errors⟩⟩
  · exact refused store store error error
  · exact compiled store styles rules (.refl errors)

theorem symm (h : EndAlike first second) : EndAlike second first := by
  cases h with
  | refused first second error other => exact refused second first other error
  | compiled store styles rules h => exact compiled store styles rules h.symm

theorem trans (h : EndAlike first second) (h' : EndAlike second third) : EndAlike first third := by
  cases h with
  | refused first _ error _ =>
    cases h' with
    | refused _ second _ other => exact refused first second error other
  | compiled store styles rules h =>
    cases h' with
    | compiled _ _ _ h' => exact compiled store styles rules (h.trans h')

end EndAlike

/-! ## What a move keeps -/

/-- A move among the entries brings the same assignments in another order. -/
theorem Sheet.Entry.Move.assignments_perm {first second : List Sheet.Entry}
    (h : Sheet.Entry.Move first second) :
    (first.flatMap Sheet.Entry.assignments).Perm (second.flatMap Sheet.Entry.assignments) := by
  cases h with
  | entries h => exact h.flatMap_right _
  | assignments before after context h =>
    simp only [List.flatMap_append, List.flatMap_cons]
    exact ((h.map _).append_right _).append_left _
  | split before after context first second =>
    simp only [List.flatMap_append, List.flatMap_cons, Sheet.Entry.assignments, List.map_append,
      List.append_assoc]
    exact .refl _

namespace Namespace

variable {options : Options}

/-- The keys of effects are among the keys of assignments. -/
theorem map_key_appliedOf_sublist (assignments : List (Context × Assignment)) :
    ((appliedOf options assignments).map Applied.key).Sublist
      (assignments.map fun item => item.2.keyIn item.1) := by
  induction assignments with
  | nil => exact .refl _
  | cons item rest ih =>
    rcases item with ⟨context, assignment⟩
    cases happly : assignment.apply options context with
    | error error =>
      rw [appliedOf_cons_of_error happly]
      exact ih.cons _
    | ok applied =>
      rw [appliedOf_cons_of_ok happly, List.map_cons, List.map_cons,
        (Assignment.key_of_apply happly).1]
      exact ih.cons_cons _

/-- If no key is assigned twice, the order of the assignments does not show in the object. -/
theorem compiled_eq_of_perm {first second : Namespace}
    (hperm : first.assignments.Perm second.assignments) (hname : first.name = second.name)
    (hkeys : (first.assignments.map fun item => item.2.keyIn item.1).Nodup) (options : Options)
    (file : Option String) : first.compiled options file = second.compiled options file := by
  have happlied : (first.applied options).Perm (second.applied options) := hperm.filterMap _
  have hnodup : ((first.decided options).map Prod.fst).Nodup := by
    rw [decided, List.map_map]
    exact hkeys.sublist (map_key_appliedOf_sublist first.assignments)
  have hassigned : StyleObject.ofList (first.decided options) = .ofList (second.decided options) :=
    congrArg StyleObject.mk (KeyMap.ofList_perm (happlied.map _) hnodup)
  have hmarker : first.marker file = second.marker file := by
    simp only [marker, hname]
  -- Resets come in another order, but each key is looked up in the same ones.
  have hreset : ((first.applied options).flatMap Applied.resetKeys).foldl
        StyleObject.resetIfAbsent (.ofList (first.decided options)) =
      ((second.applied options).flatMap Applied.resetKeys).foldl
        StyleObject.resetIfAbsent (.ofList (second.decided options)) := by
    refine StyleObject.ext_get? fun key => ?_
    simp only [StyleObject.get?_foldl_resetIfAbsent, hassigned,
      (happlied.flatMap_right Applied.resetKeys).mem_iff]
  simp only [compiled, StyleObject.foldl_set_eq_ofList, hmarker]
  simp only [decided] at hreset
  rw [hreset]

end Namespace

namespace Sheet.Move

variable {first second : Sheet}

/-- A move brings the same assignments in another order. -/
theorem assignments_perm (h : Sheet.Move first second) :
    first.assignments.Perm second.assignments := by
  cases h with
  | namespaces h => exact h.flatMap_right _
  | entries before after name h =>
    simp only [Sheet.assignments, List.flatMap_append, List.flatMap_cons]
    exact (h.assignments_perm.append_right _).append_left _

/-- A move makes no key ambiguous. -/
theorem unambiguous_iff (h : Sheet.Move first second) :
    first.Unambiguous ↔ second.Unambiguous := by
  rw [Sheet.unambiguous_iff, Sheet.unambiguous_iff]
  cases h with
  | namespaces h => simp only [(h.map Namespace.name).nodup_iff, h.mem_iff]
  | @entries before after name entries others h =>
    have hkeys : ((entries.flatMap Sheet.Entry.assignments).map
          fun item => item.2.keyIn item.1).Nodup ↔
        ((others.flatMap Sheet.Entry.assignments).map fun item => item.2.keyIn item.1).Nodup :=
      (h.assignments_perm.map _).nodup_iff
    simp only [List.map_append, List.map_cons, List.forall_mem_append, List.forall_mem_cons,
      Namespace.assignments, hkeys]

/-- A move leaves the objects as they are, where no key is ambiguous. -/
theorem styles_plan_eq (h : Sheet.Move first second) (hfirst : first.Unambiguous)
    (options : Options) (file : Option String) :
    (first.plan options file).styles = (second.plan options file).styles := by
  cases h with
  | namespaces h =>
    -- No two namespaces have one name, so their order does not show.
    refine KeyMap.ofList_perm (h.map _) ?_
    rw [List.map_map]
    exact hfirst.names
  | @entries before after name entries others h =>
    have hperm : (⟨name, entries⟩ : Namespace).assignments.Perm
        (⟨name, others⟩ : Namespace).assignments := h.assignments_perm
    have hkeys := hfirst.keys ⟨name, entries⟩ (List.mem_append_right before List.mem_cons_self)
    -- The entries decide and reset the same keys, each of them once.
    have hcompiled : (⟨name, entries⟩ : Namespace).compiled options file =
        (⟨name, others⟩ : Namespace).compiled options file :=
      Namespace.compiled_eq_of_perm hperm rfl hkeys options file
    simp only [Sheet.plan, List.map_append, List.map_cons, hcompiled]

end Sheet.Move

/-- Sheets with the same assignments in some order and the same objects end alike. -/
theorem endAlike_of_perm {first second : Sheet} {options : Options} {file : Option String}
    (hperm : first.assignments.Perm second.assignments)
    (hstyles : (first.plan options file).styles = (second.plan options file).styles)
    (store : Store) :
    EndAlike (store.compile options file first) (store.compile options file second) := by
  have hemissions : (first.emissions options).Perm (second.emissions options) := by
    rw [Sheet.emissions_eq, Sheet.emissions_eq]
    exact (hperm.filterMap _).flatMap_right _
  rw [compile_eq_plan, compile_eq_plan]
  rcases hfirst : store.insertAll (first.emissions options) with ⟨after, error | ⟨⟩⟩ <;>
    rcases hsecond : store.insertAll (second.emissions options) with ⟨other, error' | ⟨⟩⟩
  · exact .refused after other error error'
  · -- The store would accept the emissions of the first sheet too.
    have hok := (Store.insertAll_perm hemissions.symm (congrArg Prod.snd hsecond)).1
    rw [hfirst] at hok
    cases hok
  · have hok := (Store.insertAll_perm hemissions (congrArg Prod.snd hfirst)).1
    rw [hsecond] at hok
    cases hok
  · -- Both are accepted: the stores agree, and only errors may come in another order.
    have hstore := (Store.insertAll_perm hemissions (congrArg Prod.snd hfirst)).2
    rw [hfirst, hsecond] at hstore
    cases hstore
    have hrules : (first.plan options file).rules = (second.plan options file).rules :=
      congrArg Stylesheet.rules (Stylesheet.ofRules_perm (hemissions.map _))
    have herrors : (first.plan options file).errors.Perm (second.plan options file).errors := by
      rw [Sheet.errors_plan, Sheet.errors_plan]
      exact hperm.filterMap _
    have hplan : second.plan options file = ⟨(first.plan options file).styles,
        (first.plan options file).rules, (second.plan options file).errors⟩ := by
      rw [hstyles, hrules]
    rw [hplan]
    exact .compiled after _ _ herrors

/-- Rearranged sheets are unambiguous together, and then compiling them ends alike. -/
theorem Sheet.Rearranged.endAlike {first second : Sheet} (h : Sheet.Rearranged first second)
    (options : Options) (file : Option String) (store : Store) :
    (first.Unambiguous ↔ second.Unambiguous) ∧ (first.Unambiguous →
      EndAlike (store.compile options file first) (store.compile options file second)) := by
  -- A move may be made backwards, so it has to be known of both sheets that they are unambiguous.
  induction h with
  | rel first second h =>
    refine ⟨h.unambiguous_iff, fun hfirst => ?_⟩
    exact endAlike_of_perm h.assignments_perm (h.styles_plan_eq hfirst options file) store
  | refl sheet => exact ⟨.rfl, fun _ => .refl _⟩
  | symm first second _ ih =>
    exact ⟨ih.1.symm, fun hsecond => (ih.2 (ih.1.2 hsecond)).symm⟩
  | trans first second third _ _ ih ih' =>
    exact ⟨ih.1.trans ih'.1, fun hfirst => (ih.2 hfirst).trans (ih'.2 (ih.1.1 hfirst))⟩

/-- The order of authoring does not matter where no key is assigned twice: rearranged sheets end
alike on any store. -/
theorem compile_rearranged {first second : Sheet} (h : Sheet.Rearranged first second)
    (hfirst : first.Unambiguous) (store : Store) (options : Options) (file : Option String) :
    EndAlike (store.compile options file first) (store.compile options file second) :=
  (h.endAlike options file store).2 hfirst

namespace Rearranged

def color : Assignment := ⟨"color", .value (.single (.text "red"))⟩
def gap : Assignment := ⟨"gap", .value (.single (.text "8px"))⟩
def unclosed : Assignment := ⟨"margin", .value (.single (.text "calc(1px"))⟩

/-- Two namespaces, one of them with a block whose last value has no end. -/
def listed : Sheet :=
  ⟨[⟨"card", [.block (.pseudo ":hover") [color, unclosed], .single gap]⟩, ⟨"link", [.single color]⟩]⟩

/-- The same with the namespaces, the entries and the block in reverse order, and the block split. -/
def shuffled : Sheet :=
  ⟨[⟨"link", [.single color]⟩, ⟨"card", [.single gap, .block (.pseudo ":hover") [unclosed],
    .block (.pseudo ":hover") [color]]⟩]⟩

theorem rearranged : Sheet.Rearranged listed shuffled :=
  .trans _ _ _ (.rel _ _ (.namespaces (.swap _ _ _))) <|
  .trans _ _ _ (.rel _ _ (.entries [⟨"link", [.single color]⟩] [] "card"
    (.entries (.swap _ _ _)))) <|
  .trans _ _ _ (.rel _ _ (.entries [⟨"link", [.single color]⟩] [] "card"
    (.assignments [.single gap] [] (.pseudo ":hover") (.swap _ _ _)))) <|
  .rel _ _ (.entries [⟨"link", [.single color]⟩] [] "card"
    (.split [.single gap] [] (.pseudo ":hover") [unclosed] [color]))

end Rearranged

/-- The shuffled sheet styles the same, and leaves out the same value. -/
theorem compile_rearranged_shuffled :
    Sheet.Rearranged Rearranged.listed Rearranged.shuffled ∧ Rearranged.listed.Unambiguous ∧
      EndAlike ((∅ : Store).compile {} none Rearranged.listed)
        ((∅ : Store).compile {} none Rearranged.shuffled) ∧
      ∃ compiled, ((∅ : Store).compile {} none Rearranged.shuffled).2 = .ok compiled ∧
        (compiled.styles.get? "card").bind (·.get? ":hover_color") = some (some "xe7s5gk") ∧
        compiled.errors = [.unclosedFunction "margin" "calc(1px"] ∧
        ∃ rule ∈ compiled.rules, rule.text = ".xe7s5gk:hover\x7bcolor:red\x7d" := by
  have hlisted : Rearranged.listed.Unambiguous := ⟨by decide +kernel, by decide +kernel⟩
  have hcompiled : ((∅ : Store).compile {} none Rearranged.shuffled).2 =
      .ok (Rearranged.shuffled.plan {} none) := compile_eq_ok_iff.2 ⟨by decide +kernel, rfl⟩
  have hrule : ∃ rule ∈ (Rearranged.shuffled.plan {} none).rules,
      rule.text = ".xe7s5gk:hover\x7bcolor:red\x7d" :=
    Stylesheet.exists_text_ofRules_iff.2 (by decide +kernel)
  exact ⟨Rearranged.rearranged, hlisted, compile_rearranged Rearranged.rearranged hlisted ∅ {} none,
    _, hcompiled, by decide +kernel, by decide +kernel, hrule⟩

end AtomicCss
