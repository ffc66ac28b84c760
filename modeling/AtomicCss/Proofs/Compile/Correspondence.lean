import AtomicCss.Proofs.Compile.Meaning
import AtomicCss.Proofs.Stylesheet.Repeats
/-!
# Objects, rules and the store

A class of a compiled object, a rule of the module and a class of the store are three traces of one
declaration. Every declaration that the assignments of a sheet make is served by the module and the
store (`Sheet.serves`), and a module has no other rules (`Sheet.exists_origin`).
`objects_rules_store_correspond` adds that each class of an object belongs to such a declaration.
-/

namespace AtomicCss

/-- A module and a store have what the declaration of an assignment is styled by: its rule, its
class, and the rule of the keyframes that its value names. -/
structure CompiledModule.Serves (compiled : CompiledModule) (store : Store) (options : Options)
    (assignment : Assignment) (d : Declaration) : Prop where
  rule : ∃ rule ∈ compiled.rules, rule.text = d.ruleText (d.className options.classPrefix)
  stored : store.get? (d.className options.classPrefix) = some (d.toAtomic options.classPrefix)
  keyframes : ∀ block, assignment.Defines options block →
    d.value = ⟨[block.name options.classPrefix]⟩ ∧
      (block.toAtomic options.classPrefix).rule ∈ compiled.rules

namespace Assignment

variable {options : Options} {context : Context} {assignment : Assignment}

/-- The value of an assignment that defines a block is the name of the block. -/
theorem Declares.value_eq {d : Declaration} (h : assignment.Declares options context d)
    {block : Keyframes.Block} (hblock : assignment.Defines options block) :
    d.value = ⟨[block.name options.classPrefix]⟩ := by
  cases hblock with
  | keyframes hblock => rw [h.unique (.keyframes hblock)]

end Assignment

namespace Sheet

variable {sheet : Sheet} {options : Options}

theorem mem_of_namespace? {name : String} {ns : Namespace} (h : sheet.namespace? name = some ns) :
    ns ∈ sheet.namespaces := by
  rw [namespace?, List.findRev?_eq_find?_reverse] at h
  exact List.mem_reverse.1 (List.mem_of_find?_eq_some h)

/-- Every declaration that a sheet makes is served if its emissions are accepted. -/
theorem serves {store : Store} (hok : (store.insertAll (sheet.emissions options)).2 = .ok ())
    (file : Option String) {item : Context × Assignment} (hitem : item ∈ sheet.assignments)
    {d : Declaration} (hd : item.2.Declares options item.1 d) :
    (sheet.plan options file).Serves (store.insertAll (sheet.emissions options)).1 options item.2
      d := by
  have hemission : d.emission options.classPrefix ∈ sheet.emissions options :=
    mem_emissions_iff.2 ⟨item, hitem, .inr ⟨d, hd, rfl⟩⟩
  constructor
  · exact Stylesheet.exists_text_emissions_iff.2 ⟨_, hemission, rfl⟩
  · have hheld := Store.holds_of_insertAll hok hemission
    rw [Store.Holds] at hheld
    exact congrArg (Option.map (·.atomic)) hheld
  · -- Blocks have priority zero, so that their rules are never dropped.
    intro block hblock
    have hblockEmission : block.emission options.classPrefix ∈ sheet.emissions options :=
      mem_emissions_iff.2 ⟨item, hitem, .inl ⟨block, hblock, rfl⟩⟩
    refine ⟨hd.value_eq hblock, ?_⟩
    exact Stylesheet.mem_ofRules_of_priority_eq_zero (List.mem_map_of_mem hblockEmission) rfl

/-- A rule of the plan is that of a declaration or of a block of the sheet. -/
theorem exists_origin {file : Option String} {rule : Rule}
    (h : rule ∈ (sheet.plan options file).rules) :
    ∃ item ∈ sheet.assignments,
      (∃ block, item.2.Defines options block ∧
        rule = (block.toAtomic options.classPrefix).rule) ∨
      ∃ d, item.2.Declares options item.1 d ∧ rule = (d.toAtomic options.classPrefix).rule := by
  rcases List.mem_map.1 (Stylesheet.mem_of_mem_ofRules h) with ⟨emission, hemission, rfl⟩
  rcases mem_emissions_iff.1 hemission with ⟨item, hitem, ⟨block, hblock, rfl⟩ | ⟨d, hd, rfl⟩⟩
  · exact ⟨item, hitem, .inl ⟨block, hblock, rfl⟩⟩
  · exact ⟨item, hitem, .inr ⟨d, hd, rfl⟩⟩

end Sheet

/-- If markers are off and a sheet has been compiled, each class of an object of the module is that
of a declaration that the namespace of the object makes, for the key that has the class. All
declarations of the sheet are served by the module and the store, and all rules of the module are
those of its declarations and its keyframes. -/
theorem objects_rules_store_correspond {store : Store} {options : Options}
    (hdev : options.devMarkers = false) {file : Option String} {sheet : Sheet}
    {compiled : CompiledModule} (hok : (store.compile options file sheet).2 = .ok compiled) :
    (∀ name object, compiled.styles.get? name = some object →
      ∀ key className, object.get? key = some (some className) →
        ∃ ns, sheet.namespace? name = some ns ∧ ∃ item ∈ ns.assignments, ∃ d : Declaration,
          item.2.Declares options item.1 d ∧
          d.context.decorate (Property.styleKey d.property) = key ∧
          d.className options.classPrefix = className ∧
          compiled.Serves (store.compile options file sheet).1 options item.2 d) ∧
    (∀ item ∈ sheet.assignments, ∀ d, item.2.Declares options item.1 d →
      compiled.Serves (store.compile options file sheet).1 options item.2 d) ∧
    ∀ rule ∈ compiled.rules, ∃ item ∈ sheet.assignments,
      (∃ block, item.2.Defines options block ∧
        rule = (block.toAtomic options.classPrefix).rule) ∨
      ∃ d, item.2.Declares options item.1 d ∧ rule = (d.toAtomic options.classPrefix).rule := by
  rcases compile_eq_ok_iff.1 hok with ⟨hinsert, rfl⟩
  rw [compile_store]
  refine ⟨?_, fun item hitem d hd => Sheet.serves hinsert file hitem hd,
    fun rule hrule => Sheet.exists_origin hrule⟩
  intro name object hobject key className hname
  rw [Sheet.get?_styles_plan, Option.map_eq_some_iff] at hobject
  rcases hobject with ⟨ns, hns, rfl⟩
  rcases (ns.describes_compiled hdev file).exists_declares hname with
    ⟨item, hitem, d, hd, hkey, hclass⟩
  have hmem : item ∈ sheet.assignments :=
    List.mem_flatMap.2 ⟨ns, Sheet.mem_of_namespace? hns, hitem⟩
  exact ⟨ns, hns, item, hitem, d, hd, hkey, hclass, Sheet.serves hinsert file hmem hd⟩

def fade : Keyframes :=
  ⟨[⟨"to", [("opacity", .single (.text "0"))]⟩]⟩

/-- A namespace that animates in a context, and decides a color twice. -/
def animated : Namespace :=
  ⟨"animated", [.single ⟨"color", .value (.single (.text "red"))⟩,
    .block (.pseudo ":hover") [⟨"animationName", .keyframes fade⟩],
    .single ⟨"color", .value (.single (.text "blue"))⟩]⟩

/-- The class in the context is that of a declaration, and the rule of the keyframes is there. So is
a rule for the color that was overwritten, which an assignment is the origin of. -/
theorem objects_rules_store_correspond_animated :
    let sheet : Sheet := ⟨[animated]⟩
    let result := (∅ : Store).compile {} none sheet
    ∃ compiled block, result.2 = .ok compiled ∧ fade.normalize {} = .ok block ∧
      (∃ item ∈ animated.assignments, ∃ d : Declaration, item.2.Declares {} item.1 d ∧
        d.context.decorate (Property.styleKey d.property) = ":hover_animationName" ∧
        d.className "x" = "xepbt95" ∧ compiled.Serves result.1 {} item.2 d) ∧
      (block.toAtomic "x").rule ∈ compiled.rules ∧
      ∃ rule ∈ compiled.rules, rule.text = ".xrgi7wg\x7bcolor:red\x7d" ∧
        ∃ item ∈ sheet.assignments,
          (∃ block, item.2.Defines {} block ∧ rule = (block.toAtomic "x").rule) ∨
          ∃ d, item.2.Declares {} item.1 d ∧ rule = (d.toAtomic "x").rule := by
  intro sheet result
  have hok : result.2 = .ok (sheet.plan {} none) :=
    compile_eq_ok_iff.2 ⟨by decide +kernel, rfl⟩
  have hget : (sheet.plan {} none).styles.get? "animated" = some (animated.compiled {} none) := by
    rw [Sheet.get?_styles_plan]
    rfl
  have hclass : (animated.compiled {} none).get? ":hover_animationName" =
      some (some "xepbt95") := by
    decide +kernel
  have hred : normalize {} "color" (.single (.text "red")) = .ok ⟨["red"]⟩ := by decide +kernel
  have hfade : (fade.normalize {}).isOk = true := by decide +kernel
  cases hblock : fade.normalize {} with
  | error error =>
    rw [hblock] at hfade
    cases hfade
  | ok block =>
    rcases objects_rules_store_correspond rfl hok with ⟨hclasses, hserves, horigins⟩
    rcases hclasses _ _ hget _ _ hclass with ⟨ns, hns, hdeclared⟩
    cases hns
    -- The assignments of the keyframes and of the first color, each with its declaration.
    have hanimation := hserves (.pseudo ":hover", ⟨"animationName", .keyframes fade⟩)
      (by decide) _ (.keyframes hblock)
    have hcolor := hserves (.plain, ⟨"color", .value (.single (.text "red"))⟩) (by decide) _
      (.value hred)
    rcases hcolor.rule with ⟨rule, hrule, htext⟩
    exact ⟨_, block, hok, rfl, hdeclared, (hanimation.keyframes block (.keyframes hblock)).2, rule,
      hrule, htext.trans (by decide +kernel), horigins rule hrule⟩

end AtomicCss
