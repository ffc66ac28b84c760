import AtomicCss.Proofs.Build.Emitted
import AtomicCss.Proofs.Declaration.Identity
import AtomicCss.Proofs.Property.Resets
import AtomicCss.Proofs.Stylesheet.Repeats
/-!
# Positions in the cascade

Some things come in front of others whatever their texts are: keyframes, kinds of contexts in their
order, and a property in front of what it resets (`Origin.Precedes`). The buckets of priorities never
overlap, so that all of these have a lower priority (`Precedes.priority_lt`), and `cascade_positions`
states what follows for the stylesheet of a build.
-/

namespace AtomicCss

namespace Origin

/-- An origin comes in front of another one, whatever else they say. -/
inductive Precedes : Origin → Origin → Prop where
  | keyframes (block : Keyframes.Block) (d : Declaration) :
      Precedes (.keyframes block) (.declaration d)
  | pseudo {d e : Declaration} {selector : String} (hd : d.context = .plain)
      (he : e.context = .pseudo selector) : Precedes (.declaration d) (.declaration e)
  | atRule {d e : Declaration} {condition : String} (hd : ∀ other, d.context ≠ .atRule other)
      (he : e.context = .atRule condition) : Precedes (.declaration d) (.declaration e)
  | reset {d e : Declaration} (hcontext : d.context = e.context)
      (hreset : e.property ∈ Property.resets d.property) :
      Precedes (.declaration d) (.declaration e)

/-- Declarations have the priorities of their kinds of contexts, and then of their contexts. -/
theorem priority_lt_of_kind_lt {d e : Declaration}
    (h : Priority.kind d.context < Priority.kind e.context) : d.priority < e.priority := by
  have hd : d.priority / 1000 = Priority.kind d.context := Priority.classify_div d.property d.context
  have he : e.priority / 1000 = Priority.kind e.context := Priority.classify_div e.property e.context
  omega

theorem Precedes.priority_lt {first second : Origin} (h : first.Precedes second)
    (mark mark' : String) : (first.rule mark).priority < (second.rule mark').priority := by
  -- The kinds of contexts decide, but for a reset, where the ranks of the properties do.
  cases h with
  | keyframes block d =>
    have hkind : d.priority / 1000 = Priority.kind d.context :=
      Priority.classify_div d.property d.context
    have hpos : 0 < Priority.kind d.context := by
      cases d.context <;> simp [Priority.kind]
    show 0 < d.priority
    omega
  | pseudo hd he =>
    refine priority_lt_of_kind_lt ?_
    simp [hd, he, Priority.kind]
  | @atRule d e condition hd he =>
    refine priority_lt_of_kind_lt ?_
    rw [he]
    cases hcontext : d.context with
    | plain => simp [Priority.kind]
    | pseudo selector => simp [Priority.kind]
    | atRule other => exact absurd hcontext (hd other)
  | @reset d e hcontext hreset =>
    have hrank := Property.ofProperty_lt_of_mem_resets hreset
    show Priority.classify d.property d.context < Priority.classify e.property e.context
    rw [Priority.classify, Priority.classify, hcontext]
    omega

end Origin

/-- What a build has emitted has its rule among those of the store. -/
theorem Build.Emits.mem_rules {steps : List Build.Step} {origin : Origin} {mark : String}
    (h : Build.Emits steps origin mark) : origin.rule mark ∈ (Build.run steps).rules := by
  have hheld : (Build.run steps).Holds (origin.emission mark) :=
    Store.holds_emission_iff.2 (Build.get?_run_iff.2 ⟨origin, mark, h, rfl, rfl⟩)
  rw [Origin.rule, ← Origin.emission_atomic]
  exact hheld.mem_rules

/-- The stylesheet of a build has the text of each rule that was emitted. Keyframes stand in front
of all declarations in it, plain declarations in front of those of pseudo selectors, and both in
front of those of at-rules; in one context a declaration stands in front of those that its property
resets. -/
theorem cascade_positions (steps : List Build.Step) :
    let sheet := (Build.run steps).stylesheet
    (∀ origin mark, Build.Emits steps origin mark →
      sheet.contains (origin.rule mark).text = true) ∧
    ∀ first second mark mark', Build.Emits steps first mark → Build.Emits steps second mark' →
      first.Precedes second →
        ∀ i j : Nat, sheet.rules[i]? = some (first.rule mark) →
          sheet.rules[j]? = some (second.rule mark') → i < j := by
  intro sheet
  refine ⟨?_, ?_⟩
  · intro origin mark hemits
    rcases Stylesheet.exists_text_ofRules_iff.2 ⟨_, hemits.mem_rules, rfl⟩ with
      ⟨rule, hmem, htext⟩
    refine List.any_eq_true.2 ⟨rule, hmem, ?_⟩
    rw [htext, beq_self_eq_true]
  · intro first second mark mark' _ _ hprecedes i j hi hj
    exact Stylesheet.lt_of_priority_lt hi hj (hprecedes.priority_lt mark mark')

/-- A shorthand behind one mark, a longhand of it behind another one, and a media query. -/
theorem cascade_positions_margin :
    let margin : Declaration := ⟨"margin", ⟨["0"]⟩, .pseudo ":hover"⟩
    let side : Declaration := ⟨"margin-left", ⟨["1px"]⟩, .pseudo ":hover"⟩
    let print : Declaration := ⟨"all", ⟨["unset"]⟩, .atRule "@media print"⟩
    let steps : List Build.Step := [.emit print "x", .emit side "y", .emit margin "x"]
    let sheet := (Build.run steps).stylesheet
    sheet.contains (margin.ruleText (margin.className "x")) = true ∧
      (∃ i j : Nat, sheet.rules[i]? = some (margin.toAtomic "x").rule ∧
        sheet.rules[j]? = some (side.toAtomic "y").rule ∧ i < j) ∧
      ∃ i j : Nat, sheet.rules[i]? = some (side.toAtomic "y").rule ∧
        sheet.rules[j]? = some (print.toAtomic "x").rule ∧ i < j := by
  intro margin side print steps sheet
  have hmargin : Build.Emits steps (.declaration margin) "x" :=
    ⟨[.emit print "x", .emit side "y"], _, [], rfl, .emit margin "x", by decide +kernel⟩
  have hside : Build.Emits steps (.declaration side) "y" :=
    ⟨[.emit print "x"], _, [.emit margin "x"], rfl, .emit side "y", by decide +kernel⟩
  have hprint : Build.Emits steps (.declaration print) "x" :=
    ⟨[], _, [.emit side "y", .emit margin "x"], rfl, .emit print "x", by decide +kernel⟩
  have hreset : Origin.Precedes (.declaration margin) (.declaration side) :=
    .reset rfl (by decide +kernel)
  have hcondition : Origin.Precedes (.declaration side) (.declaration print) :=
    .atRule (by simp [side]) rfl
  -- The store lists rules by the names of their classes, the stylesheet by priority.
  let sorted := [(margin.toAtomic "x").rule, (side.toAtomic "y").rule, (print.toAtomic "x").rule]
  have hrules : (Build.run steps).rules.Perm sorted := by decide +kernel
  have hsheet : sheet.rules = sorted := by
    refine (congrArg Stylesheet.rules (Stylesheet.ofRules_eq_of_sorted hrules ?_)).trans ?_
    · decide +kernel
    · decide +kernel
  have hfirst : sheet.rules[0]? = some (margin.toAtomic "x").rule := by rw [hsheet]; rfl
  have hsecond : sheet.rules[1]? = some (side.toAtomic "y").rule := by rw [hsheet]; rfl
  have hthird : sheet.rules[2]? = some (print.toAtomic "x").rule := by rw [hsheet]; rfl
  rcases cascade_positions steps with ⟨hcontains, hpositions⟩
  refine ⟨hcontains _ _ hmargin, ⟨0, 1, hfirst, hsecond, ?_⟩, ⟨1, 2, hsecond, hthird, ?_⟩⟩
  · exact hpositions _ _ _ _ hmargin hside hreset 0 1 hfirst hsecond
  · exact hpositions _ _ _ _ hside hprint hcondition 1 2 hsecond hthird

end AtomicCss
