import AtomicCss.Proofs.Build.Held
import AtomicCss.Proofs.Merge.Meaning
/-!
# Whether the last style wins

When two compiled objects are merged, a property of the second one should win over all that the
first one says about its longhands. The keys that the second object resets see to it for longhands,
and the ranks of properties for shorthands that cover the property. Neither does for a property that
crosses it: the texts of the rules decide, and so the names of the classes. `last_style_wins_iff`
states this as an exact condition.
-/

namespace AtomicCss

/-- The contest for a longhand between two objects of a build that are merged. -/
def Build.contest (steps : List Build.Step) (options : Options) (first second : StyleObject)
    (context : Context) (longhand : String) : Contest where
  store := run steps
  mark := options.classPrefix
  classes := (merge [.style first, .style second]).classes
  context
  longhand

theorem StyleObject.mem_classNames {object : StyleObject} {name : String} :
    name ∈ object.classNames ↔ ∃ key, object.get? key = some (some name) := by
  rw [classNames, List.mem_filterMap]
  constructor
  · rintro ⟨value, hvalue, hname⟩
    rcases KeyMap.mem_values_iff.1 hvalue with ⟨key, hkey⟩
    exact ⟨key, hkey.trans (congrArg some hname)⟩
  · rintro ⟨key, hkey⟩
    exact ⟨some name, KeyMap.mem_values_iff.2 ⟨key, hkey⟩, rfl⟩

/-- A class of a merge of two objects is one of the second, or one of the first under a key that the
second does not mention. -/
theorem mem_merge_pair {first second : StyleObject} {name : String} :
    name ∈ (merge [.style first, .style second]).classes ↔
      name ∈ second.classNames ∨
        ∃ key, second.get? key = none ∧ first.get? key = some (some name) := by
  have hstyles : MergeInput.stylesOf [.style first, .style second] = [first, second] := rfl
  rw [mem_merge_classes, hstyles, StyleObject.mem_classNames]
  simp only [Meaning.winner?_pair, Option.or_eq_some_iff]
  constructor
  · rintro ⟨key, hsecond | hfirst⟩
    · exact .inl ⟨key, hsecond⟩
    · exact .inr ⟨key, hfirst⟩
  · rintro (⟨key, hsecond⟩ | ⟨key, hfirst⟩)
    · exact ⟨key, .inl hsecond⟩
    · exact ⟨key, .inr hfirst⟩

namespace Build

variable {steps : List Step} {options : Options} {first second : StyleObject}

/-- A compiled object does not hold the class of a declaration whose key it does not mention. -/
theorem Compiles.notMem_classNames (h : Compiles steps options second)
    (hdev : options.devMarkers = false) {d : Declaration}
    (hheld : (run steps).Holds (d.emission options.classPrefix)) (hkey : second.get? d.key = none) :
    d.className options.classPrefix ∉ second.classNames := by
  intro hmem
  rcases StyleObject.mem_classNames.1 hmem with ⟨key, hget⟩
  rcases h.exists_declaration hdev hget with ⟨e, hname, rfl, heheld, -⟩
  rcases heheld.key_eq hheld hname with ⟨-, -, hkeys⟩
  rw [hkeys, hkey] at hget
  cases hget

/-- A class of the merge that the second object does not hold has a key that it does not mention. -/
theorem Compiles.get?_key_eq_none (h : Compiles steps options first)
    (hdev : options.devMarkers = false) {d : Declaration}
    (hheld : (run steps).Holds (d.emission options.classPrefix))
    (hmem : d.className options.classPrefix ∈ (merge [.style first, .style second]).classes)
    (hsecond : d.className options.classPrefix ∉ second.classNames) : second.get? d.key = none := by
  rcases mem_merge_pair.1 hmem with hclass | ⟨key, hnone, hget⟩
  · exact absurd hclass hsecond
  · rcases h.exists_declaration hdev hget with ⟨e, hname, rfl, heheld, -⟩
    rcases heheld.key_eq hheld hname with ⟨-, -, hkeys⟩
    rw [← hkeys]
    exact hnone

/-- What the second object gives a class covers nothing whose key the object does not mention. -/
theorem Compiles.not_covers (h : Compiles steps options second) (hdev : options.devMarkers = false)
    {given d : Declaration} (hgiven : (run steps).Holds (given.emission options.classPrefix))
    (hget : second.get? given.key = some (some (given.className options.classPrefix)))
    (hcontext : d.context = given.context) (hkey : second.get? d.key = none) :
    ¬ Property.Covers given.property d.property := by
  intro hcovers
  rcases h.exists_declaration hdev hget with ⟨e, hname, -, heheld, hmentions⟩
  rcases heheld.key_eq hgiven hname with ⟨hcontexts, hproperties, -⟩
  rw [hcontexts, hproperties, ← hcontext] at hmentions
  exact hmentions d.property hcovers hkey

end Build

/-- A winner does not cover another declaration of the contest, unless both have one class. -/
theorem Contest.Wins.not_covers {contest : Contest} {rule : Rule} {d e : Declaration}
    (hd : contest.Wins rule d) (he : contest.Enters e)
    (hname : d.className contest.mark ≠ e.className contest.mark)
    (hne : d.property ≠ e.property) : ¬ Property.Covers d.property e.property := by
  intro hcovers
  -- A property that is covered has the higher rank.
  have hrank := Property.ofProperty_lt_of_covers hcovers hne
  have hcontext : d.context = e.context := hd.places.enters.context_eq.trans he.context_eq.symm
  have hpriority : (d.rule contest.mark).priority < (e.rule contest.mark).priority := by
    show Priority.classify d.property d.context < Priority.classify e.property e.context
    rw [Priority.classify, Priority.classify, hcontext]
    omega
  exact hname (hd.className_eq he (Rule.le_of_priority_lt hpriority))

/-- The last style wins, unless a property crosses. Two objects of a build are merged, and the
second one gives a class to a property that covers a longhand. Then some declaration wins the
contest for the longhand. It is one of the second object, except when a declaration of the first one
crosses the property, with which it shares its priority, is not mentioned in the second one, and has
a rule behind all rules of the second one. -/
theorem last_style_wins_iff {steps : List Build.Step} {options : Options}
    (hdev : options.devMarkers = false) {first second : StyleObject}
    (hfirst : Build.Compiles steps options first)
    (hsecond : Build.Compiles steps options second) {given : Declaration}
    (hgiven : (Build.run steps).Holds (given.emission options.classPrefix))
    (hget : second.get? given.key = some (some (given.className options.classPrefix)))
    {longhand : String} (hcovers : Property.Covers given.property longhand) :
    let contest := Build.contest steps options first second given.context longhand
    (∃ rule winner, contest.Wins rule winner) ∧
      ∀ rule winner, contest.Wins rule winner →
        (winner.className options.classPrefix ∈ second.classNames ↔
          ¬ ∃ other, contest.Enters other ∧ Property.Crosses given.property other.property ∧
            other.priority = given.priority ∧ second.get? other.key = none ∧
            ∀ own, contest.Enters own → own.className options.classPrefix ∈ second.classNames →
              (own.rule options.classPrefix).le (other.rule options.classPrefix) = true) := by
  intro contest
  have hname : given.className options.classPrefix ∈ second.classNames :=
    StyleObject.mem_classNames.2 ⟨given.key, hget⟩
  have henters : contest.Enters given :=
    ⟨hgiven, mem_merge_pair.2 (.inl hname), rfl, hcovers⟩
  refine ⟨Contest.exists_wins henters, ?_⟩
  intro rule winner hwins
  have hwinner : contest.Enters winner := hwins.places.enters
  constructor
  · -- A declaration behind all of the second object has the class of the winner.
    rintro hheld ⟨other, hother, -, -, hkey, hbehind⟩
    have heq : winner.className options.classPrefix = other.className options.classPrefix :=
      hwins.className_eq hother (hbehind winner hwinner hheld)
    exact hsecond.notMem_classNames hdev hother.held hkey (heq ▸ hheld)
  · -- A winner of the first object crosses the property.
    intro hnone
    by_contra hlost
    have hkey : second.get? winner.key = none :=
      hfirst.get?_key_eq_none hdev hwinner.held hwinner.listed hlost
    have hcontext : winner.context = given.context := hwinner.context_eq
    have hnotcovers : ¬ Property.Covers given.property winner.property :=
      hsecond.not_covers hdev hgiven hget hcontext hkey
    have hproperty : winner.property ≠ given.property :=
      fun heq => hnotcovers (heq ▸ .refl given.property)
    have hdiffers : ∀ own : Declaration, own.className options.classPrefix ∈ second.classNames →
        winner.className options.classPrefix ≠ own.className options.classPrefix :=
      fun own hown heq => hlost (heq ▸ hown)
    have hnotcovered : ¬ Property.Covers winner.property given.property :=
      hwins.not_covers henters (hdiffers given hname) hproperty
    have hcrosses : Property.Crosses given.property winner.property :=
      ⟨⟨longhand, hcovers, hwinner.covers⟩, hnotcovers, hnotcovered⟩
    have hpriority : winner.priority = given.priority := by
      rw [Declaration.priority, Declaration.priority, Priority.classify, Priority.classify,
        hcontext, hcrosses.ofProperty_eq]
    refine hnone ⟨winner, hwinner, hcrosses, hpriority, hkey, ?_⟩
    intro own hown hmem
    rcases Rule.le_total (own.rule options.classPrefix) (winner.rule options.classPrefix)
      with hle | hle
    · exact hle
    · exact absurd (hwins.className_eq hown hle) (hdiffers own hmem)

/-! ## A lost style -/

namespace Crossed

/-- A border on one side. -/
def side : Namespace :=
  ⟨"side", [.single ⟨"borderTop", .value (.single (.text "1px solid red"))⟩]⟩

/-- The width of the border on all sides. -/
def width : Namespace :=
  ⟨"width", [.single ⟨"borderWidth", .value (.single (.text "2px"))⟩]⟩

def steps : List Build.Step :=
  [.compile ⟨{}, none, ⟨[side]⟩⟩, .compile ⟨{}, none, ⟨[width]⟩⟩]

def sideBorder : Declaration := ⟨"border-top", ⟨["1px solid red"]⟩, .plain⟩

def borderWidth : Declaration := ⟨"border-width", ⟨["2px"]⟩, .plain⟩

theorem compiles_side : Build.Compiles steps {} (side.compiled {} none) :=
  ⟨[], ⟨{}, none, ⟨[side]⟩⟩, [.compile ⟨{}, none, ⟨[width]⟩⟩], Sheet.plan ⟨[side]⟩ {} none, "side",
    rfl, rfl, compile_eq_ok_iff.2 ⟨by decide +kernel, rfl⟩, by decide +kernel⟩

theorem compiles_width : Build.Compiles steps {} (width.compiled {} none) :=
  ⟨[.compile ⟨{}, none, ⟨[side]⟩⟩], ⟨{}, none, ⟨[width]⟩⟩, [], Sheet.plan ⟨[width]⟩ {} none,
    "width", rfl, rfl, compile_eq_ok_iff.2 ⟨by decide +kernel, rfl⟩, by decide +kernel⟩

theorem holds_sideBorder : (Build.run steps).Holds (sideBorder.emission "x") := by
  rw [Store.Holds]
  decide +kernel

theorem holds_borderWidth : (Build.run steps).Holds (borderWidth.emission "x") := by
  rw [Store.Holds]
  decide +kernel

end Crossed

/-- The width of all borders is merged last and loses on the top against the border of this side. -/
theorem last_style_wins_iff_border :
    let contest := Build.contest Crossed.steps {} (Crossed.side.compiled {} none)
      (Crossed.width.compiled {} none) .plain "border-top-width"
    ∃ rule winner, contest.Wins rule winner ∧
      winner.className "x" ∉ (Crossed.width.compiled {} none).classNames := by
  intro contest
  have hget : (Crossed.width.compiled {} none).get? Crossed.borderWidth.key =
      some (some (Crossed.borderWidth.className "x")) := by
    decide +kernel
  have hcovers : Property.Covers "border-width" "border-top-width" := by decide +kernel
  obtain ⟨⟨rule, winner, hwins⟩, hiff⟩ := last_style_wins_iff rfl Crossed.compiles_side
    Crossed.compiles_width Crossed.holds_borderWidth hget hcovers
  refine ⟨rule, winner, hwins, ?_⟩
  intro hheld
  have henters : contest.Enters Crossed.sideBorder :=
    ⟨Crossed.holds_sideBorder, by decide +kernel, rfl, by decide +kernel⟩
  have hcrosses : Property.Crosses "border-width" "border-top" :=
    Property.crosses_iff.2 (by decide +kernel)
  have hpriority : Crossed.sideBorder.priority = Crossed.borderWidth.priority := by decide +kernel
  have hkey : (Crossed.width.compiled {} none).get? Crossed.sideBorder.key = none := by
    decide +kernel
  refine (hiff rule winner hwins).1 hheld
    ⟨Crossed.sideBorder, henters, hcrosses, hpriority, hkey, ?_⟩
  -- The second object has one class, and its rule is in front.
  intro own hown hmem
  have hclasses : (Crossed.width.compiled {} none).classNames =
      [Crossed.borderWidth.className "x"] := by
    decide +kernel
  have hname : own.className "x" = Crossed.borderWidth.className "x" := by
    rw [hclasses] at hmem
    exact List.mem_singleton.1 hmem
  have hemission := hown.held.unique Crossed.holds_borderWidth hname
  have hrule : own.rule "x" = Crossed.borderWidth.rule "x" := congrArg (·.atomic.rule) hemission
  show (own.rule "x").le _ = true
  rw [hrule]
  decide +kernel

end AtomicCss
