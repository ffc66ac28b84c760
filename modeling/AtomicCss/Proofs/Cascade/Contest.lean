import AtomicCss.Proofs.Compile.Authored
import AtomicCss.Proofs.Declaration.Identity
import AtomicCss.Proofs.Property.Covers
import AtomicCss.Proofs.Store.Emissions
import AtomicCss.Proofs.Stylesheet.Order
import AtomicCss.Property.Name
/-!
# Contests

Declarations with classes of one element contest a longhand if they are in one context and their
properties cover it. The stylesheet decides for the one whose rule is placed last. There always is
one (`exists_wins`), and rules are placed as they are ordered, so that two declarations are placed
alike only if they have one class (`Places.le_of_le`, `Places.className_eq`).
-/

namespace AtomicCss

/-- A key of a compiled object, for the property of a declaration in its context. -/
def Declaration.key (d : Declaration) : String :=
  d.context.decorate (Property.styleKey d.property)

/-- The rule that a build has for a declaration. -/
def Declaration.rule (d : Declaration) (mark : String) : Rule :=
  (d.toAtomic mark).rule

/-- A longhand in a context of an element that is styled by the stylesheet of a store. The element has
some classes, whose names begin with a mark. -/
structure Contest where
  store : Store
  mark : String
  classes : List String
  context : Context
  longhand : String

namespace Contest

variable {contest : Contest}

/-- A declaration with a class of the element sets the longhand in the context. -/
structure Enters (contest : Contest) (d : Declaration) : Prop where
  held : contest.store.Holds (d.emission contest.mark)
  listed : d.className contest.mark ∈ contest.classes
  context_eq : d.context = contest.context
  covers : Property.Covers d.property contest.longhand

/-- A rule of the stylesheet stands for the rule of a declaration that takes part. -/
structure Places (contest : Contest) (rule : Rule) (d : Declaration) : Prop where
  enters : contest.Enters d
  mem : rule ∈ contest.store.stylesheet.rules
  represents : Stylesheet.Represents contest.store.stylesheet.rules rule (d.rule contest.mark)

/-- The rule of a declaration that takes part is placed last: no rule behind it in the stylesheet
stands for one that takes part. -/
structure Wins (contest : Contest) (rule : Rule) (d : Declaration) : Prop where
  places : contest.Places rule d
  last : ∃ before after, contest.store.stylesheet.rules = before ++ rule :: after ∧
    ∀ other ∈ after, ∀ e, ¬ contest.Places other e

/-! ## Places in the stylesheet -/

theorem Enters.places {d : Declaration} (h : contest.Enters d) :
    ∃ rule, contest.Places rule d := by
  have hrule : d.rule contest.mark ∈ contest.store.rules := h.held.mem_rules
  rcases Stylesheet.exists_representative hrule with ⟨rule, hmem, hrepresents⟩
  exact ⟨rule, h, hmem, hrepresents⟩

/-- Declarations are placed in the order of their rules. -/
theorem Places.le_of_le {rule other : Rule} {d e : Declaration} (hd : contest.Places rule d)
    (he : contest.Places other e) (hle : (d.rule contest.mark).le (e.rule contest.mark) = true) :
    rule.le other = true := by
  rcases hd.represents with ⟨-, hrule, -⟩
  rcases he.represents with ⟨-, -, hlast⟩
  exact hlast rule hd.mem (Rule.le_trans hrule hle)

/-- Declarations in one place have one class. -/
theorem Places.className_eq {rule : Rule} {d e : Declaration} (hd : contest.Places rule d)
    (he : contest.Places rule e) : d.className contest.mark = e.className contest.mark := by
  have hcontext : d.context = e.context := hd.enters.context_eq.trans he.enters.context_eq.symm
  have htext : (d.rule contest.mark).text = (e.rule contest.mark).text :=
    hd.represents.1.symm.trans he.represents.1
  exact Declaration.className_eq_of_ruleText hcontext htext

/-- Some declaration wins if one takes part at all. -/
theorem exists_wins {d : Declaration} (h : contest.Enters d) :
    ∃ rule e, contest.Wins rule e := by
  rcases h.places with ⟨rule, hrule⟩
  rcases forall_not_or_exists_last (fun rule => ∃ e, contest.Places rule e)
      contest.store.stylesheet.rules with
    hnone | ⟨before, last, after, hsheet, ⟨e, he⟩, hlast⟩
  · exact absurd ⟨d, hrule⟩ (hnone rule hrule.mem)
  · refine ⟨last, e, he, before, after, hsheet, ?_⟩
    intro other hother e' hplaces
    exact hlast other hother ⟨e', hplaces⟩

/-- No rule that takes part is behind that of the winner. -/
theorem Wins.le {rule other : Rule} {d e : Declaration} (hd : contest.Wins rule d)
    (he : contest.Places other e) : other.le rule = true := by
  rcases hd.last with ⟨before, after, hsheet, hnone⟩
  have hsorted : contest.store.stylesheet.rules.Pairwise fun a b => a.le b = true ∧ a ≠ b :=
    Stylesheet.pairwise_ofRules contest.store.rules
  have hmem := he.mem
  rw [hsheet] at hsorted hmem
  rcases List.mem_append.1 hmem with hbefore | hbehind
  · exact ((List.pairwise_append.1 hsorted).2.2 other hbefore rule List.mem_cons_self).1
  · rcases List.mem_cons.1 hbehind with rfl | hafter
    · exact Rule.le_refl other
    · exact absurd he (hnone other hafter e)

/-- A declaration whose rule is not in front of that of the winner has the class of the winner. -/
theorem Wins.className_eq {rule : Rule} {d e : Declaration} (hd : contest.Wins rule d)
    (he : contest.Enters e) (hle : (d.rule contest.mark).le (e.rule contest.mark) = true) :
    d.className contest.mark = e.className contest.mark := by
  rcases he.places with ⟨other, hother⟩
  have heq : rule = other :=
    Rule.le_antisymm (hd.places.le_of_le hother hle) (hd.le hother)
  exact hd.places.className_eq (heq ▸ hother)

end Contest

/-! ## What the store holds -/

/-- A store holds one emission under a name. -/
theorem Store.Holds.unique {store : Store} {first second : Emission} (hfirst : store.Holds first)
    (hsecond : store.Holds second) (hname : first.atomic.name = second.atomic.name) :
    first = second := by
  rw [Holds, hname] at hfirst
  exact Option.some.inj (hfirst.symm.trans hsecond)

/-- Declarations with one class in a store have one key. -/
theorem Store.Holds.key_eq {store : Store} {mark : String} {d e : Declaration}
    (hd : store.Holds (d.emission mark)) (he : store.Holds (e.emission mark))
    (hname : d.className mark = e.className mark) :
    d.context = e.context ∧ d.property = e.property ∧ d.key = e.key := by
  rcases Declaration.emission_injective (hd.unique he hname) with ⟨hcontext, hproperty⟩
  exact ⟨hcontext, hproperty, by rw [Declaration.key, Declaration.key, hcontext, hproperty]⟩

end AtomicCss
