import AtomicCss.Proofs.Stylesheet.Repeats
import Mathlib.Data.List.Chain
import Mathlib.Data.List.Nodup
/-!
# The rules of a stylesheet

What the list of rules of a stylesheet is (`ofRules_canonical`): some of the rules that it is made from,
in strictly increasing order, with no text twice in a row, and with a rule for each one that was dropped.
Making a stylesheet of these rules changes nothing. Where rules of one text have one priority, none of
them is lost.
-/

namespace AtomicCss

namespace Rule

/-- By priority, and by text among rules of one priority. -/
def Before (a b : Rule) : Prop :=
  a.priority < b.priority ∨ a.priority = b.priority ∧ a.text < b.text

/-- Of two rules that differ, the one that may come first comes before the other. -/
theorem before_of_le_of_ne {a b : Rule} (hle : a.le b = true) (hne : a ≠ b) : a.Before b := by
  rcases le_iff.1 hle with hlt | ⟨hpriority, htext⟩
  · exact .inl hlt
  · refine .inr ⟨hpriority, String.not_le.1 fun hge => hne ?_⟩
    exact le_antisymm hle (le_iff.2 (.inr ⟨hpriority.symm, hge⟩))

theorem Before.ne {a b : Rule} (h : a.Before b) : a ≠ b := by
  rintro rfl
  rcases h with hlt | ⟨-, hlt⟩
  · exact Nat.lt_irrefl _ hlt
  · exact String.lt_irrefl _ hlt

end Rule

namespace Stylesheet

/-- Rules of which no two neighbours have the same text. -/
def TextsChange (rules : List Rule) : Prop :=
  rules.IsChain fun a b => a.text ≠ b.text

/-- Where repeats are dropped, the text changes from rule to rule. -/
theorem textsChange_dropRepeatsAfter (last : Rule) (rules : List Rule) :
    TextsChange (last :: dropRepeatsAfter last rules) := by
  induction rules generalizing last with
  | nil => exact .singleton last
  | cons rule rest ih =>
    rw [dropRepeatsAfter]
    split
    · exact ih last
    · rename_i htext
      exact .cons_cons (Ne.symm htext) (ih rule)

/-- The text changes from rule to rule of a stylesheet. -/
theorem textsChange_ofRules (rules : List Rule) : TextsChange (ofRules rules).rules := by
  rw [ofRules]
  cases rules.mergeSort Rule.le with
  | nil => exact .nil
  | cons rule rest => exact textsChange_dropRepeatsAfter rule rest

/-- Where the text changes from rule to rule, nothing is dropped. -/
theorem dropRepeatsAfter_eq_self {last : Rule} {rules : List Rule}
    (h : TextsChange (last :: rules)) : dropRepeatsAfter last rules = rules := by
  induction rules generalizing last with
  | nil => rfl
  | cons rule rest ih =>
    obtain ⟨htext, hrest⟩ := List.isChain_cons_cons.1 h
    rw [dropRepeatsAfter, if_neg (Ne.symm htext), ih hrest]

/-- Nothing is dropped where the text changes from each rule to the next. -/
theorem dropRepeats_eq_self {rules : List Rule} (h : TextsChange rules) :
    dropRepeats rules = rules := by
  cases rules with
  | nil => rfl
  | cons rule rest => rw [dropRepeats, dropRepeatsAfter_eq_self h]

/-- The rules of a stylesheet make up the same stylesheet. -/
theorem ofRules_rules (rules : List Rule) : ofRules (ofRules rules).rules = ofRules rules := by
  have hsorted : (ofRules rules).rules.Pairwise fun a b => a.le b = true :=
    (pairwise_ofRules rules).imp And.left
  rw [ofRules_eq_of_sorted (.refl _) hsorted, dropRepeats_eq_self (textsChange_ofRules rules)]

/-- A rule is kept if all rules of its text have its priority: the one that represents it is itself. -/
theorem mem_ofRules_of_same_priority {rules : List Rule} {rule : Rule} (hrule : rule ∈ rules)
    (h : ∀ other ∈ rules, other.text = rule.text → other.priority = rule.priority) :
    rule ∈ (ofRules rules).rules := by
  obtain ⟨kept, hkept, htext, -, -⟩ := exists_representative hrule
  have hpriority := h kept (mem_of_mem_ofRules hkept) htext
  have heq : kept = rule := by
    cases kept
    cases rule
    simp only at htext hpriority
    rw [htext, hpriority]
  exact heq ▸ hkept

/-- The rules of a stylesheet are rules that it is made from, in strictly increasing order of priority and
text, and no two neighbours have the same text. Each of the rules that it is made from has one of its text
there that is not behind it, with no other rule between them. Neither the order in which rules are listed
nor how often they are makes a difference, and neither does making a stylesheet of its rules again. If rules
of one text have one priority, each rule comes up once. -/
theorem ofRules_canonical (rules : List Rule) :
    (ofRules rules).rules.Pairwise Rule.Before ∧
      (∀ rule ∈ (ofRules rules).rules, rule ∈ rules) ∧
      (∀ rule ∈ rules, ∃ kept ∈ (ofRules rules).rules,
        Represents (ofRules rules).rules kept rule) ∧
      TextsChange (ofRules rules).rules ∧
      (∀ other : List Rule, (∀ rule, rule ∈ other ↔ rule ∈ rules) → ofRules other = ofRules rules) ∧
      ofRules (ofRules rules).rules = ofRules rules ∧
      ((∀ a ∈ rules, ∀ b ∈ rules, a.text = b.text → a.priority = b.priority) →
        ∀ rule ∈ rules, (ofRules rules).rules.count rule = 1) := by
  have hsorted : (ofRules rules).rules.Pairwise Rule.Before :=
    (pairwise_ofRules rules).imp fun ⟨hle, hne⟩ => Rule.before_of_le_of_ne hle hne
  refine ⟨hsorted, fun rule => mem_of_mem_ofRules, fun rule => exists_representative,
    textsChange_ofRules rules, fun other => ofRules_congr, ofRules_rules rules, ?_⟩
  intro hpriority rule hrule
  have hnodup : (ofRules rules).rules.Nodup := hsorted.imp Rule.Before.ne
  refine List.count_eq_one_of_mem hnodup (mem_ofRules_of_same_priority hrule ?_)
  intro other hother htext
  exact hpriority other hother rule hrule htext

/-- Rules in another order, one of them listed twice. -/
theorem ofRules_canonical_twice :
    let rules : List Rule := [⟨".b", 2⟩, ⟨".a", 2⟩, ⟨".c", 1⟩, ⟨".a", 2⟩]
    ofRules [⟨".c", 1⟩, ⟨".b", 2⟩, ⟨".a", 2⟩] = ofRules rules ∧
      (ofRules rules).rules.count ⟨".a", 2⟩ = 1 := by
  intro rules
  obtain ⟨-, -, -, -, hsame, -, honce⟩ := ofRules_canonical rules
  exact ⟨hsame _ (by simp [rules]; tauto), honce (by decide) _ (by decide)⟩

/-- A text comes up twice if its rules have different priorities and another rule is between them. -/
example : (ofRules [⟨".b", 1⟩, ⟨".a", 2⟩, ⟨".a", 1⟩]).rules = [⟨".a", 1⟩, ⟨".b", 1⟩, ⟨".a", 2⟩] := by
  cbv

end Stylesheet

end AtomicCss
