import AtomicCss.Proofs.Stylesheet.Order
/-!
# Repeated rules

The repeats of a rule are beside it when rules are in order, so that they are dropped. A stylesheet
therefore depends on which rules it is made from and on nothing else (`ofRules_congr`). It has their
texts and no others (`exists_text_ofRules_iff`), although it may have lost one of two rules with one
text.
-/

namespace AtomicCss

namespace Stylesheet

theorem dropRepeatsAfter_repeat (last rule : Rule) (front back : List Rule) :
    dropRepeatsAfter last (front ++ rule :: rule :: back) =
      dropRepeatsAfter last (front ++ rule :: back) := by
  induction front generalizing last with
  | nil =>
    by_cases htext : rule.text = last.text
    · simp [dropRepeatsAfter, htext]
    · simp [dropRepeatsAfter, htext]
  | cons head front ih =>
    rw [List.cons_append, List.cons_append, dropRepeatsAfter, dropRepeatsAfter, ih, ih]

/-- A rule that comes up again right behind itself is dropped. -/
theorem dropRepeats_repeat (rule : Rule) (front back : List Rule) :
    dropRepeats (front ++ rule :: rule :: back) = dropRepeats (front ++ rule :: back) := by
  cases front with
  | nil => simp [dropRepeats, dropRepeatsAfter]
  | cons head front =>
    rw [List.cons_append, List.cons_append, dropRepeats, dropRepeats, dropRepeatsAfter_repeat]

/-- A rule may be listed again. -/
theorem ofRules_cons_of_mem {rule : Rule} {rules : List Rule} (h : rule ∈ rules) :
    ofRules (rule :: rules) = ofRules rules := by
  have hmem : rule ∈ rules.mergeSort Rule.le := List.mem_mergeSort.2 h
  obtain ⟨front, back, hsplit⟩ := List.append_of_mem hmem
  have hsorted := pairwise_mergeSort rules
  rw [hsplit] at hsorted
  -- In order, the rule that is listed again is beside the other one.
  have htwice : (front ++ rule :: rule :: back).Pairwise fun a b => a.le b = true := by
    rcases List.pairwise_append.1 hsorted with ⟨hfront, hback, hacross⟩
    refine List.pairwise_append.2 ⟨hfront, List.pairwise_cons.2 ⟨?_, hback⟩, ?_⟩
    · intro other hother
      rcases List.mem_cons.1 hother with rfl | hother
      · exact Rule.le_refl other
      · exact (List.pairwise_cons.1 hback).1 other hother
    · intro before hbefore other hother
      rcases List.mem_cons.1 hother with rfl | hother
      · exact hacross before hbefore other List.mem_cons_self
      · exact hacross before hbefore other hother
  have honce : rules.Perm (front ++ rule :: back) :=
    (List.mergeSort_perm rules Rule.le).symm.trans (.of_eq hsplit)
  have hperm : (rule :: rules).Perm (front ++ rule :: rule :: back) :=
    (honce.cons rule).trans List.perm_middle.symm
  rw [ofRules_eq_of_sorted hperm htwice, ofRules_eq_of_sorted honce hsorted, dropRepeats_repeat]

theorem ofRules_append_of_forall_mem {again rules : List Rule} (h : ∀ rule ∈ again, rule ∈ rules) :
    ofRules (again ++ rules) = ofRules rules := by
  induction again with
  | nil => rfl
  | cons rule again ih =>
    have hrule : rule ∈ again ++ rules := List.mem_append_right again (h rule List.mem_cons_self)
    rw [List.cons_append, ofRules_cons_of_mem hrule]
    exact ih fun other hother => h other (List.mem_cons_of_mem rule hother)

/-- Lists of the same rules have one stylesheet, however often they list them. -/
theorem ofRules_congr {first second : List Rule} (h : ∀ rule, rule ∈ first ↔ rule ∈ second) :
    ofRules first = ofRules second := by
  calc ofRules first
      = ofRules (second ++ first) :=
        (ofRules_append_of_forall_mem fun rule hrule => (h rule).2 hrule).symm
    _ = ofRules (first ++ second) := ofRules_perm List.perm_append_comm
    _ = ofRules second := ofRules_append_of_forall_mem fun rule hrule => (h rule).1 hrule

/-- A stylesheet has the texts of the rules that it is made from. -/
theorem exists_text_ofRules_iff {rules : List Rule} {text : String} :
    (∃ rule ∈ (ofRules rules).rules, rule.text = text) ↔ ∃ rule ∈ rules, rule.text = text := by
  constructor
  · rintro ⟨rule, hrule, htext⟩
    exact ⟨rule, mem_of_mem_ofRules hrule, htext⟩
  · rintro ⟨other, hother, rfl⟩
    rcases exists_representative hother with ⟨rule, hrule, htext, -⟩
    exact ⟨rule, hrule, htext⟩

theorem exists_text_emissions_iff {emissions : List Emission} {text : String} :
    (∃ rule ∈ (ofRules (emissions.map (·.atomic.rule))).rules, rule.text = text) ↔
      ∃ emission ∈ emissions, emission.atomic.rule.text = text := by
  rw [exists_text_ofRules_iff]
  constructor
  · rintro ⟨rule, hrule, htext⟩
    rcases List.mem_map.1 hrule with ⟨emission, hemission, rfl⟩
    exact ⟨emission, hemission, htext⟩
  · rintro ⟨emission, hemission, htext⟩
    exact ⟨emission.atomic.rule, List.mem_map_of_mem hemission, htext⟩

end Stylesheet

end AtomicCss
