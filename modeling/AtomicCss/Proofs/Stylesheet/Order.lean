import AtomicCss.Stylesheet
/-!
# The order of a stylesheet

Rules are ordered by their priorities and texts, and this order is total. So a stylesheet does not
depend on the order in which its rules are listed (`ofRules_perm`) and has its rules in strictly
increasing order (`pairwise_ofRules`). A rule that was dropped for its text has a representative:
the last rule of the sheet that is not behind it (`exists_representative`).
-/

namespace AtomicCss

namespace Rule

theorem le_iff {a b : Rule} :
    a.le b = true ↔ a.priority < b.priority ∨ (a.priority = b.priority ∧ a.text ≤ b.text) := by
  simp [le]

theorem le_refl (a : Rule) : a.le a = true :=
  le_iff.2 (.inr ⟨rfl, String.le_refl a.text⟩)

theorem le_trans {a b c : Rule} (hab : a.le b = true) (hbc : b.le c = true) : a.le c = true := by
  rw [le_iff] at *
  rcases hab with hab | ⟨hab, htext⟩ <;> rcases hbc with hbc | ⟨hbc, htext'⟩
  · exact .inl (by omega)
  · exact .inl (by omega)
  · exact .inl (by omega)
  · exact .inr ⟨by omega, String.le_trans htext htext'⟩

theorem le_total (a b : Rule) : a.le b = true ∨ b.le a = true := by
  rw [le_iff, le_iff]
  rcases Nat.lt_trichotomy a.priority b.priority with h | h | h
  · exact .inl (.inl h)
  · rcases String.le_total a.text b.text with htext | htext
    · exact .inl (.inr ⟨h, htext⟩)
    · exact .inr (.inr ⟨h.symm, htext⟩)
  · exact .inr (.inl h)

theorem le_antisymm {a b : Rule} (hab : a.le b = true) (hba : b.le a = true) : a = b := by
  rw [le_iff] at hab hba
  have hpriority : a.priority = b.priority := by omega
  have htext : a.text = b.text :=
    String.le_antisymm (by simpa [hpriority] using hab) (by simpa [hpriority] using hba)
  cases a
  cases b
  simp only at hpriority htext
  rw [hpriority, htext]

/-- A rule of lower priority stands in front. -/
theorem le_of_priority_lt {a b : Rule} (h : a.priority < b.priority) : a.le b = true :=
  le_iff.2 (.inl h)

end Rule

namespace Stylesheet

theorem pairwise_mergeSort (rules : List Rule) :
    (rules.mergeSort Rule.le).Pairwise fun a b => a.le b = true := by
  have htotal : ∀ a b : Rule, (a.le b || b.le a) = true := by
    intro a b
    simpa using Rule.le_total a b
  have htrans : ∀ a b c : Rule, a.le b = true → b.le c = true → a.le c = true := by
    intro a b c
    exact Rule.le_trans
  exact List.pairwise_mergeSort htrans htotal rules

/-- There is one way to put rules in order. -/
theorem ofRules_eq_of_sorted {rules sorted : List Rule} (hperm : rules.Perm sorted)
    (hsorted : sorted.Pairwise fun a b => a.le b = true) :
    ofRules rules = ⟨dropRepeats sorted⟩ := by
  have hboth : (rules.mergeSort Rule.le).Perm sorted :=
    (List.mergeSort_perm rules _).trans hperm
  have heq : rules.mergeSort Rule.le = sorted :=
    hboth.eq_of_pairwise (fun a b _ _ => Rule.le_antisymm) (pairwise_mergeSort rules) hsorted
  rw [ofRules, heq]

/-- The stylesheet of some rules is the same in whatever order they are listed. -/
theorem ofRules_perm {first second : List Rule} (hperm : first.Perm second) :
    ofRules first = ofRules second := by
  have hsecond : first.Perm (second.mergeSort Rule.le) :=
    hperm.trans (List.mergeSort_perm second _).symm
  exact ofRules_eq_of_sorted hsecond (pairwise_mergeSort second)

/-! ## Dropping repeated texts -/

/-- Among rules in order, dropping repeated texts leaves rules in strict order behind the first. -/
theorem pairwise_dropRepeatsAfter {last : Rule} {rules : List Rule}
    (h : (last :: rules).Pairwise fun a b => a.le b = true) :
    (last :: dropRepeatsAfter last rules).Pairwise fun a b => a.le b = true ∧ a ≠ b := by
  induction rules generalizing last with
  | nil => exact List.pairwise_singleton _ _
  | cons rule rest ih =>
    rcases List.pairwise_cons.1 h with ⟨hlast, hrules⟩
    have hrule : last.le rule = true := hlast rule List.mem_cons_self
    rw [dropRepeatsAfter]
    split
    · -- The rule is dropped, and the last one stands in front of those to come.
      have hrest : (last :: rest).Pairwise fun a b => a.le b = true :=
        h.sublist ((List.sublist_cons_self rule rest).cons_cons last)
      exact ih hrest
    · rename_i htext
      have hkept := ih hrules
      refine List.pairwise_cons.2 ⟨?_, hkept⟩
      intro other hother
      have hne : last ≠ rule := fun heq => htext (heq ▸ rfl)
      rcases List.mem_cons.1 hother with rfl | hother
      · exact ⟨hrule, hne⟩
      · -- A rule further behind is not the first one again, which is in front of the second.
        rcases (List.pairwise_cons.1 hkept).1 other hother with ⟨hle, -⟩
        refine ⟨Rule.le_trans hrule hle, ?_⟩
        rintro rfl
        exact hne (Rule.le_antisymm hrule hle)

theorem pairwise_ofRules (rules : List Rule) :
    (ofRules rules).rules.Pairwise fun a b => a.le b = true ∧ a ≠ b := by
  have hsorted := pairwise_mergeSort rules
  rw [ofRules]
  cases hcase : rules.mergeSort Rule.le with
  | nil => exact List.Pairwise.nil
  | cons rule rest =>
    rw [hcase] at hsorted
    exact pairwise_dropRepeatsAfter hsorted

/-- A rule of lower priority stands further in front, wherever the two are. -/
theorem lt_of_priority_lt {rules : List Rule} {first second : Rule} {i j : Nat}
    (hfirst : (ofRules rules).rules[i]? = some first)
    (hsecond : (ofRules rules).rules[j]? = some second)
    (h : first.priority < second.priority) : i < j := by
  obtain ⟨hi, hfirst⟩ := List.getElem?_eq_some_iff.1 hfirst
  obtain ⟨hj, hsecond⟩ := List.getElem?_eq_some_iff.1 hsecond
  have hsorted := List.pairwise_iff_getElem.1 (pairwise_ofRules rules)
  rcases Nat.lt_trichotomy i j with hlt | heq | hgt
  · exact hlt
  · subst heq
    rw [hfirst] at hsecond
    rw [hsecond] at h
    exact absurd h (Nat.lt_irrefl _)
  · have hle := (hsorted j i hj hi hgt).1
    rw [hfirst, hsecond, Rule.le_iff] at hle
    omega

/-- In a list of rules in order, a rule stands for another one: it has the same text, and none of
the list is between them. -/
def Represents (kept : List Rule) (rule other : Rule) : Prop :=
  rule.text = other.text ∧ rule.le other = true ∧
    ∀ between ∈ kept, between.le other = true → between.le rule = true

theorem dropRepeatsAfter_sublist (last : Rule) (rules : List Rule) :
    (dropRepeatsAfter last rules).Sublist rules := by
  induction rules generalizing last with
  | nil => exact List.Sublist.refl []
  | cons rule rest ih =>
    rw [dropRepeatsAfter]
    split
    · exact (ih last).cons rule
    · exact (ih rule).cons_cons rule

/-- A rule in front of all others is not between two of them. -/
theorem Represents.cons {first : Rule} {kept : List Rule} {rule other : Rule}
    (h : Represents kept rule other) (hle : first.le rule = true) :
    Represents (first :: kept) rule other := by
  obtain ⟨htext, hother, hbetween⟩ := h
  refine ⟨htext, hother, ?_⟩
  intro between hmem hle'
  rcases List.mem_cons.1 hmem with rfl | hmem
  · exact hle
  · exact hbetween between hmem hle'

/-- A rule represents another one of its text if none of the rules behind it is in front of that
one. -/
theorem represents_first {first : Rule} {kept : List Rule} {other : Rule}
    (htext : other.text = first.text) (hle : first.le other = true)
    (hbehind : ∀ rule ∈ kept, rule.le other = false) : Represents (first :: kept) first other := by
  refine ⟨htext.symm, hle, ?_⟩
  intro between hmem hle'
  rcases List.mem_cons.1 hmem with rfl | hmem
  · exact Rule.le_refl between
  · rw [hbehind between hmem] at hle'
    contradiction

/-- Each rule that comes up is represented, and so is one of the text of the last kept rule that all
rules to come are behind. -/
theorem exists_representative_dropRepeatsAfter {last : Rule} {rules : List Rule}
    (h : (last :: rules).Pairwise fun a b => a.le b = true) {other : Rule}
    (hother : other ∈ rules ∨
      other.text = last.text ∧ last.le other = true ∧ ∀ rule ∈ rules, other.le rule = true) :
    ∃ rule ∈ last :: dropRepeatsAfter last rules,
      Represents (last :: dropRepeatsAfter last rules) rule other := by
  -- By induction for each last kept rule, as a rule that is kept becomes the last one.
  induction rules generalizing last with
  | nil =>
    rcases hother with hmem | ⟨htext, hle, -⟩
    · cases hmem
    · exact ⟨last, List.mem_cons_self, represents_first htext hle fun rule hrule => nomatch hrule⟩
  | cons rule rest ih =>
    rcases List.pairwise_cons.1 h with ⟨hlast, hrules⟩
    rcases List.pairwise_cons.1 hrules with ⟨hrule, hrest⟩
    rw [dropRepeatsAfter]
    split
    · -- The rule is dropped, and the last kept one may represent it.
      rename_i htext
      refine ih (List.pairwise_cons.2
        ⟨fun r hr => hlast r (List.mem_cons_of_mem rule hr), hrest⟩) ?_
      rcases hother with hmem | ⟨hsame, hle, hbehind⟩
      · rcases List.mem_cons.1 hmem with rfl | hmem
        · exact .inr ⟨htext, hlast other List.mem_cons_self, hrule⟩
        · exact .inl hmem
      · exact .inr ⟨hsame, hle, fun r hr => hbehind r (List.mem_cons_of_mem rule hr)⟩
    · rename_i htext
      have hkept : ∀ r ∈ rule :: dropRepeatsAfter rule rest, r ∈ rule :: rest := by
        intro r hr
        exact ((dropRepeatsAfter_sublist rule rest).cons_cons rule).subset hr
      rcases hother with hmem | ⟨hsame, hle, hbehind⟩
      · -- The rule is kept and takes the place of the last one.
        have hcases : other ∈ rest ∨
            other.text = rule.text ∧ rule.le other = true ∧ ∀ r ∈ rest, other.le r = true := by
          rcases List.mem_cons.1 hmem with rfl | hmem
          · exact .inr ⟨rfl, Rule.le_refl other, hrule⟩
          · exact .inl hmem
        rcases ih hrules hcases with ⟨found, hfound, hrepresents⟩
        have hle : last.le found = true := hlast found (hkept found hfound)
        exact ⟨found, List.mem_cons_of_mem last hfound, hrepresents.cons hle⟩
      · -- All kept rules to come are behind the other one, and none of them is it.
        refine ⟨last, List.mem_cons_self, represents_first hsame hle fun between hmem => ?_⟩
        refine Bool.eq_false_iff.2 fun hle' => ?_
        have hbetween : rule.le between = true := by
          rcases List.mem_cons.1 (hkept between hmem) with rfl | hmem
          · exact Rule.le_refl between
          · exact hrule between hmem
        have heq : rule = other :=
          Rule.le_antisymm (Rule.le_trans hbetween hle') (hbehind rule List.mem_cons_self)
        exact absurd (heq ▸ hsame) htext

/-- Each of the rules that a stylesheet is made from has a representative in it. -/
theorem exists_representative {rules : List Rule} {other : Rule} (hother : other ∈ rules) :
    ∃ rule ∈ (ofRules rules).rules, Represents (ofRules rules).rules rule other := by
  have hsorted := pairwise_mergeSort rules
  have hmem : other ∈ rules.mergeSort Rule.le := List.mem_mergeSort.2 hother
  rw [ofRules]
  cases hcase : rules.mergeSort Rule.le with
  | nil =>
    rw [hcase] at hmem
    cases hmem
  | cons rule rest =>
    rw [hcase] at hsorted hmem
    have hrule := (List.pairwise_cons.1 hsorted).1
    refine exists_representative_dropRepeatsAfter hsorted ?_
    rcases List.mem_cons.1 hmem with rfl | hmem
    · exact .inr ⟨rfl, Rule.le_refl other, hrule⟩
    · exact .inl hmem

/-- Nothing stands in front of a rule of priority zero but others of this priority, so that it is
not dropped. -/
theorem mem_ofRules_of_priority_eq_zero {rules : List Rule} {rule : Rule} (h : rule ∈ rules)
    (hpriority : rule.priority = 0) : rule ∈ (ofRules rules).rules := by
  rcases exists_representative h with ⟨kept, hkept, htext, hle, -⟩
  have heq : kept = rule := by
    refine Rule.le_antisymm hle (Rule.le_iff.2 ?_)
    rw [Rule.le_iff, htext] at hle
    rw [htext]
    rcases hle with hlt | ⟨heq, -⟩
    · omega
    · exact .inr ⟨heq.symm, String.le_refl _⟩
  exact heq ▸ hkept

/-- A stylesheet has no rules but those that it is made from. -/
theorem mem_of_mem_ofRules {rules : List Rule} {rule : Rule} (h : rule ∈ (ofRules rules).rules) :
    rule ∈ rules := by
  have hmem : rule ∈ rules.mergeSort Rule.le ↔ rule ∈ rules := List.mem_mergeSort
  rw [ofRules] at h
  rw [← hmem]
  cases hcase : rules.mergeSort Rule.le with
  | nil =>
    rw [hcase] at h
    exact h
  | cons first rest =>
    rw [hcase] at h
    exact ((dropRepeatsAfter_sublist first rest).cons_cons first).subset h

end Stylesheet

end AtomicCss
