import AtomicCss.Priority
/-!
# What a property covers

A property covers itself and what its longhands cover. What is covered further down has a higher
rank (`ofProperty_lt_of_covers`), and all of it is reset along with the property
(`mem_resets_of_covers`).

Two properties cross if they cover something in common but neither covers the other one. No resets
keep such properties apart, and they have one rank (`Crosses.ofProperty_eq`). There are 24 pairs of
them, all of them of borders (`crosses_iff`).
-/

namespace AtomicCss

namespace Property

inductive Covers : String → String → Prop where
  | refl (property : String) : Covers property property
  | longhand {property child covered : String} (hchild : child ∈ longhands property)
      (hcovers : Covers child covered) : Covers property covered

/-- Two properties set something in common, and neither sets all that the other one sets. -/
structure Crosses (property other : String) : Prop where
  common : ∃ covered, Covers property covered ∧ Covers other covered
  not_covers : ¬ Covers property other
  not_covered : ¬ Covers other property

/-! ## The table of shorthands -/

/-- What a table lists for a property is a row of it. -/
theorem mem_table_of_mem_lookup {table : List (String × List String)} {property listed : String}
    (h : listed ∈ (table.lookup property).getD []) :
    (property, (table.lookup property).getD []) ∈ table := by
  cases hrow : table.lookup property with
  | none =>
    rw [hrow] at h
    cases h
  | some names =>
    rcases List.lookup_eq_some_iff.1 hrow with ⟨before, after, htable, -⟩
    rw [htable]
    exact List.mem_append_right before List.mem_cons_self

/-- A property with longhands is in the table. -/
theorem mem_shorthandTable {property child : String} (h : child ∈ longhands property) :
    (property, longhands property) ∈ shorthandTable :=
  mem_table_of_mem_lookup h

/-- The levels are enough for all shorthands. -/
theorem depth_le_of_row : ∀ row ∈ shorthandTable, depth row.1 ≤ Priority.levels := by
  decide +kernel

/-- No property has more levels below it than the ranks tell apart. -/
theorem depth_le (property : String) : depth property ≤ Priority.levels := by
  by_cases h : ∃ child, child ∈ longhands property
  · rcases h with ⟨child, hchild⟩
    exact depth_le_of_row _ (mem_shorthandTable hchild)
  · have hnone : longhands property = [] :=
      List.eq_nil_iff_forall_not_mem.2 fun child hchild => h ⟨child, hchild⟩
    have hlength : shorthandTable.length = (shorthandTable.length - 1) + 1 := rfl
    rw [depth, hlength, depthWithin, hnone]
    exact Nat.zero_le _

theorem depthWithin_lt_of_mem_longhands {property child : String}
    (h : child ∈ longhands property) (level : Nat) :
    depthWithin level child < depthWithin (level + 1) property := by
  have hmax : ∀ (children : List String), child ∈ children →
      depthWithin level child + 1 ≤
        (children.map fun child => depthWithin level child + 1).foldr max 0 := by
    intro children hmem
    induction children with
    | nil => cases hmem
    | cons first rest ih =>
      rw [List.map_cons, List.foldr_cons]
      rcases List.mem_cons.1 hmem with rfl | hmem
      · exact Nat.le_max_left _ _
      · exact Nat.le_trans (ih hmem) (Nat.le_max_right _ _)
  exact hmax (longhands property) h

/-- Levels that are not used up do not matter. -/
theorem depthWithin_succ {property : String} {level : Nat}
    (h : depthWithin level property < level) :
    depthWithin (level + 1) property = depthWithin level property := by
  induction level generalizing property with
  | zero => omega
  | succ level ih =>
    -- No longhand uses up the levels that are left for it.
    have hchildren : ∀ child ∈ longhands property,
        depthWithin (level + 1) child + 1 = depthWithin level child + 1 := by
      intro child hchild
      have hlt := depthWithin_lt_of_mem_longhands hchild level
      rw [ih (by omega)]
    rw [depthWithin, List.map_congr_left hchildren]
    rfl

/-- A longhand is less deep than its shorthand. -/
theorem depth_lt_of_mem_longhands {property child : String} (h : child ∈ longhands property) :
    depth child < depth property := by
  obtain ⟨level, hlength, hlevels⟩ :
      ∃ level, shorthandTable.length = level + 1 ∧ Priority.levels ≤ level :=
    ⟨shorthandTable.length - 1, rfl, by decide⟩
  have hproperty := depth_le property
  have hlt := depthWithin_lt_of_mem_longhands h level
  rw [depth, hlength] at hproperty ⊢
  rw [depth, hlength, depthWithin_succ (by omega)]
  exact hlt

/-! ## Ranks and resets -/

/-- A longhand comes behind its shorthand. -/
theorem ofProperty_lt_of_mem_longhands {property child : String} (h : child ∈ longhands property) :
    Priority.ofProperty property < Priority.ofProperty child := by
  have hdepth := depth_lt_of_mem_longhands h
  have hlevels := depth_le property
  rw [Priority.ofProperty, Priority.ofProperty]
  rw [Nat.min_eq_left hlevels, Nat.min_eq_left (by omega)]
  split <;> split <;> omega

/-- What a property covers comes behind it, so that it wins over the property. -/
theorem ofProperty_lt_of_covers {property covered : String} (h : Covers property covered)
    (hne : property ≠ covered) : Priority.ofProperty property < Priority.ofProperty covered := by
  induction h with
  | refl property => exact absurd rfl hne
  | @longhand property child covered hchild _ ih =>
    have hlt := ofProperty_lt_of_mem_longhands hchild
    by_cases heq : child = covered
    · rw [← heq]
      exact hlt
    · exact Nat.lt_trans hlt (ih heq)

/-- Following longhands down to the depth of a property reaches all that it covers. -/
theorem mem_overriddenWithin {property covered : String} (h : Covers property covered)
    (hne : covered ≠ property) {level : Nat} (hlevel : depth property ≤ level) :
    covered ∈ overriddenWithin level property := by
  induction h generalizing level with
  | refl property => exact absurd rfl hne
  | @longhand property child covered hchild _ ih =>
    have hdepth := depth_lt_of_mem_longhands hchild
    -- The level is at least the depth, and a longhand is less deep; so it does not run out.
    cases level with
    | zero => omega
    | succ level =>
      rw [overriddenWithin]
      refine List.mem_append_right _ (List.mem_flatMap.2 ⟨child, hchild, ?_⟩)
      by_cases heq : covered = child
      · rw [heq]
        exact List.mem_cons_self
      · exact List.mem_cons_of_mem child (ih heq (by omega))

/-- Setting a property resets all else that it covers. -/
theorem mem_resets_of_covers {property covered : String} (h : Covers property covered)
    (hne : covered ≠ property) : covered ∈ resets property := by
  have hlevels : Priority.levels ≤ shorthandTable.length + 1 := by decide
  have hdepth : depth property ≤ shorthandTable.length + 1 :=
    Nat.le_trans (depth_le property) hlevels
  rw [resets, KeyMap.mem_keys_ofList, List.map_map]
  refine List.mem_map.2 ⟨covered, mem_overriddenWithin h hne hdepth, rfl⟩

/-! ## Crossing properties -/

/-- A property and all that it covers down to a level. -/
def coveredWithin : Nat → String → List String
  | 0, property => [property]
  | level + 1, property => property :: (longhands property).flatMap (coveredWithin level)

/-- What is found within some levels is covered. -/
theorem covers_of_mem {level : Nat} {property covered : String}
    (h : covered ∈ coveredWithin level property) : Covers property covered := by
  induction level generalizing property with
  | zero =>
    rw [coveredWithin, List.mem_singleton] at h
    exact h ▸ .refl property
  | succ level ih =>
    rw [coveredWithin] at h
    rcases List.mem_cons.1 h with rfl | h
    · exact .refl covered
    · rcases List.mem_flatMap.1 h with ⟨child, hchild, hmem⟩
      exact .longhand hchild (ih hmem)

/-- What is covered is found within the levels of the shorthand. -/
theorem mem_coveredWithin {property covered : String} (h : Covers property covered) {level : Nat}
    (hlevel : depth property ≤ level) : covered ∈ coveredWithin level property := by
  induction h generalizing level with
  | refl property =>
    cases level with
    | zero => exact List.mem_singleton_self property
    | succ level => exact List.mem_cons_self
  | @longhand property child covered hchild _ ih =>
    have hdepth := depth_lt_of_mem_longhands hchild
    cases level with
    | zero => omega
    | succ level =>
      have hmem : covered ∈ coveredWithin level child := ih (by omega)
      exact List.mem_cons_of_mem property (List.mem_flatMap.2 ⟨child, hchild, hmem⟩)

/-- All that is covered is found within the levels that there are. -/
theorem covers_iff {property covered : String} :
    Covers property covered ↔ covered ∈ coveredWithin Priority.levels property :=
  ⟨fun h => mem_coveredWithin h (depth_le property), covers_of_mem⟩

instance (property covered : String) : Decidable (Covers property covered) :=
  decidable_of_iff _ covers_iff.symm

/-- All pairs of names of two lists. -/
def pairs (names others : List String) : List (String × String) :=
  names.flatMap fun name => others.map (name, ·)

/-- An aspect of a border on all sides, and all aspects of the border on one side. -/
def crossings : List (String × String) :=
  pairs ["border-width", "border-style", "border-color"]
      ["border-top", "border-right", "border-bottom", "border-left"] ++
    pairs ["border-block-width", "border-block-style", "border-block-color"]
      ["border-block-start", "border-block-end"] ++
    pairs ["border-inline-width", "border-inline-style", "border-inline-color"]
      ["border-inline-start", "border-inline-end"]

/-- The bytes of a name as one number. Numbers are compared faster than names. -/
def code (name : String) : Nat :=
  name.toByteArray.data.toList.foldl (fun n byte => n * 256 + byte.toNat) 0

def shareCode (names others : List String) : Bool :=
  names.any fun name => others.any fun other => (code name).beq (code other)

theorem shareCode_of_mem {names others : List String} {name : String} (hname : name ∈ names)
    (hother : name ∈ others) : shareCode names others = true := by
  refine List.any_eq_true.2 ⟨name, hname, List.any_eq_true.2 ⟨name, hother, ?_⟩⟩
  exact Nat.beq_refl (code name)

/-- Shorthands that share a longhand are listed as crossing. -/
theorem rows_crossing :
    (shorthandTable.all fun row => shorthandTable.all fun other =>
      !shareCode row.2 other.2 || row.1 == other.1 || crossings.contains (row.1, other.1) ||
        crossings.contains (other.1, row.1)) = true := by
  decide +kernel

/-- A row that has one of two crossing shorthands has both. -/
theorem rows_siblings :
    (shorthandTable.all fun row => crossings.all fun pair =>
      !shareCode [pair.1, pair.2] row.2 || (row.2.contains pair.1 && row.2.contains pair.2)) =
        true := by
  decide +kernel

/-- Two shorthands with a longhand in common are one of the pairs. -/
theorem mem_crossings_of_longhand {first second child : String} (hfirst : child ∈ longhands first)
    (hsecond : child ∈ longhands second) :
    first = second ∨ (first, second) ∈ crossings ∨ (second, first) ∈ crossings := by
  have hrow := List.all_eq_true.1 rows_crossing _ (mem_shorthandTable hfirst)
  have hrows := List.all_eq_true.1 hrow _ (mem_shorthandTable hsecond)
  simpa [shareCode_of_mem hfirst hsecond, or_assoc] using hrows

/-- The properties of a pair are longhands of the same shorthands. -/
theorem mem_longhands_of_crossing {first second parent : String}
    (hpair : (first, second) ∈ crossings ∨ (second, first) ∈ crossings)
    (hfirst : first ∈ longhands parent) : second ∈ longhands parent := by
  have hrow := List.all_eq_true.1 rows_siblings _ (mem_shorthandTable hfirst)
  -- The rows of the table say of each pair that its two properties stand in the same rows.
  rcases hpair with hpair | hpair
  · have hboth := List.all_eq_true.1 hrow _ hpair
    have hshare : shareCode [first, second] (longhands parent) = true :=
      shareCode_of_mem List.mem_cons_self hfirst
    simp only [hshare, Bool.not_true, Bool.false_or, Bool.and_eq_true, List.contains_iff_mem]
      at hboth
    exact hboth.2
  · have hboth := List.all_eq_true.1 hrow _ hpair
    have hshare : shareCode [second, first] (longhands parent) = true :=
      shareCode_of_mem (List.mem_cons_of_mem second List.mem_cons_self) hfirst
    simp only [hshare, Bool.not_true, Bool.false_or, Bool.and_eq_true, List.contains_iff_mem]
      at hboth
    exact hboth.1

/-- What is covered covers what it covers for the shorthand as well. -/
theorem Covers.trans {first second third : String} (h : Covers first second)
    (h' : Covers second third) : Covers first third := by
  induction h with
  | refl property => exact h'
  | longhand hchild _ ih => exact .longhand hchild (ih h')

/-- Above what a property covers is a shorthand that it covers too. -/
theorem Covers.exists_parent {property covered : String} (h : Covers property covered)
    (hne : property ≠ covered) : ∃ parent, Covers property parent ∧ covered ∈ longhands parent := by
  induction h with
  | refl property => exact absurd rfl hne
  | @longhand property child covered hchild _ ih =>
    by_cases heq : child = covered
    · exact ⟨property, .refl property, heq ▸ hchild⟩
    · rcases ih heq with ⟨parent, hparent, hmem⟩
      exact ⟨parent, .longhand hchild hparent, hmem⟩

/-- Two properties that cover something in common are one of the pairs if neither covers the other
one. What they have in common is followed up to where they meet first. -/
theorem mem_crossings_of_covers {first second covered : String} (hfirst : Covers first covered)
    (hsecond : Covers second covered) (hnot : ¬ Covers first second)
    (hnot' : ¬ Covers second first) :
    (first, second) ∈ crossings ∨ (second, first) ∈ crossings := by
  -- By induction on the rank of what they have in common: shorthands above it have lower ranks.
  induction hrank : Priority.ofProperty covered using Nat.strongRecOn
    generalizing covered with
  | ind rank ih =>
    subst hrank
    have hne : first ≠ covered := fun heq => hnot' (heq ▸ hsecond)
    have hne' : second ≠ covered := fun heq => hnot (heq ▸ hfirst)
    rcases hfirst.exists_parent hne with ⟨above, habove, hchild⟩
    rcases hsecond.exists_parent hne' with ⟨above', habove', hchild'⟩
    have hlt := ofProperty_lt_of_mem_longhands hchild
    have hlt' := ofProperty_lt_of_mem_longhands hchild'
    rcases mem_crossings_of_longhand hchild hchild' with heq | hpair
    · -- Both come down through one shorthand, which has a lower rank.
      exact ih _ hlt habove (heq ▸ habove') rfl
    · by_cases heq : first = above
      · by_cases heq' : second = above'
        · rw [heq, heq']
          exact hpair
        · -- The second comes down to both properties of the pair.
          rcases habove'.exists_parent heq' with ⟨parent, hparent, hmem⟩
          have hsibling := mem_longhands_of_crossing hpair.symm hmem
          exact ih _ hlt habove (hparent.trans (.longhand hsibling (.refl above))) rfl
      · -- The first comes down to both properties of the pair.
        rcases habove.exists_parent heq with ⟨parent, hparent, hmem⟩
        have hsibling := mem_longhands_of_crossing hpair hmem
        exact ih _ hlt' (hparent.trans (.longhand hsibling (.refl above'))) habove' rfl

/-- The listed shorthands cross. -/
theorem crosses_of_mem_crossings :
    ∀ pair ∈ crossings, ¬ Covers pair.1 pair.2 ∧ ¬ Covers pair.2 pair.1 ∧
      ∃ covered ∈ coveredWithin Priority.levels pair.1, Covers pair.2 covered := by
  decide +kernel

/-- Shorthands that cross have the same rank. -/
theorem ofProperty_eq_of_mem_crossings :
    ∀ pair ∈ crossings, Priority.ofProperty pair.1 = Priority.ofProperty pair.2 := by
  decide +kernel

theorem Crosses.symm {property other : String} (h : Crosses property other) :
    Crosses other property := by
  rcases h.common with ⟨covered, hcovers, hcovers'⟩
  exact ⟨⟨covered, hcovers', hcovers⟩, h.not_covered, h.not_covers⟩

/-- The properties that cross are the pairs of the list. -/
theorem crosses_iff {property other : String} :
    Crosses property other ↔ (property, other) ∈ crossings ∨ (other, property) ∈ crossings := by
  have hpairs : ∀ first second, (first, second) ∈ crossings → Crosses first second := by
    intro first second hmem
    rcases crosses_of_mem_crossings (first, second) hmem with
      ⟨hnot, hnot', covered, hcovered, hcovers⟩
    exact ⟨⟨covered, covers_iff.2 hcovered, hcovers⟩, hnot, hnot'⟩
  constructor
  · rintro ⟨⟨covered, hcovers, hcovers'⟩, hnot, hnot'⟩
    exact mem_crossings_of_covers hcovers hcovers' hnot hnot'
  · rintro (hmem | hmem)
    · exact hpairs property other hmem
    · exact (hpairs other property hmem).symm

/-- Crossing properties have one rank, so that only the texts of their rules order them. -/
theorem Crosses.ofProperty_eq {property other : String} (h : Crosses property other) :
    Priority.ofProperty property = Priority.ofProperty other := by
  rcases crosses_iff.1 h with hmem | hmem
  · exact ofProperty_eq_of_mem_crossings (property, other) hmem
  · exact (ofProperty_eq_of_mem_crossings (other, property) hmem).symm

end Property

end AtomicCss
