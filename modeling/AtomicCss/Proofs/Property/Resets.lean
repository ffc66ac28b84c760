import AtomicCss.Proofs.Property.Covers
/-!
# What a property resets

A property resets what its longhands cover, and the physical sides that it or something it covers
can land on (`covers_of_mem_resets`). All of it has a higher rank than the property
(`ofProperty_lt_of_mem_resets`).
-/

namespace AtomicCss

namespace Property

theorem covers_of_mem_overriddenWithin {level : Nat} {property other : String}
    (h : other ∈ overriddenWithin level property) :
    (∃ covered, Covers property covered ∧ other ∈ physicalSides covered) ∨
      ∃ child ∈ longhands property, Covers child other := by
  induction level generalizing property with
  | zero => cases h
  | succ level ih =>
    rw [overriddenWithin] at h
    rcases List.mem_append.1 h with hside | hbelow
    · exact .inl ⟨property, .refl property, hside⟩
    · rcases List.mem_flatMap.1 hbelow with ⟨child, hchild, hmem⟩
      rcases List.mem_cons.1 hmem with rfl | hmem
      · exact .inr ⟨other, hchild, .refl other⟩
      · -- What a longhand overrides is overridden by the property.
        rcases ih hmem with ⟨covered, hcovers, hside⟩ | ⟨below, hbelow, hcovers⟩
        · exact .inl ⟨covered, .longhand hchild hcovers, hside⟩
        · exact .inr ⟨child, hchild, .longhand hbelow hcovers⟩

/-- What a property resets is a physical side of something that it covers, or covered by one of its
longhands. -/
theorem covers_of_mem_resets {property other : String} (h : other ∈ resets property) :
    (∃ covered, Covers property covered ∧ other ∈ physicalSides covered) ∨
      ∃ child ∈ longhands property, Covers child other := by
  rw [resets, KeyMap.mem_keys_ofList, List.map_map] at h
  rcases List.mem_map.1 h with ⟨name, hname, rfl⟩
  exact covers_of_mem_overriddenWithin hname

/-! ## Ranks -/

/-- A logical side ranks below the physical sides that it may be. -/
theorem ofProperty_lt_of_row :
    ∀ row ∈ logicalTable, ∀ side ∈ row.2,
      Priority.ofProperty row.1 < Priority.ofProperty side := by
  decide +kernel

/-- A physical property comes behind the logical ones that can land on it. -/
theorem ofProperty_lt_of_mem_physicalSides {property side : String}
    (h : side ∈ physicalSides property) :
    Priority.ofProperty property < Priority.ofProperty side :=
  ofProperty_lt_of_row _ (mem_table_of_mem_lookup h) side h

/-- A shorthand does not rank above what it covers. -/
theorem ofProperty_le_of_covers {property covered : String} (h : Covers property covered) :
    Priority.ofProperty property ≤ Priority.ofProperty covered := by
  by_cases heq : property = covered
  · exact Nat.le_of_eq (congrArg Priority.ofProperty heq)
  · exact Nat.le_of_lt (ofProperty_lt_of_covers h heq)

/-- What a property resets comes behind it, so that it wins over the property. -/
theorem ofProperty_lt_of_mem_resets {property other : String} (h : other ∈ resets property) :
    Priority.ofProperty property < Priority.ofProperty other := by
  rcases covers_of_mem_resets h with ⟨covered, hcovers, hside⟩ | ⟨child, hchild, hcovers⟩
  · exact Nat.lt_of_le_of_lt (ofProperty_le_of_covers hcovers)
      (ofProperty_lt_of_mem_physicalSides hside)
  · exact Nat.lt_of_lt_of_le (ofProperty_lt_of_mem_longhands hchild)
      (ofProperty_le_of_covers hcovers)

end Property

end AtomicCss
