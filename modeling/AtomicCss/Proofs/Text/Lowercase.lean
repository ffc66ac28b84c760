import AtomicCss.Proofs.Token.Reads
import AtomicCss.Text.Affix
import Mathlib
/-!
# Texts in lower case

Turning a text to lower case a second time changes nothing, and a name stays a name.
-/

namespace AtomicCss

open Token (isNameStart isNameChar IsName)

/-- Letters that are lower case already stay as they are. -/
theorem lowercase_lowercase (cs : List Char) : lowercase (lowercase cs) = lowercase cs := by
  rw [lowercase, lowercase, List.map_map]
  exact List.map_congr_left fun c _ => Char.toLower_toLower_eq_toLower c

theorem toLower_of_isAlpha_eq_false {c : Char} (h : c.isAlpha = false) : c.toLower = c := by
  refine Char.toLower_eq_of_not_isUpper fun hupper => ?_
  simp [Char.isAlpha, hupper] at h

/-- A class of characters with all letters in it is closed under lower case. -/
theorem toLower_class {p : Char → Bool} (h : ∀ c, c.isAlpha → p c) (c : Char) :
    p c.toLower = p c := by
  cases hc : c.isAlpha with
  | true => rw [h c hc, h c.toLower (by rw [Char.isAlpha_toLower_eq_isAlpha, hc])]
  | false => rw [toLower_of_isAlpha_eq_false hc]

/-- No other character becomes one that is no letter. -/
theorem toLower_eq_iff {c d : Char} (hd : d.isAlpha = false) : c.toLower = d ↔ c = d := by
  constructor
  · rintro rfl
    rw [Char.isAlpha_toLower_eq_isAlpha] at hd
    exact (toLower_of_isAlpha_eq_false hd).symm
  · rintro rfl
    exact toLower_of_isAlpha_eq_false hd

/-- A name may begin with a letter in either case. -/
theorem isNameStart_toLower (c : Char) : isNameStart c.toLower = isNameStart c :=
  toLower_class (fun c hc => by simp [isNameStart, hc]) c

/-- A name may go on with a letter in either case. -/
theorem isNameChar_toLower (c : Char) : isNameChar c.toLower = isNameChar c :=
  toLower_class (fun c hc => by simp [isNameChar, Char.isAlphanum, hc]) c

/-- A name in lower case is a name. -/
theorem isName_lowercase {name : List Char} (h : IsName name) : IsName (lowercase name) := by
  have hrest : ∀ tail : List Char, (∀ c ∈ tail, isNameChar c) →
      ∀ c ∈ lowercase tail, isNameChar c := by
    intro tail htail c hc
    obtain ⟨d, hd, rfl⟩ := List.mem_map.1 hc
    rw [isNameChar_toLower]
    exact htail d hd
  cases h with
  | plain hc htail => exact .plain (by rwa [isNameStart_toLower]) (hrest _ htail)
  | dash hc htail => exact .dash (by rwa [isNameStart_toLower]) (hrest _ htail)
  | dashes hc htail => exact .dashes (by rwa [isNameStart_toLower]) (hrest _ htail)

end AtomicCss
