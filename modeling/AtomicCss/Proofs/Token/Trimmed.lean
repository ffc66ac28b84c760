import AtomicCss.Proofs.Token.Boundary
import AtomicCss.Text.Blank
/-!
# Blanks at the ends of a text

Trimming takes blanks off the ends of a text and nothing else, and it takes nothing off the text of
lexemes, since a token begins and ends with a visible character.
-/

namespace AtomicCss

open Token (Reads Ends beginsWithAny)

/-! ## Trimming -/

/-- Trimming the end brings nothing else to the front. -/
theorem begins_trimEnd {p : Char → Bool} {cs : List Char} (h : beginsWithAny p cs = false) :
    beginsWithAny p (trimEnd cs) = false := by
  cases cs with
  | nil => rfl
  | cons c cs =>
    rw [trimEnd, List.foldr_cons]
    split
    · rfl
    · exact h

/-- A text that ends with something else than a blank keeps its end. -/
theorem trimEnd_append_singleton (init : List Char) {c : Char} (h : isBlank c = false) :
    trimEnd (init ++ [c]) = init ++ [c] := by
  induction init with
  | nil => simp [trimEnd, h]
  | cons d init ih =>
    rw [trimEnd] at ih
    rw [List.cons_append, trimEnd, List.foldr_cons, ih]
    simp

/-- No blank is left in front. -/
theorem isBlank_trim (cs : List Char) : beginsWithAny isBlank (trim cs) = false :=
  begins_trimEnd Token.beginsWithAny_dropWhile

/-- No blank is left at the end. -/
theorem isBlank_getLast?_trim {cs : List Char} : ∀ c ∈ (trim cs).getLast?, isBlank c = false := by
  rw [trim]
  induction cs.dropWhile isBlank with
  | nil => simp [trimEnd]
  | cons c cs ih =>
    rw [trimEnd, List.foldr_cons, ← trimEnd]
    split
    · simp
    · rename_i hkept
      cases htail : trimEnd cs with
      | nil => simpa [htail] using hkept
      | cons d tail =>
        rw [htail] at ih
        simpa using ih

/-- A text without blanks at its ends stays as it is. -/
theorem trim_eq_self {cs : List Char} (hfront : beginsWithAny isBlank cs = false)
    (hback : ∀ c ∈ cs.getLast?, isBlank c = false) : trim cs = cs := by
  rw [trim, Token.dropWhile_eq_self hfront]
  rcases List.eq_nil_or_concat cs with rfl | ⟨init, c, rfl⟩
  · rfl
  · rw [List.concat_eq_append] at *
    exact trimEnd_append_singleton init (hback c (by simp))

theorem trim_trim (cs : List Char) : trim (trim cs) = trim cs :=
  trim_eq_self (isBlank_trim cs) isBlank_getLast?_trim

/-! ## Visible characters -/

/-- The visible characters of ASCII. -/
def isGraphic (c : Char) : Bool :=
  0x21 ≤ c.toNat && c.toNat ≤ 0x7e

theorem isBlank_of_isGraphic {c : Char} (h : isGraphic c) : isBlank c = false := by
  simp only [isGraphic, Bool.and_eq_true, decide_eq_true_eq] at h
  refine Bool.eq_false_iff.2 fun hblank => ?_
  simp only [isBlank, Bool.or_eq_true, Bool.and_eq_true, decide_eq_true_eq, beq_iff_eq] at hblank
  omega

/-- That a text begins and ends with visible characters. -/
structure IsTrimmed (cs : List Char) : Prop where
  front : beginsWithAny isGraphic cs
  back : ∃ init c, cs = init ++ [c] ∧ isGraphic c

/-- Nothing is trimmed off a text that begins and ends with visible characters. -/
theorem IsTrimmed.trim_eq {cs : List Char} (h : IsTrimmed cs) : trim cs = cs := by
  obtain ⟨init, c, hcs, hc⟩ := h.back
  refine trim_eq_self (Token.beginsWithAny_eq_false h.front fun c hblank => ?_) fun d hd => ?_
  · by_contra hgraphic
    rw [isBlank_of_isGraphic (by simpa using hgraphic)] at hblank
    contradiction
  · rw [hcs, List.getLast?_concat] at hd
    obtain rfl := Option.some.inj hd
    exact isBlank_of_isGraphic hc

/-- A text without blanks is trimmed. -/
theorem isTrimmed_of_forall {cs : List Char} (hne : cs ≠ []) (h : ∀ c ∈ cs, isGraphic c) :
    IsTrimmed cs := by
  have hlast := List.dropLast_concat_getLast hne
  refine ⟨?_, _, _, hlast.symm, h _ (List.getLast_mem hne)⟩
  cases cs with
  | nil => exact absurd rfl hne
  | cons c cs => exact h c (by simp)

theorem isGraphic_of_isNameChar {c : Char} (h : Token.isNameChar c) : isGraphic c := by
  obtain ((halpha | hdigit) | rfl) | rfl : ((c.isAlpha ∨ c.isDigit) ∨ c = '_') ∨ c = '-' := by
    simpa [Token.isNameChar, Char.isAlphanum] using h
  · rw [Token.isAlpha_iff_toNat] at halpha
    simp only [isGraphic, Bool.and_eq_true, decide_eq_true_eq]
    omega
  · have hrange : 48 ≤ c.toNat ∧ c.toNat ≤ 57 := Char.isDigit_iff_toNat.1 hdigit
    simp only [isGraphic, Bool.and_eq_true, decide_eq_true_eq]
    omega
  · rfl
  · rfl

theorem isGraphic_of_isMantissaChar {c : Char} (h : Token.isMantissaChar c) : isGraphic c := by
  simp only [Token.isMantissaChar, Bool.or_eq_true, beq_iff_eq] at h
  obtain ((h | rfl) | rfl) | rfl := h
  · exact isGraphic_of_isNameChar (by simp [Token.isNameChar, Char.isAlphanum, h])
  · rfl
  · rfl
  · rfl

theorem isGraphic_of_isUnitChar {c : Char} (h : Token.isUnitChar c) : isGraphic c := by
  obtain h | rfl : c.isAlpha ∨ c = '%' := by simpa [Token.isUnitChar] using h
  · exact isGraphic_of_isNameChar (by simp [Token.isNameChar, Char.isAlphanum, h])
  · rfl

/-! ## The text of lexemes -/

theorem isGraphic_of_mem_exponent {exponent : List Char} (h : Token.IsExponent exponent) :
    ∀ c ∈ exponent, isGraphic c := by
  obtain ⟨he, hsign, hd, htail⟩ := h
  rename_i e d sign tail
  have hdigit : ∀ c ∈ d :: tail, isGraphic c := by
    intro c hc
    have hc : c.isDigit := by
      rcases List.mem_cons.1 hc with rfl | hc
      · exact hd
      · exact htail c hc
    exact isGraphic_of_isMantissaChar (Token.isMantissaChar_of_isDigit hc)
  have hfront : ∀ c ∈ e :: sign, isGraphic c := by
    rcases he with rfl | rfl <;> rcases hsign with rfl | rfl | rfl <;>
      exact List.all_eq_true.1 (by decide)
  intro c hc
  rw [← List.cons_append] at hc
  rcases List.mem_append.1 hc with hc | hc
  · exact hfront c hc
  · exact hdigit c hc

/-- A number has no blanks in it. -/
theorem isGraphic_of_numeric {token : Token} {rest : List Char} (h : Token.EndsNumeric token rest) :
    ∀ c ∈ token.text, isGraphic c := by
  intro c hc
  cases h with
  | cutShort hmantissa he =>
    rcases List.mem_append.1 hc with hc | hc
    · exact isGraphic_of_isMantissaChar (hmantissa.isMantissaChar c hc)
    · obtain rfl := List.mem_singleton.1 hc
      rcases he with rfl | rfl <;> decide
  | number hmantissa hexponent =>
    rcases List.mem_append.1 hc with hc | hc
    · exact isGraphic_of_isMantissaChar (hmantissa.isMantissaChar c hc)
    · rcases hexponent with rfl | ⟨hexponent, -⟩
      · contradiction
      · exact isGraphic_of_mem_exponent hexponent c hc
  | dimension hmantissa hexponent hunit =>
    rcases List.mem_append.1 hc with hc | hc
    · rcases List.mem_append.1 hc with hc | hc
      · exact isGraphic_of_isMantissaChar (hmantissa.isMantissaChar c hc)
      · rcases hexponent with rfl | hexponent
        · contradiction
        · exact isGraphic_of_mem_exponent hexponent c hc
    · exact isGraphic_of_isUnitChar (hunit.isUnitChar c hc)

/-- A token begins and ends with a visible character. -/
theorem Token.Ends.isTrimmed {token : Token} {rest : List Char} (h : Ends token rest) :
    IsTrimmed token.text := by
  have hne := h.text_ne_nil
  -- Blanks stand only inside of strings, addresses and marks of importance, never at their ends.
  cases h with
  | numeric h => exact isTrimmed_of_forall hne (isGraphic_of_numeric (ends_of_scanNumeric? h))
  | ident hname =>
    exact isTrimmed_of_forall hne fun c hc => isGraphic_of_isNameChar (hname.isNameChar c hc)
  | function hname =>
    refine isTrimmed_of_forall hne fun c hc => ?_
    rcases List.mem_append.1 hc with hc | hc
    · exact isGraphic_of_isNameChar (hname.isNameChar c hc)
    · obtain rfl := List.mem_singleton.1 hc
      rfl
  | urlFunction => exact isTrimmed_of_forall hne (List.all_eq_true.1 (by decide))
  | url => exact ⟨rfl, _, ')', rfl, rfl⟩
  | doubleQuoted => exact ⟨rfl, _, '"', rfl, rfl⟩
  | singleQuoted => exact ⟨rfl, _, '\'', rfl, rfl⟩
  | hash _ hname =>
    exact isTrimmed_of_forall hne
      (List.forall_mem_cons.2 ⟨rfl, fun c hc => isGraphic_of_isNameChar (hname c hc)⟩)
  | @important blanks =>
    exact ⟨rfl, '!' :: blanks ++ importantWord.dropLast, 't', by simp [importantWord], rfl⟩
  | punctuation hkind =>
    have hgraphic : Token.punctuation.all (isGraphic ·.1) := by decide
    exact isTrimmed_of_forall hne
      (List.forall_mem_singleton.2 (List.all_eq_true.1 hgraphic _ (mem_punctuation hkind)))

/-- The last token that is read ends the text of the lexemes. -/
theorem exists_back_of_reads {lexeme : Lexeme} {rest : List Lexeme}
    (h : Reads (Lexeme.spell (lexeme :: rest)) (lexeme :: rest)) :
    ∃ init c, Lexeme.spell (lexeme :: rest) = init ++ [c] ∧ isGraphic c := by
  induction rest generalizing lexeme with
  | nil =>
    obtain ⟨init, c, htext, hc⟩ := (ends_of_reads_spell h).isTrimmed.back
    refine ⟨lexeme.gap ++ init, c, ?_, hc⟩
    rw [Lexeme.spell_cons, htext]
    simp [Lexeme.spell]
  | cons next rest ih =>
    obtain ⟨init, c, hspell, hc⟩ := ih (reads_spell_cons h).2
    refine ⟨lexeme.gap ++ (lexeme.token.text ++ init), c, ?_, hc⟩
    rw [Lexeme.spell_cons, hspell]
    simp

/-- The text of lexemes has no blanks at its ends. -/
theorem isTrimmed_of_reads {lexeme : Lexeme} {rest : List Lexeme}
    (h : Reads (Lexeme.spell (lexeme :: rest)) (lexeme :: rest)) (hgap : lexeme.gap = []) :
    IsTrimmed (Lexeme.spell (lexeme :: rest)) := by
  refine ⟨?_, exists_back_of_reads h⟩
  have hends := ends_of_reads_spell h
  have hfront := hends.isTrimmed.front
  rw [Lexeme.spell_cons, hgap, List.nil_append]
  cases htext : lexeme.token.text with
  | nil => exact absurd htext hends.text_ne_nil
  | cons c cs =>
    rw [htext] at hfront
    exact hfront

end AtomicCss
