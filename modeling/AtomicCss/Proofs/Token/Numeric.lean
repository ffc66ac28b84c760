import AtomicCss.Proofs.Decimal.Numeral
/-!
# Numbers and dimensions in a text

Numbers are put together from signs, digits, exponents and units. The parts that the scanner finds in
a dimension are those that `splitDimension` finds in its text (`splitDimension_append`).
-/

namespace AtomicCss.Token

/-! ## Parts of numbers -/

theorem isMantissaChar_of_isDigit {c : Char} (h : c.isDigit) : isMantissaChar c := by
  simp [isMantissaChar, h]

theorem isMantissaChar_of_mem_spanSign {cs : List Char} :
    ∀ c ∈ (spanSign cs).1, isMantissaChar c := by
  unfold spanSign
  split <;> simp [isMantissaChar]

theorem isMantissaChar_of_mem_spanFraction {cs : List Char} :
    ∀ c ∈ (spanFraction cs).1, isMantissaChar c := by
  unfold spanFraction
  split
  · split
    · rename_i hd
      intro c hc
      obtain rfl | rfl | hc := by simpa using hc
      · rfl
      · exact isMantissaChar_of_isDigit hd
      · exact isMantissaChar_of_isDigit (forall_mem_takeWhile c hc)
    · simp
  · simp

/-- A mantissa has only digits, signs and points. -/
theorem isMantissaChar_of_spanMantissa? {cs mantissa rest : List Char}
    (h : spanMantissa? cs = some (mantissa, rest)) : ∀ c ∈ mantissa, isMantissaChar c := by
  simp only [spanMantissa?] at h
  split at h
  · simp at h
  · obtain ⟨rfl, rfl⟩ := by simpa using h
    intro c hc
    obtain hc | hc | hc := by simpa using hc
    · exact isMantissaChar_of_mem_spanSign c hc
    · exact isMantissaChar_of_isDigit (forall_mem_takeWhile c hc)
    · exact isMantissaChar_of_mem_spanFraction c hc

/-- An exponent as the lexer reads it: an `e`, perhaps a sign, and digits. -/
inductive IsExponent : List Char → Prop
  | intro {e d : Char} {sign tail : List Char} (he : e = 'e' ∨ e = 'E')
    (hsign : sign = [] ∨ sign = ['+'] ∨ sign = ['-']) (hd : d.isDigit)
    (htail : ∀ c ∈ tail, c.isDigit) : IsExponent (e :: (sign ++ d :: tail))

/-- There is one sign in front of a number, or none. -/
theorem spanSign_cases (cs : List Char) :
    (spanSign cs).1 = [] ∨ (spanSign cs).1 = ['+'] ∨ (spanSign cs).1 = ['-'] := by
  unfold spanSign
  split <;> simp

/-- An exponent takes all digits that follow, or there is none. -/
theorem spanExponent_cases (cs : List Char) :
    (spanExponent cs).1 = [] ∨
      IsExponent (spanExponent cs).1 ∧ beginsWithAny Char.isDigit (spanExponent cs).2 = false := by
  unfold spanExponent
  split
  · exact .inl rfl
  · split
    · rename_i he
      split
      · exact .inl rfl
      · split
        · rename_i hd
          exact .inr ⟨.intro he (spanSign_cases _) hd forall_mem_takeWhile, beginsWithAny_dropWhile⟩
        · exact .inl rfl
    · exact .inl rfl

/-- A sign in front of a digit is found. -/
theorem spanSign_append_digit {sign rest : List Char} {d : Char}
    (hsign : sign = [] ∨ sign = ['+'] ∨ sign = ['-']) (hd : d.isDigit) :
    spanSign (sign ++ d :: rest) = (sign, d :: rest) := by
  obtain rfl | rfl | rfl := hsign
  · refine spanSign_cons ⟨?_, ?_⟩ <;> rintro rfl <;> exact absurd hd (by decide)
  · rfl
  · rfl

/-- An exponent that no digit follows is found. -/
theorem spanExponent_of_isExponent {exponent rest : List Char} (h : IsExponent exponent)
    (hrest : beginsWithAny Char.isDigit rest = false) :
    spanExponent (exponent ++ rest) = (exponent, rest) := by
  obtain ⟨he, hsign, hd, htail⟩ := h
  simp only [List.cons_append, List.append_assoc, spanExponent, if_pos he,
    spanSign_append_digit hsign hd, if_pos hd, takeWhile_append_eq htail hrest,
    dropWhile_append_eq htail hrest]

/-- No exponent, complete or cut short, begins without an `e`. -/
theorem spanExponent_cons {c : Char} {rest : List Char} (hc : c ≠ 'e' ∧ c ≠ 'E') :
    spanExponent (c :: rest) = ([], c :: rest) ∧ startsDanglingExponent (c :: rest) = false := by
  simp [spanExponent, startsDanglingExponent, hc]

/-! ## Units -/

/-- A percent sign, or at least one letter. -/
def IsUnit (unit : List Char) : Prop :=
  unit = ['%'] ∨ unit ≠ [] ∧ ∀ c ∈ unit, c.isAlpha

def isUnitChar (c : Char) : Bool :=
  c.isAlpha || c == '%'

theorem isAlpha_of_isUnitChar {cs : List Char} (h : beginsWithAny isUnitChar cs = false) :
    beginsWithAny Char.isAlpha cs = false :=
  beginsWithAny_mono h fun c hc => by simp [isUnitChar, hc]

/-- A unit has only letters and percent signs. -/
theorem IsUnit.isUnitChar {unit : List Char} (h : IsUnit unit) : ∀ c ∈ unit, isUnitChar c := by
  obtain rfl | ⟨-, h⟩ := h
  · exact List.all_eq_true.1 (by decide)
  · intro c hc
    simp [Token.isUnitChar, h c hc]

theorem IsUnit.ne_nil {unit : List Char} (h : IsUnit unit) : unit ≠ [] := by
  obtain rfl | ⟨h, -⟩ := h
  · simp
  · exact h

/-- What stands in a unit does not stand in a mantissa. -/
theorem isMantissaChar_of_isUnitChar {c : Char} (h : isUnitChar c) : isMantissaChar c = false := by
  simp only [isUnitChar, Bool.or_eq_true, beq_iff_eq] at h
  obtain h | rfl := h
  · exact isMantissaChar_of_isNameStart (by simp [isNameStart, h])
  · decide

/-- What stands in a unit is no digit. -/
theorem isDigit_of_isUnitChar {c : Char} (h : isUnitChar c) : c.isDigit = false := by
  have hmantissa := isMantissaChar_of_isUnitChar h
  simp only [isMantissaChar, Bool.or_eq_false_iff] at hmantissa
  exact hmantissa.1.1.1

/-- A unit begins with no character of a class apart from those of units. -/
theorem IsUnit.apart {p : Char → Bool} {unit : List Char} (h : IsUnit unit)
    (hp : ∀ c, Token.isUnitChar c → p c = false) : beginsWithAny p unit = false := by
  have hunit := h.isUnitChar
  cases unit with
  | nil => rfl
  | cons c tail => exact hp c (hunit c (by simp))

/-- A unit is no exponent: no digit follows its first letter. -/
theorem spanExponent_of_isUnit {unit : List Char} (h : IsUnit unit) :
    spanExponent unit = ([], unit) := by
  have hunit := h.isUnitChar
  cases unit with
  | nil => rfl
  | cons c tail =>
    have htail : (spanSign tail).2 = tail := by
      cases tail with
      | nil => rfl
      | cons d tail =>
        have hd : isMantissaChar d = false := isMantissaChar_of_isUnitChar (hunit d (by simp))
        rw [spanSign_cons (ne_sign_of_isMantissaChar hd)]
    cases tail with
    | nil => simp [spanExponent, spanSign]
    | cons d tail =>
      have hd : d.isDigit = false := isDigit_of_isUnitChar (hunit d (by simp))
      simp [spanExponent, htail, hd]

/-- The parts of a dimension are found again in its text. -/
theorem splitDimension_append {mantissa exponent unit : List Char}
    (hmantissa : ∀ c ∈ mantissa, isMantissaChar c)
    (hexponent : exponent = [] ∨ IsExponent exponent) (hunit : IsUnit unit) :
    splitDimension (mantissa ++ (exponent ++ unit)) = (mantissa ++ exponent, unit) := by
  have hspan : spanExponent (exponent ++ unit) = (exponent, unit) := by
    obtain rfl | hexponent := hexponent
    · exact spanExponent_of_isUnit hunit
    · exact spanExponent_of_isExponent hexponent (hunit.apart fun _ => isDigit_of_isUnitChar)
  -- The mantissa is found again, since neither an exponent nor a unit begins like one.
  have hfront : beginsWithAny isMantissaChar (exponent ++ unit) = false := by
    obtain rfl | ⟨he, -, -, -⟩ := hexponent
    · exact hunit.apart fun _ => isMantissaChar_of_isUnitChar
    · obtain rfl | rfl := he <;> rfl
  simp only [splitDimension, takeWhile_append_eq hmantissa hfront,
    dropWhile_append_eq hmantissa hfront, hspan]

/-! ## Numbers and dimensions -/

/-- Either no unit begins here, or one is found that takes all letters that follow. -/
theorem spanUnit_cases (cs : List Char) :
    ((spanUnit cs).1 = [] ∧ (spanUnit cs).2 = cs ∧ beginsWithAny isUnitChar cs = false) ∨
      IsUnit (spanUnit cs).1 ∧
        ((spanUnit cs).1 = ['%'] ∨ beginsWithAny Char.isAlpha (spanUnit cs).2 = false) := by
  unfold spanUnit
  split
  · exact .inr ⟨.inl rfl, .inl rfl⟩
  · rename_i hpercent
    cases halpha : beginsWithAny Char.isAlpha cs with
    | false =>
      -- Neither a percent sign nor a letter: nothing is spanned.
      refine .inl ⟨takeWhile_eq_nil halpha, dropWhile_eq_self halpha, ?_⟩
      cases cs with
      | nil => rfl
      | cons c cs =>
        have hc : c ≠ '%' := by
          rintro rfl
          exact hpercent cs rfl
        simpa [isUnitChar, hc] using halpha
    | true =>
      refine .inr ⟨.inr ⟨?_, forall_mem_takeWhile⟩, .inr beginsWithAny_dropWhile⟩
      cases cs with
      | nil => simp at halpha
      | cons c cs => simp [List.takeWhile_cons_of_pos (p := Char.isAlpha) halpha]

/-- Where no unit begins, none is found. -/
theorem spanUnit_eq_nil {cs : List Char} (h : beginsWithAny isUnitChar cs = false) :
    spanUnit cs = ([], cs) := by
  have halpha := isAlpha_of_isUnitChar h
  unfold spanUnit
  split
  · exact absurd h (by simp [isUnitChar])
  · rw [takeWhile_eq_nil halpha, dropWhile_eq_self halpha]

/-- A unit that no letter follows is found. A percent sign needs no end. -/
theorem spanUnit_append_rest {unit rest : List Char} (hunit : IsUnit unit)
    (hrest : unit = ['%'] ∨ beginsWithAny Char.isAlpha rest = false) :
    spanUnit (unit ++ rest) = (unit, rest) := by
  obtain rfl | ⟨hne, halpha⟩ := hunit
  · rfl
  · cases unit with
    | nil => exact absurd rfl hne
    | cons c tail =>
      -- A percent sign is no letter, so the letters are spanned as such.
      have hc : c ≠ '%' := by
        rintro rfl
        exact absurd (halpha '%' (by simp)) (by decide)
      have hrest : beginsWithAny Char.isAlpha rest = false :=
        hrest.resolve_left fun h => hc (List.cons.inj h).1
      rw [List.cons_append, spanUnit]
      · rw [← List.cons_append, takeWhile_append_eq halpha hrest, dropWhile_append_eq halpha hrest]
      · rintro _ ⟨⟩
        exact hc rfl

/-- A unit is not taken for an exponent, unless it is only the letter of one. -/
theorem spanExponent_unit_append {unit rest : List Char} (hunit : IsUnit unit)
    (hlone : unit ≠ ['e'] ∧ unit ≠ ['E']) :
    spanExponent (unit ++ rest) = ([], unit ++ rest) ∧
      startsDanglingExponent (unit ++ rest) = false := by
  have hchar := hunit.isUnitChar
  match unit, hunit.ne_nil with
  | [c], _ =>
    have hc : c ≠ 'e' ∧ c ≠ 'E' := by
      simpa using hlone
    exact spanExponent_cons hc
  | c :: d :: tail, _ =>
    have hd : isMantissaChar d = false := isMantissaChar_of_isUnitChar (hchar d (by simp))
    have hdigit : d.isDigit = false := isDigit_of_isUnitChar (hchar d (by simp))
    simp [spanExponent, startsDanglingExponent, spanSign_cons (ne_sign_of_isMantissaChar hd), hdigit]

/-- In front of what begins like no unit there is no exponent. -/
theorem spanExponent_of_apart {rest : List Char} (h : beginsWithAny isUnitChar rest = false) :
    spanExponent rest = ([], rest) ∧ startsDanglingExponent rest = false := by
  cases rest with
  | nil => exact ⟨rfl, rfl⟩
  | cons c rest =>
    rw [beginsWithAny_cons] at h
    refine spanExponent_cons ⟨?_, ?_⟩ <;> rintro rfl <;> exact absurd h (by decide)

/-! ## Numerals as tokens -/

section Numeral

open Decimal

variable {n : Numeral} {unit rest : List Char}

/-- A numeral is spelled as a mantissa. -/
theorem isMantissaChar_of_mem_spell : ∀ c ∈ n.spell, isMantissaChar c := by
  intro c hc
  obtain hc | hc | hc : c ∈ (if n.negative then ['-'] else []) ∨ c ∈ n.whole ∨
      c ∈ Numeral.point n.fraction := by
    simpa [Numeral.spell] using hc
  · split at hc <;> simp_all [isMantissaChar]
  · exact isMantissaChar_of_isDigit (n.isDigit_whole c hc)
  · unfold Numeral.point at hc
    split at hc
    · simp at hc
    · obtain rfl | hc := List.mem_cons.1 hc
      · rfl
      · exact isMantissaChar_of_isDigit (n.isDigit_fraction c hc)

/-- A dimension is split between the numeral and the unit that it is put together from. -/
theorem splitDimension_spell (hunit : IsUnit unit) :
    splitDimension (n.spell ++ unit) = (n.spell, unit) := by
  have hsplit := splitDimension_append (isMantissaChar_of_mem_spell (n := n)) (.inl rfl) hunit
  rwa [List.nil_append, List.append_nil] at hsplit

/-- The sign of a numeral is found, and its whole part is left. -/
theorem spanSign_spell :
    spanSign (n.spell ++ rest) = (if n.negative then ['-'] else [],
      n.whole ++ (Numeral.point n.fraction ++ rest)) := by
  cases hneg : n.negative with
  | true => simp [Numeral.spell, hneg, spanSign]
  | false =>
    have hfront := n.beginsWithAny_unsigned rest
    simp only [Numeral.spell, hneg, Bool.false_eq_true, if_false, List.nil_append]
    rw [List.append_assoc] at *
    unfold spanSign
    split
    · rename_i heq
      rw [heq] at hfront
      simp at hfront
    · rename_i heq
      rw [heq] at hfront
      simp at hfront
    · rfl

theorem isDigit_of_startsUnsigned (h : startsUnsigned rest = false) :
    beginsWithAny Char.isDigit rest = false := by
  cases rest with
  | nil => rfl
  | cons c rest =>
    by_contra hc
    rw [startsUnsigned_of_isDigit (by simpa using hc)] at h
    contradiction

/-- Where no unsigned number goes on, there is no fraction. -/
theorem spanFraction_eq_self (h : startsUnsigned rest = false) : spanFraction rest = ([], rest) := by
  have hnil := (spanFraction_eq_nil_iff (isDigit_of_startsUnsigned h)).2 h
  have happend := spanFraction_append rest
  rw [hnil, List.nil_append] at happend
  exact Prod.ext hnil happend

/-- The fraction of a numeral is found behind its whole part. -/
theorem spanFraction_point (hrest : startsUnsigned rest = false) :
    spanFraction (Numeral.point n.fraction ++ rest) = (Numeral.point n.fraction, rest) := by
  have hdigit := isDigit_of_startsUnsigned hrest
  have hfraction := n.isDigit_fraction
  cases hcs : n.fraction with
  | nil => exact spanFraction_eq_self hrest
  | cons d ds =>
    rw [hcs] at hfraction
    obtain ⟨hd, hds⟩ := List.forall_mem_cons.1 hfraction
    simp [Numeral.point, spanFraction, hd, takeWhile_append_eq hds hdigit,
      dropWhile_append_eq hds hdigit]

/-- A numeral is found as a whole, unless an unsigned number goes on behind it. -/
theorem spanMantissa?_spell (hrest : startsUnsigned rest = false) :
    spanMantissa? (n.spell ++ rest) = some (n.spell, rest) := by
  have hdigit : beginsWithAny Char.isDigit (Numeral.point n.fraction ++ rest) = false := by
    unfold Numeral.point
    split
    · exact isDigit_of_startsUnsigned hrest
    · rfl
  have hne : (n.whole.isEmpty && (Numeral.point n.fraction).isEmpty) = false := by
    have hdigits := n.digits_ne_nil
    cases hw : n.whole <;> cases hf : n.fraction <;> simp_all [Numeral.point]
  rw [spanMantissa?, spanSign_spell]
  simp only [takeWhile_append_eq n.isDigit_whole hdigit, dropWhile_append_eq n.isDigit_whole hdigit,
    spanFraction_point hrest, hne, Bool.false_eq_true, if_false, Numeral.spell, List.append_assoc]

/-- A numeral is a number token if neither a number nor a unit goes on behind it. -/
theorem scanNumeric?_spell (hnumber : startsUnsigned rest = false)
    (hrest : beginsWithAny isUnitChar rest = false) :
    scanNumeric? (n.spell ++ rest) = some (⟨.number, n.spell⟩, rest) := by
  have hexponent := spanExponent_of_apart hrest
  simp [scanNumeric?, spanMantissa?_spell hnumber, hexponent.1, hexponent.2, spanUnit_eq_nil hrest]

/-- A numeral with a unit is a dimension token, unless its unit would begin an exponent. -/
theorem scanNumeric?_spell_unit (hunit : IsUnit unit) (hlone : unit ≠ ['e'] ∧ unit ≠ ['E'])
    (hrest : unit = ['%'] ∨ beginsWithAny Char.isAlpha rest = false) :
    scanNumeric? (n.spell ++ (unit ++ rest)) = some (⟨.dimension, n.spell ++ unit⟩, rest) := by
  have hchar := hunit.isUnitChar
  have hnumber : startsUnsigned (unit ++ rest) = false := by
    cases hcs : unit with
    | nil => exact absurd hcs hunit.ne_nil
    | cons c tail =>
      exact startsUnsigned_cons (isMantissaChar_of_isUnitChar (hchar c (by simp [hcs])))
  have hexponent : spanExponent (unit ++ rest) = ([], unit ++ rest) ∧
      startsDanglingExponent (unit ++ rest) = false :=
    spanExponent_unit_append hunit hlone
  simp [scanNumeric?, spanMantissa?_spell hnumber, hexponent.1, hexponent.2,
    spanUnit_append_rest hunit hrest, hunit.ne_nil]

end Numeral

end AtomicCss.Token
