import AtomicCss.Proofs.Value.Accepted
/-!
# The parts of a dimension

The lexer takes a number and a unit as one token and does not say where one ends and the other
begins. `splitDimension` finds that place again in the text of the token: the longest front of it that
is a number, and the unit behind that (`splitDimension_longest`).

A number has the form of a decimal (`IsNumber.read?_ne_none`). So of all tokens only the numbers that
were cut short behind the `e` of an exponent spell no number (`Ends.fault?_eq_expectedNumber_iff`).
-/

namespace AtomicCss.Token

/-! ## The number pattern -/

/-- A number: a mantissa with nothing behind it, and a complete exponent or none. -/
inductive IsNumber : List Char → Prop
  | intro {mantissa exponent : List Char} (hmantissa : EndsMantissa mantissa [])
    (hexponent : exponent = [] ∨ IsExponent exponent) : IsNumber (mantissa ++ exponent)

section Number

variable {text number unit front rest mantissa exponent : List Char}

/-- A mantissa ends with a digit. -/
theorem EndsMantissa.isDigit_of_mem_getLast? (h : EndsMantissa mantissa rest) :
    ∀ c ∈ mantissa.getLast?, c.isDigit := by
  intro c hc
  cases h with
  | whole _ hne hdigits _ =>
    rw [List.getLast?_append_of_ne_nil _ hne] at hc
    exact hdigits c (List.mem_of_mem_getLast? hc)
  | point _ _ hne hfraction _ =>
    rw [List.getLast?_append_of_ne_nil _ (by simp), List.getLast?_append_of_ne_nil _ (by simp),
      List.getLast?_cons_of_ne_nil hne] at hc
    exact hfraction c (List.mem_of_mem_getLast? hc)

/-- An exponent ends with a digit. -/
theorem IsExponent.isDigit_of_mem_getLast? (h : IsExponent exponent) :
    ∀ c ∈ exponent.getLast?, c.isDigit := by
  intro c hc
  cases h with
  | @intro e d sign tail _ _ hd htail =>
    have hdigits : ∀ c ∈ d :: tail, c.isDigit := List.forall_mem_cons.2 ⟨hd, htail⟩
    rw [List.getLast?_cons_of_ne_nil (by simp), List.getLast?_append_of_ne_nil _ (by simp)] at hc
    exact hdigits c (List.mem_of_mem_getLast? hc)

/-- The last character of a number is a digit. -/
theorem IsNumber.isDigit_of_mem_getLast? (h : IsNumber text) : ∀ c ∈ text.getLast?, c.isDigit := by
  obtain ⟨hmantissa, rfl | hexponent⟩ := h
  · rw [List.append_nil]
    exact hmantissa.isDigit_of_mem_getLast?
  · rw [List.getLast?_append_of_ne_nil _ (by rintro rfl; cases hexponent)]
    exact hexponent.isDigit_of_mem_getLast?

/-- A number at the front of a number and a unit has nothing of the unit, or it would not end in a
digit. -/
theorem IsNumber.prefix_of_isUnit (h : IsNumber front) (hunit : IsUnit unit)
    (hfront : front <+: number ++ unit) : front <+: number := by
  rcases List.prefix_or_prefix_of_prefix hfront (List.prefix_append number unit) with
    hnumber | ⟨more, rfl⟩
  · exact hnumber
  · have hmore : more <+: unit := (List.prefix_append_right_inj number).1 hfront
    rcases List.eq_nil_or_concat' more with rfl | ⟨inner, c, rfl⟩
    · rw [List.append_nil]
    · have hdigit : c.isDigit := h.isDigit_of_mem_getLast? c (by simp)
      have hchar : isUnitChar c := hunit.isUnitChar c (hmore.subset (by simp))
      rw [isDigit_of_isUnitChar hchar] at hdigit
      contradiction

end Number

/-! ## Numbers are decimals -/

section Decimal

open Decimal (Numeral read? readUnsigned? readExponent? splitSign)

variable {text sign unsigned mantissa exponent rest : List Char}

theorem splitSign_snd (cs : List Char) : (splitSign cs).2 = (spanSign cs).2 := by
  unfold splitSign
  split
  · rfl
  · rfl
  · rename_i hminus hplus
    rw [spanSign]
    · exact hplus
    · exact hminus

/-- An exponent can be read. -/
theorem exists_readExponent?_eq_some (h : exponent = [] ∨ IsExponent exponent) :
    ∃ k, readExponent? exponent = some k := by
  rcases h with rfl | ⟨he, hsign, hd, htail⟩
  · exact ⟨0, rfl⟩
  · rename_i e d sign tail
    -- The reader's sign is that of the lexer, and what follows it are digits.
    have hsplit := splitSign_snd (sign ++ d :: tail)
    rw [spanSign_append_digit hsign hd] at hsplit
    have hall : (d :: tail).all Char.isDigit := by
      simpa [hd] using htail
    rw [readExponent?, if_pos he]
    simp [hsplit, hall]

/-- A mantissa is a numeral, but that its sign may be a plus. -/
theorem EndsMantissa.exists_numeral (h : EndsMantissa mantissa rest) :
    ∃ sign, ∃ n : Numeral, (sign = [] ∨ sign = ['+'] ∨ sign = ['-']) ∧
      mantissa = sign ++ (n.whole ++ Numeral.point n.fraction) := by
  cases h with
  | @whole sign digits _ hsign hne hdigits _ =>
    refine ⟨sign, ⟨false, digits, [], hdigits, by simp, by simpa using hne⟩, hsign, ?_⟩
    simp [Numeral.point]
  | @point sign whole fraction _ hsign hwhole hne hfraction _ =>
    refine ⟨sign, ⟨false, whole, fraction, hwhole, hfraction, by simp [hne]⟩, hsign, ?_⟩
    simp [Numeral.point, hne]

/-- A number can be read with its sign if it can be without. -/
theorem read?_ne_none_of_unsigned (hsign : sign = [] ∨ sign = ['+'] ∨ sign = ['-'])
    (hfront : beginsWithAny (fun c => c.isDigit || c == '.') unsigned)
    (h : ∀ negative, readUnsigned? negative unsigned ≠ none) : read? (sign ++ unsigned) ≠ none := by
  have hsplit := splitSign_snd (sign ++ unsigned)
  rw [spanSign_append_unsigned hsign hfront] at hsplit
  rw [read?]
  simp only [hsplit]
  -- No number is a word, but a word would be read as well.
  split
  · exact Option.some_ne_none _
  · split
    · exact Option.some_ne_none _
    · exact h _

/-- Every number is read as a decimal. -/
theorem IsNumber.read?_ne_none (h : IsNumber text) : read? text ≠ none := by
  cases h with
  | @intro mantissa exponent hmantissa hexponent =>
    obtain ⟨sign, n, hsign, rfl⟩ := hmantissa.exists_numeral
    obtain ⟨k, hk⟩ := exists_readExponent?_eq_some hexponent
    have hapart : beginsWithAny (fun c => c.isDigit || c == '.') exponent = false := by
      rcases hexponent with rfl | ⟨rfl | rfl, -⟩ <;> rfl
    rw [List.append_assoc]
    refine read?_ne_none_of_unsigned hsign (n.beginsWithAny_unsigned exponent) fun negative => ?_
    rw [Decimal.readUnsigned?_numeral n negative hk hapart]
    exact Option.some_ne_none _

end Decimal

/-! ## Dimensions -/

section Dimension

variable {token : Token} {text rest cs : List Char}

/-- The parts of a text that is a dimension: the longest front of it that is a number, and a unit. -/
structure AreParts (text number unit : List Char) : Prop where
  append : number ++ unit = text
  isNumber : IsNumber number
  longest : ∀ front, front <+: text → IsNumber front → front <+: number
  isUnit : IsUnit unit

/-- A numeric token is a number, a number with a unit, or a number that is cut short. -/
theorem EndsNumeric.number_or_parts (h : EndsNumeric token rest) :
    IsCutShort token ∨ token.kind = .number ∧ IsNumber token.text ∨
      token.kind = .dimension ∧
        AreParts token.text (splitDimension token.text).1 (splitDimension token.text).2 := by
  cases h with
  | @cutShort mantissa _ e hmantissa he _ _ =>
    exact .inl ⟨mantissa, e, rfl, hmantissa.of_apart rfl, he⟩
  | number hmantissa hexponent _ =>
    exact .inr (.inl ⟨rfl, .intro (hmantissa.of_apart rfl) (hexponent.imp_right And.left)⟩)
  | @dimension mantissa exponent unit _ hmantissa hexponent hunit _ _ =>
    have hsplit := splitDimension_append hmantissa.isMantissaChar hexponent hunit
    rw [← List.append_assoc] at hsplit
    refine .inr (.inr ⟨rfl, ?_⟩)
    rw [hsplit]
    exact {
      append := rfl
      isNumber := .intro (hmantissa.of_apart rfl) hexponent
      longest := fun front hfront hnumber => hnumber.prefix_of_isUnit hunit hfront
      isUnit := hunit }

theorem Ends.endsNumeric (h : Ends token rest) (hnumeric : token.isNumeric) :
    EndsNumeric token rest :=
  ends_of_scanNumeric? (h.scanNumeric?_of_isNumeric hnumeric)

/-- A dimension is split into a number and a unit. -/
theorem Ends.parts (h : Ends token rest) (hkind : token.kind = .dimension) :
    AreParts token.text (splitDimension token.text).1 (splitDimension token.text).2 := by
  have hends := h.endsNumeric (by simp [isNumeric, hkind])
  rcases hends.number_or_parts with ⟨mantissa, e, rfl, -⟩ | ⟨hnumber, -⟩ | ⟨-, hparts⟩
  · contradiction
  · rw [hkind] at hnumber
    contradiction
  · exact hparts

/-- The text of a number can be read. -/
theorem numberFault?_ne_expectedNumber (h : IsNumber text) :
    numberFault? text ≠ some .expectedNumber := by
  obtain ⟨x, hx⟩ := Option.ne_none_iff_exists'.1 h.read?_ne_none
  rw [numberFault?, hx]
  simp only
  split <;> simp

/-- Only a number that was cut short spells no number. -/
theorem Ends.fault?_eq_expectedNumber_iff (h : Ends token rest) :
    token.fault? = some .expectedNumber ↔ IsCutShort token := by
  constructor
  · intro hfault
    have hnumeric : token.isNumeric := by
      unfold fault? at hfault
      split at hfault <;> simp_all [isNumeric]
    -- All numbers but those cut short are read.
    rcases (h.endsNumeric hnumeric).number_or_parts with hcut | ⟨hkind, hnumber⟩ | ⟨hkind, hparts⟩
    · exact hcut
    · rw [fault?, hkind] at hfault
      exact absurd hfault (numberFault?_ne_expectedNumber hnumber)
    · rw [fault?, hkind] at hfault
      rcases Option.or_eq_some_iff.1 hfault with hnumber | ⟨-, hunit⟩
      · exact absurd hnumber (numberFault?_ne_expectedNumber hparts.isNumber)
      · simp only [unitFault?] at hunit
        split at hunit <;> simp at hunit
  · rintro ⟨mantissa, e, rfl, -, he⟩
    rw [fault?, numberFault?, Decimal.read?_concat_exponent mantissa he]

/-- In a text that is read as tokens, a dimension is split into the longest number at its front and the
unit behind it, and what is wrong with a dimension is never that there is no number. -/
theorem splitDimension_longest {lexemes : List Lexeme} {lexeme : Lexeme} (hlex : lex cs = .ok lexemes)
    (hlexeme : lexeme ∈ lexemes) (hkind : lexeme.token.kind = .dimension) :
    AreParts lexeme.token.text (splitDimension lexeme.token.text).1
        (splitDimension lexeme.token.text).2 ∧
      Decimal.read? (splitDimension lexeme.token.text).1 ≠ none ∧
      ∀ (setting : Setting) (groups : List Bool),
        setting.token groups lexeme.token ≠ .error .expectedNumber := by
  obtain ⟨rest, hends⟩ := (reads_of_lex hlex).exists_ends lexeme hlexeme
  have hparts := hends.parts hkind
  refine ⟨hparts, hparts.isNumber.read?_ne_none, fun setting groups herror => ?_⟩
  have hfault := Setting.token_eq_error_iff.1 herror
  rw [faultInside?] at hfault
  split at hfault
  · contradiction
  · obtain ⟨mantissa, e, htoken, -⟩ := hends.fault?_eq_expectedNumber_iff.1 hfault
    rw [htoken] at hkind
    contradiction

/-- The first `E` belongs to the number, since digits follow its sign, and the second one to the unit. -/
theorem splitDimension_longest_exponent :
    ∃ lexemes, lex "max(-.5E+2Ex, 7E)".toList = .ok lexemes ∧
      ⟨[], ⟨.dimension, "-.5E+2Ex".toList⟩⟩ ∈ lexemes ∧
      AreParts "-.5E+2Ex".toList "-.5E+2".toList "Ex".toList ∧
      Decimal.read? "-.5E+2".toList ≠ none ∧
      ∀ (setting : Setting) (groups : List Bool),
        setting.token groups ⟨.dimension, "-.5E+2Ex".toList⟩ ≠ .error .expectedNumber := by
  let lexemes := (lex "max(-.5E+2Ex, 7E)".toList).toOption.getD []
  have hlex : lex "max(-.5E+2Ex, 7E)".toList = .ok lexemes := by decide +kernel
  have hmem : ⟨[], ⟨.dimension, "-.5E+2Ex".toList⟩⟩ ∈ lexemes := by decide +kernel
  have hsplit : splitDimension "-.5E+2Ex".toList = ("-.5E+2".toList, "Ex".toList) := by
    decide +kernel
  have hlongest := splitDimension_longest hlex hmem rfl
  rw [hsplit] at hlongest
  exact ⟨lexemes, hlex, hmem, hlongest⟩

end Dimension

end AtomicCss.Token
