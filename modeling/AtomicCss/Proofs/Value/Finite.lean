import AtomicCss.Proofs.Value.Settled
import AtomicCss.Proofs.Value.Source
import AtomicCss.Proofs.Value.ZeroLengths
/-!
# Printed numbers are finite

The numbers of a value are checked where they are read, and what is done to them afterwards keeps them
finite, but for one computation: pixels that are turned into `rem` may leave the range, since any number
may be the base. So every number is printed as a numeral and a unit, except for such pixels
(`normalize_numbers`). They stay in range if the base is at least one (`Setting.leavesRange_of_le`).
-/

namespace AtomicCss

open Binary64 (Representable one limit nearestUnits)

/-! ## Computations that stay in range -/

/-- Units that can be represented are finite. -/
theorem Binary64.isFinite_ofUnits {units : Nat} (negative : Bool) (h : Representable units) :
    (ofUnits negative units).isFinite := by
  rw [ofUnits_of_representable h]
  rfl

theorem Binary64.one_le_of_le_abs {negative : Bool} {units : Nat} {h : Representable units}
    (hle : le 1 (abs (finite negative units h))) : one ≤ units := by
  have hone : (1 : Binary64) = finite false (1 * one) (representable_mul_one (by decide)) :=
    @ofNat_eq 1 (by decide)
  simp only [hone, abs, le, Nat.one_mul] at hle
  obtain hzero | hposition := (Bool.or_eq_true _ _).mp hle
  · have hnone : one = 0 := beq_iff_eq.1 (Bool.and_eq_true_iff.1 hzero).1
    exact absurd hnone one_pos.ne'
  · exact Int.ofNat_le.1 (of_decide_eq_true hposition)

/-- A number that is divided by one of at least one gets no larger. -/
theorem Binary64.isFinite_div {x y : Binary64} (hx : x.isFinite) (hy : le 1 y.abs) :
    (x / y).isFinite := by
  cases x with
  | finite negative units hunits =>
    cases y with
    | finite sign divisor hdivisor =>
      have hle := one_le_of_le_abs hy
      have hpos := one_pos.trans_le hle
      -- Rounding does not pass the dividend, which is a number of the format itself.
      obtain ⟨hlt, hspacing⟩ := representable_iff.1 hunits
      have hquotient : nearestUnits (units * one) divisor ≤ units :=
        nearestUnits_le hpos hspacing (Nat.mul_le_mul_left units hle)
      rw [finite_div _ _ hpos]
      exact isFinite_ofUnits _ (representable_iff.2 ⟨hquotient.trans_lt hlt,
        spacing_dvd_nearestUnits hpos⟩)
    | infinite => rfl
    | nan => cases h : (1 : Binary64) <;> simp [h, abs, le] at hy
  | infinite => simp [isFinite] at hx
  | nan => simp [isFinite] at hx

/-- A number that is read is finite. -/
theorem isFinite_of_readNumber {text : List Char} {x : Binary64} (h : readNumber text = .ok x) :
    x.isFinite := by
  unfold readNumber at h
  split at h
  · contradiction
  · split at h
    · obtain rfl := Except.ok.inj h
      assumption
    · contradiction

/-! ## Dimensions -/

/-- A numeral with one of the given units behind it, of which one may be empty. -/
def IsMeasure (units : List String) (text : List Char) : Prop :=
  ∃ n : Decimal.Numeral, ∃ unit ∈ units, text = n.spell ++ unit.toList

/-- A finite number with one of the units is a measure. -/
theorem isMeasure_withUnit {units : List String} {unit : String} {x : Binary64} (hx : x.isFinite)
    (hunit : unit ∈ units) : IsMeasure units (withUnit x unit) := by
  obtain ⟨n, hn⟩ := exists_numeral_formatNumber hx
  exact ⟨n, unit, hunit, by rw [withUnit, hn]⟩

namespace Setting

/-- The units that a number of the given unit is printed with. A zero length is printed without a unit
where that is allowed. -/
def printedUnits (setting : Setting) (unit : String) : List String :=
  if Dimension.isAngle unit then [unit, "deg"]
  else if unit = "ms" then ["ms", "s"]
  else if setting.isInRem unit then ["rem", ""]
  else if Dimension.isLength unit then [unit, ""]
  else [unit]

/-- Whether a number is turned into `rem` and has no finite value there. -/
def leavesRange (setting : Setting) (x : Binary64) (unit : String) : Bool :=
  setting.isInRem unit && !(roundDecimals x / setting.options.remBase).isFinite

variable {setting : Setting} {insideMath : Bool} {x : Binary64} {unit : String}
  {printed : List Char}

/-- Dividing by a base of one or more does not leave the range. -/
theorem leavesRange_of_le (hbase : Binary64.le 1 setting.options.remBase.abs) (hx : x.isFinite) :
    setting.leavesRange x unit = false := by
  simp [leavesRange, Binary64.isFinite_div (isFinite_roundDecimals hx) hbase]

/-- A time is printed in milliseconds or in seconds. -/
theorem isMeasure_milliseconds (hx : x.isFinite) : IsMeasure ["ms", "s"] (milliseconds x) := by
  unfold milliseconds
  split
  · exact isMeasure_withUnit (isFinite_of_isModerate isModerate_zero) (by simp)
  · split
    · exact isMeasure_withUnit hx (by simp)
    · exact isMeasure_withUnit (Binary64.isFinite_div hx (by decide +kernel)) (by simp)

/-- Pixels that are turned into `rem` are printed with that unit, or without one. -/
theorem isMeasure_plainDimension (hx : x.isFinite) (hrange : setting.leavesRange x unit = false)
    (hangle : Dimension.isAngle unit = false) (hms : unit ≠ "ms") :
    IsMeasure (setting.printedUnits unit)
      (setting.plainDimension insideMath (roundDecimals x) unit) := by
  have hround := isFinite_roundDecimals hx
  rw [plainDimension, convert_eq, printedUnits, hangle, if_neg (by simp), if_neg hms]
  cases hrem : setting.isInRem unit with
  | true =>
    -- The number was checked before the division, so the quotient needs the range as a condition.
    have hquotient : (roundDecimals x / setting.options.remBase).isFinite := by
      simpa [leavesRange, hrem] using hrange
    simp only [if_true]
    split
    · exact ⟨.zero, "", by simp, rfl⟩
    · exact isMeasure_withUnit (isFinite_roundDecimals hquotient) (by simp)
  | false =>
    simp only [Bool.false_eq_true, if_false]
    cases hlength : Dimension.isLength unit with
    | true =>
      simp only [if_true]
      split
      · exact ⟨.zero, "", by simp, rfl⟩
      · exact isMeasure_withUnit hround (by simp)
    | false =>
      simp only [Bool.false_eq_true, false_and, and_false, if_false]
      exact isMeasure_withUnit hround (List.mem_singleton_self unit)

/-- A finite number that stays in range is printed as a numeral and a unit. -/
theorem isMeasure_dimensionOf (hx : x.isFinite) (hrange : setting.leavesRange x unit = false)
    (h : setting.dimensionOf insideMath (roundDecimals x) unit = .ok printed) :
    IsMeasure (setting.printedUnits unit) printed := by
  have hround := isFinite_roundDecimals hx
  have hzero : (0 : Binary64).isFinite := isFinite_of_isModerate isModerate_zero
  cases dimensionOf_eq_ok_iff.1 h with
  | degrees hangle _ =>
    rw [printedUnits, if_pos hangle]
    exact isMeasure_withUnit hzero (by simp)
  | angle hangle _ =>
    rw [printedUnits, if_pos hangle]
    exact isMeasure_withUnit hround (by simp)
  | milliseconds hunit =>
    subst hunit
    exact isMeasure_milliseconds hround
  | seconds hunit _ =>
    subst hunit
    exact isMeasure_withUnit hzero (List.mem_singleton_self _)
  | plain hangle hms => exact isMeasure_plainDimension hx hrange hangle hms

/-- What stands in front of the unit where a number is not finite. -/
def nonFiniteWords : List String :=
  ["inf", "-inf", "NaN"]

/-- Pixels that leave the range are printed as a word. -/
theorem dimensionOf_of_leavesRange (h : setting.leavesRange x unit) :
    ∃ word ∈ nonFiniteWords, setting.dimensionOf insideMath (roundDecimals x) unit =
      .ok (word.toList ++ "rem".toList) := by
  obtain ⟨hrem, hquotient⟩ : setting.isInRem unit ∧
      (roundDecimals x / setting.options.remBase).isFinite = false := by
    simpa [leavesRange] using h
  -- Nothing but pixels is turned into `rem`, and what has no value is neither rounded nor a zero.
  obtain rfl : unit = "px" := by
    have hrem' := hrem
    simp only [isInRem, Bool.and_eq_true, beq_iff_eq] at hrem'
    exact hrem'.1.1
  have hzero : (roundDecimals x / setting.options.remBase).isZero = false := by
    generalize roundDecimals x / setting.options.remBase = quotient at hquotient ⊢
    cases quotient with
    | finite => simp [Binary64.isFinite] at hquotient
    | infinite | nan => rfl
  have hplain : setting.dimensionOf insideMath (roundDecimals x) "px" =
      .ok (withUnit (roundDecimals x / setting.options.remBase) "rem") := by
    have hangle : Dimension.isAngle "px" = false := by decide
    have hknown : Dimension.isKnown "px" := by decide
    rw [dimensionOf_eq_ok_iff.2 (.plain hangle (by decide) (by simp) hknown), plainDimension,
      convert_eq, if_pos hrem, roundDecimals_of_not_finite hquotient]
    simp only [hzero, Bool.false_eq_true, false_and, if_false]
  have hword : ∃ word ∈ nonFiniteWords,
      formatNumber (roundDecimals x / setting.options.remBase) = word.toList := by
    simpa [nonFiniteWords] using formatNumber_of_not_finite hquotient
  obtain ⟨word, hmem, hformat⟩ := hword
  exact ⟨word, hmem, by rw [hplain, withUnit, hformat]⟩

end Setting

/-! ## Tokens -/

namespace Token

/-- The digits of a numeric token, and its unit in lower case. A number has an empty unit. -/
def measure (token : Token) : List Char × String :=
  match token.kind with
  | .dimension =>
    ((splitDimension token.text).1, String.ofList (lowercase (splitDimension token.text).2))
  | _ => (token.text, "")

end Token

/-- What is printed for a numeric token: a numeral and a unit, or a word if the number leaves the range. -/
inductive Setting.PrintsNumber (setting : Setting) (token : Token) (text : List Char) : Prop
  | measure {x : Binary64} (hread : readNumber token.measure.1 = .ok x) (hx : x.isFinite)
    (hrange : setting.leavesRange x token.measure.2 = false)
    (htext : IsMeasure (setting.printedUnits token.measure.2) text)
  | word {x : Binary64} {word : String} (hread : readNumber token.measure.1 = .ok x) (hx : x.isFinite)
    (hrange : setting.leavesRange x token.measure.2) (hword : word ∈ Setting.nonFiniteWords)
    (htext : text = word.toList ++ "rem".toList)

section Numeric

variable {setting : Setting} {groups : List Bool} {token : Token} {text : List Char}

/-- With a base of at least one no number becomes a word. -/
theorem Setting.PrintsNumber.isMeasure (h : setting.PrintsNumber token text)
    (hbase : Binary64.le 1 setting.options.remBase.abs) :
    IsMeasure (setting.printedUnits token.measure.2) text := by
  cases h with
  | measure _ _ _ htext => exact htext
  | word _ hx hrange =>
    rw [leavesRange_of_le hbase hx] at hrange
    cases hrange

/-- A number is printed as a measure, or as one of the words outside of the range. -/
theorem Setting.printsNumber_token (hnumeric : token.isNumeric)
    (h : setting.token groups token = .ok text) : setting.PrintsNumber token text := by
  obtain ⟨kind, source⟩ := token
  obtain rfl | rfl : kind = .number ∨ kind = .dimension := by
    simpa [Token.isNumeric] using hnumeric
  · obtain ⟨x, hread, rfl⟩ := token_number_iff.1 h
    have hx := isFinite_of_readNumber hread
    obtain ⟨n, hn⟩ := exists_numeral_formatNumber hx
    refine .measure hread hx (by simp [leavesRange, isInRem, Token.measure]) ⟨n, "", ?_, ?_⟩
    · simp [printedUnits, isInRem, Token.measure, Dimension.isAngle, Dimension.isLength,
        Dimension.angles, Dimension.lengths]
    · simp [hn]
  · obtain ⟨x, hread, hprinted⟩ := dimension_eq_ok_iff.1 h
    have hx := isFinite_of_readNumber hread
    -- Where the number leaves the range a word is printed for it.
    cases hrange : setting.leavesRange x
        (String.ofList (lowercase (Token.splitDimension source).2)) with
    | false => exact .measure hread hx hrange (isMeasure_dimensionOf hx hrange hprinted)
    | true =>
      obtain ⟨word, hword, htext⟩ := @dimensionOf_of_leavesRange setting (groups.any id) _ _ hrange
      exact .word hread hx hrange hword (Except.ok.inj (hprinted.symm.trans htext))

end Numeric

/-! ## Values -/

/-- How the numbers of a scalar are printed: an authored number is finite, and it is printed bare as a
numeral or is the source of tokens; each numeric token of a source is printed as one. -/
structure Setting.PrintsNumbers (setting : Setting) (scalar : Scalar) (text : String) : Prop where
  finite : ∀ x, scalar = .number x → x.isFinite
  bare : setting.source? scalar = none → ∃ n : Decimal.Numeral, text.toList = n.spell
  tokens : ∀ source, setting.source? scalar = some source →
    ∃ lexemes pieces, Token.lex source = .ok lexemes ∧
      setting.printedAfter [] none lexemes = .ok pieces ∧ text.toList = Lexeme.spell pieces ∧
      ∀ (i : Nat) (lexeme : Lexeme), lexemes[i]? = some lexeme → lexeme.token.isNumeric →
        ∃ piece : Lexeme, pieces[i]? = some piece ∧ setting.PrintsNumber lexeme.token piece.token.text

/-- All numbers of a value are printed in this way. -/
theorem Setting.printsNumbers_of_normalizeScalar {setting : Setting} {scalar : Scalar} {text : String}
    (h : setting.normalizeScalar scalar = .ok text) : setting.PrintsNumbers scalar text := by
  have hfinite : ∀ x, scalar = .number x → x.isFinite := by
    rintro x rfl
    exact isFinite_of_normalizeScalar h
  obtain ⟨source, hsource, hnormal⟩ | ⟨x, rfl, hsource, rfl⟩ := normalizeScalar_cases h
  · obtain ⟨lexemes, printed, -, hreads, hprint, -, rfl⟩ := normalizeSource_eq_ok_iff.1 hnormal
    obtain ⟨pieces, hpieces, rfl⟩ := printAfter_eq_ok_iff.1 hprint
    refine ⟨hfinite, fun hnone => by simp [hsource] at hnone, fun other hother => ?_⟩
    obtain rfl := Option.some.inj (hsource.symm.trans hother)
    refine ⟨lexemes, pieces, Token.lex_eq_ok_iff.2 hreads, hpieces, String.toList_ofList, ?_⟩
    intro i lexeme hat hnumeric
    obtain ⟨piece, hpiece, htoken⟩ := getElem?_printedAfter hpieces hat
    exact ⟨piece, hpiece, printsNumber_token hnumeric htoken⟩
  · obtain ⟨n, hn⟩ := exists_numeral_formatNumber (hfinite x rfl)
    exact ⟨hfinite, fun _ => ⟨n, by rw [String.toList_ofList, hn]⟩,
      fun source hsome => by simp [hsource] at hsome⟩

/-- In a normalized value every number is printed as a numeral and a unit, but for the pixels of a font size
that have no finite value in `rem`. -/
theorem normalize_numbers {options : Options} {property : String} {raw : RawValue} {value : Value}
    (h : normalize options property raw = .ok value) :
    List.Forall₂ (Setting.PrintsNumbers ⟨property, options⟩) raw.scalars value.texts :=
  (normalize_eq_ok_iff.1 h).imp fun _ _ => Setting.printsNumbers_of_normalizeScalar

theorem normalize_numbers_halved :
    normalize { fontSizeInRem := true, remBase := 1 / 2 } "font-size"
        (.fallbacks [.text "min(-1e308px, 024PX)", .number 20]) =
          .ok ⟨["min(-infrem,48rem)", "40rem"]⟩ ∧
      List.Forall₂
        (Setting.PrintsNumbers ⟨"font-size", { fontSizeInRem := true, remBase := 1 / 2 }⟩)
        [.text "min(-1e308px, 024PX)", .number 20] ["min(-infrem,48rem)", "40rem"] := by
  have h : normalize { fontSizeInRem := true, remBase := 1 / 2 } "font-size"
      (.fallbacks [.text "min(-1e308px, 024PX)", .number 20]) =
        .ok ⟨["min(-infrem,48rem)", "40rem"]⟩ := by
    decide +kernel
  exact ⟨h, normalize_numbers h⟩

/-- The text of an infinite size is no numeral with a unit, though the base is finite. -/
theorem infinite_size_is_printed :
    (1 / 2 : Binary64).isFinite ∧
      normalize { fontSizeInRem := true, remBase := 1 / 2 } "font-size"
        (.single (.text "1e308px")) = .ok ⟨["infrem"]⟩ ∧
      ∀ units, ¬IsMeasure units "infrem".toList := by
  refine ⟨by decide +kernel, by decide +kernel, ?_⟩
  rintro units ⟨n, unit, -, htext⟩
  -- A numeral has no letters.
  obtain ⟨c, cs, hcs⟩ := List.exists_cons_of_ne_nil n.spell_ne_nil
  have hmem : c ∈ n.spell := by simp [hcs]
  rw [hcs] at htext
  obtain rfl : 'i' = c := (List.cons.inj htext).1
  exact absurd (Token.isMantissaChar_of_mem_spell _ hmem) (by decide)

end AtomicCss
