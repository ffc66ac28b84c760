import AtomicCss.Proofs.Value.Printed
/-!
# Numbers with units are printed the same again

A moderate number with a unit is printed as a moderate number with a unit, or as a zero, and what is
printed is spelled the same when it is read again (`Setting.dimensionOf_reads`).
-/

namespace AtomicCss

open Binary64

/-! ## Moderate numbers -/

theorem isFinite_of_isModerate {x : Binary64} (h : x.isModerate) : x.isFinite := by
  cases x with
  | finite => rfl
  | infinite => contradiction
  | nan => contradiction

/-- Rounding to the decimals that are kept stays in the range. -/
theorem isModerate_roundDecimals {x : Binary64} (h : x.isModerate) :
    (roundDecimals x).isModerate := by
  obtain ⟨negative, count, hunits, hcount, hround⟩ := roundDecimals_of_isModerate h
  rw [hround, isModerate, decide_eq_true_eq]
  exact unitsOfCount_le hcount

theorem thousand_eq :
    (1000 : Binary64) = .finite false (1000 * one) (representable_mul_one (by decide)) :=
  @ofNat_eq 1000 (by decide)

/-- Milliseconds in seconds stay in the range. -/
theorem isModerate_div_thousand {x : Binary64} (h : x.isModerate) : (x / 1000).isModerate := by
  cases x with
  | finite negative units hunits =>
    have hle : units ≤ settledLimit * one := of_decide_eq_true h
    have hscale := @nearestUnits_mul_mul units 1000 one (by decide) Binary64.one_pos
    -- A quotient is no larger than its dividend, also after rounding.
    have hquotient : nearestUnits units 1000 ≤ settledLimit * one :=
      nearestUnits_le (by decide) (spacing_dvd_mul_one (by decide))
        (hle.trans (Nat.le_mul_of_pos_right _ (by decide)))
    have hrepresentable : Representable (nearestUnits units 1000) :=
      representable_iff.2 ⟨hquotient.trans_lt (mul_one_lt_limit (by decide)),
        spacing_dvd_nearestUnits (by decide)⟩
    rw [thousand_eq, finite_div _ _ (Nat.mul_pos (by decide) Binary64.one_pos), hscale,
      ofUnits_of_representable hrepresentable, isModerate, decide_eq_true_eq]
    exact hquotient
  | infinite => contradiction
  | nan => contradiction

theorem zero_eq : (0 : Binary64) = .finite false 0 representable_zero :=
  (@ofNat_eq 0 (by decide)).trans (finite_congr (Nat.zero_mul one))

theorem isModerate_zero : (0 : Binary64).isModerate := by
  rw [zero_eq, isModerate, decide_eq_true_eq]
  exact Nat.zero_le _

theorem isZero_roundDecimals_zero : (roundDecimals 0).isZero := by
  rw [zero_eq, roundDecimals_zero, isZero, beq_self_eq_true]

/-! ## Dimensions -/

/-- Whether a unit is turned into `rem`. -/
def Setting.isInRem (setting : Setting) (unit : String) : Bool :=
  unit == "px" && setting.property == "font-size" && setting.options.fontSizeInRem

section Dimension

variable {setting : Setting} {insideMath : Bool} {x y : Binary64} {unit : String}
  {printed : List Char}

/-- Only what is to be printed in `rem` is converted. -/
theorem Setting.convert_eq : setting.convert x unit =
    if setting.isInRem unit then (roundDecimals (x / setting.options.remBase), "rem")
    else (x, unit) := by
  unfold convert isInRem
  by_cases h : unit = "px" ∧ setting.property = "font-size" ∧ setting.options.fontSizeInRem
  · simp [h]
  · rw [if_neg h, if_neg]
    simpa [and_assoc] using h

/-- A number that is read back is printed as before. -/
theorem ReadsBack.withUnit_eq (h : ReadsBack x y) (unit : String) :
    withUnit y unit = withUnit x unit := by
  rw [withUnit, h.formatNumber_eq, withUnit]

/-- A dimension that is printed is read as its number and its unit. -/
theorem Setting.dimension_withUnit (h : ReadsBack x y) (hx : x.isFinite)
    (hknown : Dimension.isKnown unit) :
    setting.dimension insideMath (withUnit x unit) = setting.dimensionOf insideMath y unit := by
  obtain ⟨n, hn⟩ := exists_numeral_formatNumber hx
  have hunit := Dimension.isUnit_of_isKnown hknown
  have hlower : ∀ unit ∈ Dimension.lengths ++ Dimension.angles ++ Dimension.others,
      lowercase unit.toList = unit.toList := by
    decide
  have hsplit : Token.splitDimension (withUnit x unit) = (formatNumber x, unit.toList) := by
    rw [withUnit, hn, Token.splitDimension_spell hunit]
  have hread : readNumber (Token.splitDimension (withUnit x unit)).1 = .ok y := by
    rw [hsplit]
    exact h.read
  rw [dimension_of_read hread, hsplit, h.settled, hlower _ (Dimension.mem_of_isKnown hknown),
    String.ofList_toList]

/-- That a text is a moderate number with a unit, and is printed the same when it is read. -/
def Setting.Reprints (setting : Setting) (insideMath : Bool) (printed : List Char) : Prop :=
  ∃ x unit, x.isModerate ∧ Dimension.isKnown unit ∧ printed = withUnit x unit ∧
    ∀ y, ReadsBack x y → setting.dimensionOf insideMath y unit = .ok printed

/-- A zero is read back as a zero. -/
theorem ReadsBack.isZero_of_zero (h : ReadsBack 0 y) : y.isZero := by
  rw [h.isZero, isZero_roundDecimals_zero]

/-- A number that is rounded to zero is printed as a zero. -/
theorem withUnit_zero (h : (roundDecimals x).isZero) (unit : String) :
    withUnit 0 unit = withUnit x unit := by
  rw [withUnit, formatNumber_of_isZero isZero_roundDecimals_zero, withUnit, formatNumber_of_isZero h]

/-- A zero angle settles at once. -/
theorem Setting.reprints_degrees : setting.Reprints insideMath (withUnit 0 "deg") :=
  ⟨0, "deg", isModerate_zero, by decide, rfl, fun _ hy =>
    dimensionOf_eq_ok_iff.2 (.degrees (by decide) hy.isZero_of_zero)⟩

/-- Seconds of any size: a zero is spelled `0s` either way. -/
theorem Setting.reprints_seconds (hx : x.isModerate) :
    setting.Reprints insideMath (withUnit x "s") := by
  refine ⟨x, "s", hx, by decide, rfl, fun y hy => ?_⟩
  cases hzero : y.isZero with
  | true =>
    have hround : (roundDecimals x).isZero := by rw [← hy.isZero, hzero]
    rw [← withUnit_zero hround]
    exact dimensionOf_eq_ok_iff.2 (.seconds rfl hzero)
  | false =>
    have hplain : setting.plainDimension insideMath y "s" = withUnit x "s" := by
      have hlength : Dimension.isLength "s" = false := by decide
      rw [plainDimension, convert_eq, if_neg (by simp [isInRem])]
      simp only
      rw [if_neg (by simp [hlength]), hy.withUnit_eq]
    rw [← hplain]
    exact dimensionOf_eq_ok_iff.2 (.plain (by decide) (by decide) (fun _ => hzero) (by decide))

/-- A number that is no zero is read back as it is. -/
theorem Setting.reprints_self (hx : x.isModerate) (hsettled : roundDecimals x = x)
    (hzero : x.isZero = false) (hknown : Dimension.isKnown unit)
    (h : setting.dimensionOf insideMath x unit = .ok (withUnit x unit)) :
    setting.Reprints insideMath (withUnit x unit) := by
  refine ⟨x, unit, hx, hknown, rfl, fun y hy => ?_⟩
  have hsame : y = x := (hy.same (by rw [hsettled, hzero])).trans hsettled
  rw [hsame, h]

/-- A plain dimension that is not converted loses its unit or is printed as before. -/
theorem Setting.plainDimension_reads (hx : x.isModerate) (hrem : setting.isInRem unit = false)
    (hknown : Dimension.isKnown unit) (hangle : Dimension.isAngle unit = false) (hms : unit ≠ "ms")
    (hs : unit = "s" → (roundDecimals x).isZero = false) :
    setting.plainDimension insideMath (roundDecimals x) unit = ['0'] ∨
      setting.Reprints insideMath (setting.plainDimension insideMath (roundDecimals x) unit) := by
  have hplain : ∀ z, setting.plainDimension insideMath z unit =
      if z.isZero ∧ Dimension.isLength unit ∧ !insideMath ∧
        !Property.keepsZeroUnits setting.property then ['0'] else withUnit z unit := by
    intro z
    rw [plainDimension, convert_eq, hrem]
    rfl
  by_cases hlength : (roundDecimals x).isZero ∧ Dimension.isLength unit ∧ !insideMath ∧
      !Property.keepsZeroUnits setting.property
  · exact .inl (by rw [hplain, if_pos hlength])
  · right
    -- Rounding first does not change what is printed.
    have hsame : withUnit (roundDecimals x) unit = withUnit x unit := by
      rw [withUnit, formatNumber, roundDecimals_roundDecimals hx, ← formatNumber, withUnit]
    rw [hplain, if_neg hlength]
    refine ⟨x, unit, hx, hknown, hsame, fun y hy => ?_⟩
    rw [← hy.isZero] at hlength hs
    rw [dimensionOf_eq_ok_iff.2 (.plain hangle hms hs hknown), hplain, if_neg hlength,
      hy.withUnit_eq, hsame]

/-- A size in pixels is printed as the size in `rem` that it is converted to. -/
theorem Setting.plainDimension_of_isInRem (h : setting.isInRem unit) :
    setting.plainDimension insideMath x unit =
      setting.plainDimension insideMath (roundDecimals (x / setting.options.remBase)) "rem" := by
  have hrem : ∀ z, setting.convert z "rem" = (z, "rem") := fun z => by
    rw [convert_eq, show setting.isInRem "rem" = false from rfl]
    rfl
  rw [plainDimension, convert_eq, if_pos h, plainDimension, hrem]

/-- Milliseconds settle once their number is rounded. -/
theorem Setting.milliseconds_reads (hx : x.isModerate) (hsettled : roundDecimals x = x) :
    setting.Reprints insideMath (milliseconds x) := by
  unfold milliseconds
  split
  · exact reprints_seconds isModerate_zero
  · rename_i hzero
    have hzero : x.isZero = false := by simpa using hzero
    split
    · rename_i hlt
      refine reprints_self hx hsettled hzero (by decide) ?_
      rw [dimensionOf_eq_ok_iff.2 (.milliseconds rfl), milliseconds, hzero, if_neg (by simp),
        if_pos hlt]
    · exact reprints_seconds (isModerate_div_thousand hx)

/-- What is printed for a dimension is a zero, or it is printed the same when it is read. -/
theorem Setting.dimensionOf_reads (hx : x.isModerate)
    (hrem : setting.isInRem unit → (roundDecimals x / setting.options.remBase).isModerate)
    (h : setting.dimensionOf insideMath (roundDecimals x) unit = .ok printed) :
    printed = ['0'] ∨ setting.Reprints insideMath printed := by
  have hround := isModerate_roundDecimals hx
  have hsettled := roundDecimals_roundDecimals hx
  cases dimensionOf_eq_ok_iff.1 h with
  | degrees => exact .inr reprints_degrees
  | angle hangle hzero =>
    exact .inr (reprints_self hround hsettled hzero (by simp [Dimension.isKnown, hangle]) h)
  | milliseconds => exact .inr (milliseconds_reads hround hsettled)
  | seconds => exact .inr (reprints_seconds isModerate_zero)
  | plain hangle hms hs hknown =>
    -- Only pixels are printed as another number than they were written as.
    cases hpx : setting.isInRem unit with
    | true =>
      rw [plainDimension_of_isInRem hpx]
      exact plainDimension_reads (hrem hpx) rfl (by decide) (by decide) (by decide)
        fun heq => absurd heq (by decide)
    | false => exact plainDimension_reads hx hpx hknown hangle hms hs

end Dimension

end AtomicCss
