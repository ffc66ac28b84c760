import AtomicCss.Proofs.Decimal.Shortest
import AtomicCss.Value.Dimension
/-!
# Printed numbers

A finite number is printed as a numeral (`exists_numeral_formatNumber`). If it is moderate, the
numeral is read as the number rounded to four decimals (`exists_readsBack`), so that it is printed
the same once more.
-/

namespace AtomicCss

open Binary64

/-- A number that is rounded to zero is printed as a bare zero. -/
theorem formatNumber_of_isZero {x : Binary64} (h : (roundDecimals x).isZero) :
    formatNumber x = ['0'] := by
  unfold formatNumber
  cases hx : roundDecimals x with
  | finite negative units hunits =>
    rw [hx, isZero, beq_iff_eq] at h
    rw [positionalText, if_pos h]
    rfl
  | infinite => simp [hx, isZero] at h
  | nan => simp [hx, isZero] at h

/-- Another number is printed with the fewest digits that tell its rounded double. -/
theorem formatNumber_of_pos {x : Binary64} {negative : Bool} {units : Nat}
    {hunits : Representable units} (hround : roundDecimals x = .finite negative units hunits)
    (hpos : 0 < units) :
    formatNumber x = dropLeadingZero ((if negative then ['-'] else []) ++
      (Decimal.shortest .upper units).positional) := by
  rw [formatNumber, hround, positionalText, if_neg hpos.ne']
  cases negative <;> rfl

/-- A finite number is printed as a numeral, a zero without sign. -/
theorem exists_numeral_formatNumber {x : Binary64} (h : x.isFinite) :
    ∃ n : Decimal.Numeral, formatNumber x = n.spell := by
  have hfinite := isFinite_roundDecimals h
  cases hx : roundDecimals x with
  | finite negative units hunits =>
    obtain rfl | hpos := Nat.eq_zero_or_pos units
    · refine ⟨.zero, formatNumber_of_isZero ?_⟩
      rw [hx, isZero, beq_self_eq_true]
    · obtain ⟨n, hn⟩ := Decimal.exists_numeral_positional negative (Decimal.shortest .upper units)
      exact ⟨n.shortened, by rw [formatNumber_of_pos hx hpos, ← hn.spell, n.dropLeadingZero_spell]⟩
  | infinite => simp [hx, isFinite] at hfinite
  | nan => simp [hx, isFinite] at hfinite

theorem isFinite_mul_left {x : Binary64} (h : x.isFinite = false) (y : Binary64) :
    (x * y).isFinite = false := by
  change (mul x y).isFinite = false
  cases x with
  | finite => simp [isFinite] at h
  | infinite => cases y <;> simp only [mul] <;> first | rfl | split <;> rfl
  | nan => rfl

/-- A number that is not finite is not rounded. -/
theorem roundDecimals_of_not_finite {x : Binary64} (h : x.isFinite = false) :
    roundDecimals x = x := by
  simp only [roundDecimals, isFinite_mul_left h, Bool.false_eq_true, if_false]

/-- Infinity and not-a-number are printed as words. -/
theorem formatNumber_of_not_finite {x : Binary64} (h : x.isFinite = false) :
    formatNumber x ∈ ["inf".toList, "-inf".toList, "NaN".toList] := by
  rw [formatNumber, roundDecimals_of_not_finite h]
  cases x with
  | finite => simp [isFinite] at h
  | infinite negative => cases negative <;> decide
  | nan => decide

/-! ## Reading a printed number -/

/-- The number `y` is what the printed text of `x` is read as: `x` with four decimals, where a zero
has lost its sign. -/
structure ReadsBack (x y : Binary64) : Prop where
  read : readNumber (formatNumber x) = .ok y
  settled : roundDecimals y = y
  isZero : y.isZero = (roundDecimals x).isZero
  same : (roundDecimals x).isZero = false → y = roundDecimals x

/-- A number that is read back is printed as before. -/
theorem ReadsBack.formatNumber_eq {x y : Binary64} (h : ReadsBack x y) :
    formatNumber y = formatNumber x := by
  cases hzero : (roundDecimals x).isZero with
  | true =>
    have hy : (roundDecimals y).isZero := by rw [h.settled, h.isZero, hzero]
    rw [formatNumber_of_isZero hzero, formatNumber_of_isZero hy]
  | false => rw [formatNumber, h.settled, h.same hzero, formatNumber]

/-- What a numeral spells can be read if its number is finite. -/
theorem readNumber_spell {n : Decimal.Numeral} (h : n.toBinary64.isFinite) :
    readNumber n.spell = .ok n.toBinary64 := by
  simp only [readNumber, Decimal.read?_spell, h, if_true]

theorem toBinary64_zero (negative : Bool) (exponent : Int) :
    Decimal.toBinary64 negative 0 exponent = .finite negative 0 representable_zero := by
  rw [Decimal.toBinary64, if_pos rfl, ofUnits_of_representable representable_zero]

theorem roundDecimals_zero (negative : Bool) :
    roundDecimals (.finite negative 0 representable_zero) =
      .finite negative 0 representable_zero := by
  have hrepresentable : Representable (unitsOfCount 0) := by
    rw [unitsOfCount_zero]
    exact representable_zero
  have hsettled : roundDecimals (.finite negative (unitsOfCount 0) hrepresentable) =
      .finite negative (unitsOfCount 0) hrepresentable :=
    roundDecimals_unitsOfCount (Nat.zero_le _) hrepresentable
  rw [@finite_congr negative _ _ hrepresentable representable_zero unitsOfCount_zero] at hsettled
  exact hsettled

/-- A zero is read back without its sign. -/
theorem readsBack_zero {x : Binary64} (h : (roundDecimals x).isZero) :
    ReadsBack x (.finite false 0 representable_zero) := by
  have hread : Decimal.Numeral.zero.toBinary64 = .finite false 0 representable_zero := by
    have hcoefficient : Decimal.Numeral.zero.coefficient = 0 := rfl
    rw [Decimal.Numeral.toBinary64, hcoefficient]
    exact toBinary64_zero false _
  constructor
  · rw [formatNumber_of_isZero h, ← hread]
    exact readNumber_spell (n := .zero) (by rw [hread, isFinite])
  · exact roundDecimals_zero false
  · rw [h, isZero, beq_self_eq_true]
  · intro hnot
    rw [h] at hnot
    cases hnot

/-- A number that is no zero is read back as its four decimals. -/
theorem readsBack_units {x : Binary64} {negative : Bool} {count : Nat}
    {hunits : Representable (unitsOfCount count)} (hcount : count ≤ settledLimit * 10000)
    (hpos : 0 < unitsOfCount count)
    (hround : roundDecimals x = .finite negative (unitsOfCount count) hunits) :
    ReadsBack x (.finite negative (unitsOfCount count) hunits) := by
  obtain ⟨n, hn⟩ :=
    Decimal.exists_numeral_positional negative (Decimal.shortest .upper (unitsOfCount count))
  obtain ⟨hnear, hexponent⟩ := Decimal.nearestUnits_shortest hcount hpos
  -- A zero in front of the point does not count, so that the decimals decide.
  have hread : n.shortened.toBinary64 = .finite negative (unitsOfCount count) hunits := by
    rw [n.toBinary64_shortened, Decimal.Numeral.toBinary64, hn.sign, hn.length_fraction,
      hn.coefficient]
    exact Decimal.toBinary64_of_nearestUnits hunits hpos (unitsOfCount_le hcount) (by omega) hnear
  constructor
  · have hformat : formatNumber x = n.shortened.spell := by
      rw [formatNumber_of_pos hround hpos, ← hn.spell, n.dropLeadingZero_spell]
    rw [hformat, ← hread]
    exact readNumber_spell (by rw [hread, isFinite])
  · exact roundDecimals_unitsOfCount hcount hunits
  · rw [hround]
  · exact fun _ => hround.symm

/-- A moderate number is read back with four decimals. -/
theorem exists_readsBack {x : Binary64} (h : x.isModerate) : ∃ y, ReadsBack x y := by
  obtain ⟨negative, count, hunits, hcount, hround⟩ := roundDecimals_of_isModerate h
  obtain hzero | hpos := Nat.eq_zero_or_pos (unitsOfCount count)
  · refine ⟨_, readsBack_zero (x := x) ?_⟩
    rw [hround, isZero, hzero, beq_self_eq_true]
  · exact ⟨_, readsBack_units hcount hpos hround⟩

end AtomicCss
