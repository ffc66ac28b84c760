import AtomicCss.Proofs.Binary64.Rounding
import AtomicCss.Value.Number
/-!
# Rounding to four decimals

A finite number is rounded to the number that is closest to a count of ten-thousandths
(`roundDecimals_finite`), so that the result is finite. Up to `2 ^ 38` such a number is left alone
when it is rounded again (`roundDecimals_roundDecimals`): scaling it up brings it closer than a half
to its count. Above, the distance of neighbours is too great for that.
-/

namespace AtomicCss

namespace Binary64

theorem powerOfTwo_eq (n : Nat) : powerOfTwo n = 2 ^ n := rfl

theorem one_eq : one = 2 ^ unitExponent :=
  powerOfTwo_eq _

theorem one_pos : 0 < one :=
  powerOfTwo_pos _

theorem mul_one_lt_limit {n : Nat} (h : n ≤ 2 ^ 53) : n * one < limit :=
  calc n * one ≤ 2 ^ 53 * one := Nat.mul_le_mul_right one h
    _ = powerOfTwo (53 + unitExponent) := by rw [powerOfTwo_eq, Nat.pow_add, ← one_eq]
    _ < limit := by
        rw [limit, powerOfTwo_eq, powerOfTwo_eq]
        exact Nat.pow_lt_pow_right (by decide) (Nat.add_lt_add_right (by decide) _)

theorem le_unitExponent : 53 ≤ unitExponent := by
  decide

/-! ## Distances in parts of one -/

/-- Below a power of two, the spacing divides the power 52 places down. -/
theorem spacing_dvd_pow {u k : Nat} (h : u < 2 ^ (k + 1)) : spacing u ∣ 2 ^ (k - 52) := by
  have hlog : u.log2 ≤ k := by
    by_cases hu : u = 0
    · simp [hu]
    · exact Nat.le_of_lt_succ ((Nat.log2_lt hu).2 h)
  rw [spacing_def]
  exact Nat.pow_dvd_pow 2 (by omega)

/-- Below `2 ^ m`, numbers are spaced by at most `2 ^ (m - 53)`. -/
theorem spacing_mul_le_one {u m : Nat} (hm : m ≤ 53) (h : u < 2 ^ m * one) :
    spacing u * 2 ^ (53 - m) ≤ one := by
  have hunit := le_unitExponent
  rw [one_eq, ← Nat.pow_add, show m + unitExponent = m + unitExponent - 1 + 1 by omega] at h
  calc spacing u * 2 ^ (53 - m) ≤ 2 ^ (m + unitExponent - 1 - 52) * 2 ^ (53 - m) :=
        Nat.mul_le_mul_right _ (Nat.le_of_dvd (Nat.two_pow_pos _) (spacing_dvd_pow h))
    _ = one := by
        rw [← Nat.pow_add, one_eq, show m + unitExponent - 1 - 52 + (53 - m) = unitExponent by omega]

/-- Whole numbers below `2 ^ 53` are numbers of the format. -/
theorem spacing_dvd_mul_one {n : Nat} (h : n < 2 ^ 53) : spacing (n * one) ∣ n * one := by
  have hunit := le_unitExponent
  have hlt : n * one < 2 ^ (53 + unitExponent - 1 + 1) := by
    rw [show 53 + unitExponent - 1 + 1 = 53 + unitExponent by omega, Nat.pow_add, ← one_eq]
    exact Nat.mul_lt_mul_of_pos_right h one_pos
  have hdvd : spacing (n * one) ∣ one := by
    have hpow := spacing_dvd_pow hlt
    rwa [show 53 + unitExponent - 1 - 52 = unitExponent by omega, ← one_eq] at hpow
  exact hdvd.mul_left n

/-- Only the quotient matters to rounding. -/
theorem nearestUnits_mul_mul {num den k : Nat} (hden : 0 < den) (hk : 0 < k) :
    nearestUnits (num * k) (den * k) = nearestUnits num den := by
  have hquotient : num * k / (den * k) = num / den := Nat.mul_div_mul_right num den hk
  obtain ⟨hdvd, hlow, hhigh, hodd⟩ := (@nearestUnits_eq_iff_step num den _ hden).1 rfl
  rw [nearestUnits_eq_iff_step (Nat.mul_pos hden hk), hquotient]
  generalize spacing (num / den) = step at *
  generalize nearestUnits num den = u at *
  have hu : u * (den * k) = u * den * k := by ring
  have hstep : step * (den * k) = step * den * k := by ring
  rw [hu, hstep]
  refine ⟨hdvd, ?_, ?_, fun h => ⟨?_, ?_⟩⟩
  · nlinarith
  · nlinarith
  · nlinarith [(hodd h).1]
  · nlinarith [(hodd h).2]

end Binary64

/-! ## Rounding to whole numbers -/

/-- A quotient is rounded to what it differs from by a half at most. -/
theorem roundHalfUp_eq_iff {num den r : Nat} (hden : 0 < den) :
    roundHalfUp num den = r ↔
      2 * r * den ≤ 2 * num + den ∧ 2 * num + den < 2 * r * den + 2 * den := by
  have hcomm : r * (2 * den) = 2 * r * den := by ring
  rw [roundHalfUp, Nat.div_eq_iff (by omega), hcomm]
  omega

namespace Binary64

/-! ## Scaling -/

/-- A double is the double of its units. -/
theorem ofUnits_of_representable {negative : Bool} {units : Nat} (h : Representable units) :
    ofUnits negative units = .finite negative units h :=
  dif_pos h

/-- Whole numbers up to `2 ^ 53` are doubles. -/
theorem representable_mul_one {n : Nat} (h : n < 2 ^ 53) : Representable (n * one) :=
  representable_iff.2 ⟨mul_one_lt_limit h.le, spacing_dvd_mul_one h⟩

/-- A whole number is counted in units exactly. -/
theorem ofNat_eq {n : Nat} (h : n < 2 ^ 53) :
    ofNat n = .finite false (n * one) (representable_mul_one h) := by
  have hunits := @nearestUnits_mul 1 (n * one) Nat.one_pos (spacing_dvd_mul_one h)
  rw [Nat.mul_one] at hunits
  rw [ofNat, ofRatio, hunits, ofUnits_of_representable]

theorem finite_congr {s : Bool} {a b : Nat} {ha : Representable a} {hb : Representable b}
    (h : a = b) : finite s a ha = finite s b hb := by
  subst h
  rfl

/-- A product is the double nearest to the exact one. -/
theorem finite_mul {s t : Bool} {a b : Nat} (ha : Representable a) (hb : Representable b) :
    finite s a ha * finite t b hb = ofUnits (s ^^ t) (nearestUnits (a * b) one) := by
  change mul (finite s a ha) (finite t b hb) = _
  rw [mul]

/-- A quotient is the double nearest to the exact one. -/
theorem finite_div {s t : Bool} {a b : Nat} (ha : Representable a) (hb : Representable b)
    (hpos : 0 < b) :
    finite s a ha / finite t b hb = ofUnits (s ^^ t) (nearestUnits (a * one) b) := by
  change div (finite s a ha) (finite t b hb) = _
  rw [div, if_neg hpos.ne']

theorem tenThousand_eq :
    (10000 : Binary64) = .finite false (10000 * one) (representable_mul_one (by decide)) :=
  @ofNat_eq 10000 (by decide)

/-- Ten-thousandths in a magnitude, before they are rounded to a whole number. -/
def scaledUnits (units : Nat) : Nat :=
  nearestUnits (units * 10000) 1

/-- The magnitude that is closest to a count of ten-thousandths. -/
def unitsOfCount (count : Nat) : Nat :=
  nearestUnits (count * one) 10000

theorem unitsOfCount_zero : unitsOfCount 0 = 0 := by
  rw [unitsOfCount, Nat.zero_mul]
  rfl

/-- A double times ten thousand is a count of ten-thousandths, rounded. -/
theorem mul_tenThousand (negative : Bool) (units : Nat) (h : Representable units) :
    finite negative units h * 10000 = ofUnits negative (scaledUnits units) := by
  have hscale := @nearestUnits_mul_mul (units * 10000) 1 one Nat.one_pos one_pos
  rw [Nat.one_mul, Nat.mul_assoc] at hscale
  rw [tenThousand_eq, finite_mul, Bool.xor_false, hscale, scaledUnits]

/-- The double that a count of ten-thousandths stands for. -/
theorem div_tenThousand (negative : Bool) (count : Nat) (h : Representable (count * one)) :
    finite negative (count * one) h / 10000 = ofUnits negative (unitsOfCount count) := by
  have hscale := @nearestUnits_mul_mul (count * one) 10000 one (by decide) one_pos
  rw [tenThousand_eq, finite_div _ _ (Nat.mul_pos (by decide) one_pos), Bool.xor_false, hscale,
    unitsOfCount]

/-! ## Counts of ten-thousandths -/

/-- The count of ten-thousandths that a magnitude is rounded to. -/
def decimalCount (units : Nat) : Nat :=
  roundHalfUp (scaledUnits units) one

/-- A number of the format is whole, or it is less than `2 ^ 52`. -/
theorem one_dvd_or_lt {units : Nat} (h : spacing units ∣ units) :
    one ∣ units ∨ units < 2 ^ 52 * one := by
  by_cases hlog : 52 + unitExponent ≤ units.log2
  · left
    refine Nat.dvd_trans ?_ h
    rw [one_eq, spacing_def]
    exact Nat.pow_dvd_pow 2 (by omega)
  · right
    rw [one_eq, ← Nat.pow_add]
    exact Nat.lt_log2_self.trans_le (Nat.pow_le_pow_right (by decide) (by omega))

/-- A double that is rounded to a whole number is a double. -/
theorem representable_roundHalfUp {units : Nat} (h : Representable units) :
    Representable (roundHalfUp units one * one) := by
  obtain hwhole | hsmall := one_dvd_or_lt (representable_iff.1 h).2
  · have hround : roundHalfUp units one = units / one := by
      have hone := one_pos
      have hmul := Nat.div_mul_cancel hwhole
      rw [roundHalfUp_eq_iff hone, Nat.mul_assoc, hmul]
      omega
    rwa [hround, Nat.div_mul_cancel hwhole]
  · have hround : roundHalfUp units one < 2 ^ 53 := by
      rw [roundHalfUp, Nat.div_lt_iff_lt_mul (Nat.mul_pos (by decide) one_pos)]
      have hone := one_pos
      omega
    exact representable_mul_one hround

/-- A count of ten-thousandths stands for a double. -/
theorem representable_unitsOfCount {count : Nat} (h : Representable (count * one)) :
    Representable (unitsOfCount count) := by
  obtain ⟨hlt, hdvd⟩ := representable_iff.1 h
  have hle : unitsOfCount count ≤ count * one :=
    nearestUnits_le (by decide) hdvd (Nat.le_mul_of_pos_right _ (by decide))
  exact representable_iff.2 ⟨hle.trans_lt hlt, spacing_dvd_nearestUnits (by decide)⟩

end Binary64

open Binary64

/-- A finite number is rounded to the number closest to its count of ten-thousandths, unless it is
too large to be scaled. -/
theorem roundDecimals_finite (negative : Bool) (units : Nat) (h : Representable units) :
    (scaledUnits units < limit ∧ ∃ h', roundDecimals (.finite negative units h) =
        .finite negative (unitsOfCount (decimalCount units)) h') ∨
      limit ≤ scaledUnits units ∧
        roundDecimals (.finite negative units h) = .finite negative units h := by
  have hdvd : spacing (scaledUnits units) ∣ scaledUnits units :=
    spacing_dvd_nearestUnits Nat.one_pos
  rw [roundDecimals, mul_tenThousand]
  by_cases hlt : scaledUnits units < limit
  · left
    have hscaled : Representable (scaledUnits units) := representable_iff.2 ⟨hlt, hdvd⟩
    have hround := representable_roundHalfUp hscaled
    refine ⟨hlt, representable_unitsOfCount hround, ?_⟩
    rw [ofUnits_of_representable hscaled]
    simp only [isFinite, if_true, Binary64.round, ofUnits_of_representable hround, div_tenThousand]
    exact ofUnits_of_representable _
  · right
    have hnot : ¬Representable (scaledUnits units) := fun hrep => hlt (representable_iff.1 hrep).1
    refine ⟨by omega, ?_⟩
    rw [ofUnits, dif_neg hnot]
    rfl

/-- Rounding keeps a number finite. -/
theorem isFinite_roundDecimals {x : Binary64} (h : x.isFinite) : (roundDecimals x).isFinite := by
  cases x with
  | finite negative units hx =>
    obtain ⟨-, h', heq⟩ | ⟨-, heq⟩ := roundDecimals_finite negative units hx <;> rw [heq] <;> rfl
  | infinite => simp [isFinite] at h
  | nan => simp [isFinite] at h

/-! ## Rounding again -/

namespace Binary64

/-- Up to here rounding to four decimals is settled. -/
def settledLimit : Nat := 2 ^ 38

theorem roundHalfUp_mul_one (n : Nat) : roundHalfUp (n * one) one = n := by
  have hone := one_pos
  have hcomm : 2 * n * one = 2 * (n * one) := by ring
  rw [roundHalfUp_eq_iff hone, hcomm]
  omega

theorem scaledUnits_le {units : Nat} (h : units ≤ settledLimit * one) :
    scaledUnits units ≤ settledLimit * 10000 * one := by
  refine nearestUnits_le Nat.one_pos (spacing_dvd_mul_one (by decide)) ?_
  have hcomm : settledLimit * 10000 * one * 1 = settledLimit * one * 10000 := by ring
  rw [hcomm]
  exact Nat.mul_le_mul_right _ h

/-- In the range, the ten-thousandths can be counted. -/
theorem decimalCount_le {units : Nat} (h : units ≤ settledLimit * one) :
    decimalCount units ≤ settledLimit * 10000 := by
  have hscaled := scaledUnits_le h
  have hone := one_pos
  have hexpand : (settledLimit * 10000 + 1) * (2 * one) =
      2 * (settledLimit * 10000 * one) + 2 * one := by ring
  refine Nat.le_of_lt_succ ?_
  rw [decimalCount, roundHalfUp, Nat.div_lt_iff_lt_mul (by omega), Nat.succ_eq_add_one, hexpand]
  omega

/-- The limit itself is scaled without rounding. -/
theorem scaledUnits_settledLimit :
    scaledUnits (settledLimit * one) = settledLimit * 10000 * one := by
  have hexact := @nearestUnits_mul 1 (settledLimit * 10000 * one) Nat.one_pos
    (spacing_dvd_mul_one (by decide))
  rw [Nat.mul_one (settledLimit * 10000 * one)] at hexact
  rw [scaledUnits, Nat.mul_right_comm]
  exact hexact

theorem unitsOfCount_settledLimit : unitsOfCount (settledLimit * 10000) = settledLimit * one := by
  have hexact := @nearestUnits_mul 10000 (settledLimit * one) (by decide)
    (spacing_dvd_mul_one (by decide))
  rwa [Nat.mul_right_comm] at hexact

/-- A count below the limit is rounded twice, each time by a quarter of one at most. -/
theorem decimalCount_unitsOfCount_of_lt {count : Nat} (hlt : count < settledLimit * 10000) :
    decimalCount (unitsOfCount count) = count := by
  have hone := one_pos
  obtain ⟨-, hlow, hhigh⟩ := @nearestUnits_close (count * one) 10000 (by decide)
  have hquotient : count * one / 10000 < 2 ^ 38 * one := by
    rw [Nat.div_lt_iff_lt_mul (by decide), Nat.mul_right_comm]
    exact Nat.mul_lt_mul_of_pos_right hlt hone
  have hstep := spacing_mul_le_one (by decide) hquotient
  rw [show 53 - 38 = 15 by rfl] at hstep
  have hcount : count * one + one ≤ settledLimit * 10000 * one := by
    rw [← Nat.succ_mul]
    exact Nat.mul_le_mul_right _ hlt
  rw [← unitsOfCount] at hlow hhigh
  rw [show settledLimit = 2 ^ 38 by rfl] at hcount
  generalize unitsOfCount count = units at *
  generalize spacing (count * one / 10000) = step at *
  -- Scaled up, the magnitude is less than a half of one away from its count.
  have hbound : units * 10000 / 1 < 2 ^ 52 * one := by
    omega
  have hstep' := spacing_mul_le_one (by decide) hbound
  rw [show 53 - 52 = 1 by rfl] at hstep'
  obtain ⟨-, hlow', hhigh'⟩ := @nearestUnits_close (units * 10000) 1 Nat.one_pos
  rw [← scaledUnits] at hlow' hhigh'
  generalize spacing (units * 10000 / 1) = step' at *
  rw [decimalCount, roundHalfUp_eq_iff hone, Nat.mul_assoc]
  omega

/-- In the range, the count of ten-thousandths is found again. -/
theorem decimalCount_unitsOfCount {count : Nat} (h : count ≤ settledLimit * 10000) :
    decimalCount (unitsOfCount count) = count := by
  obtain rfl | hlt := Nat.eq_or_lt_of_le h
  · rw [decimalCount, unitsOfCount_settledLimit, scaledUnits_settledLimit, roundHalfUp_mul_one]
  · exact decimalCount_unitsOfCount_of_lt hlt

end Binary64

/-- Whether a number is settled by rounding it to four decimals: it is no greater than `2 ^ 38`. -/
def Binary64.isModerate (x : Binary64) : Bool :=
  match x with
  | .finite _ units _ => units ≤ settledLimit * one
  | _ => false

/-- A moderate number is rounded to a number that is closest to a count of ten-thousandths. -/
theorem roundDecimals_of_isModerate {x : Binary64} (h : x.isModerate) :
    ∃ negative count h', count ≤ settledLimit * 10000 ∧
      roundDecimals x = .finite negative (unitsOfCount count) h' := by
  cases x with
  | finite negative units hx =>
    have hle : units ≤ settledLimit * one := by simpa [isModerate] using h
    have hcount := decimalCount_le hle
    obtain ⟨-, h', heq⟩ | ⟨hlt, -⟩ := roundDecimals_finite negative units hx
    · exact ⟨negative, _, h', hcount, heq⟩
    · -- What is scaled is far from the end of the format.
      have hscaled := (scaledUnits_le hle).trans_lt (mul_one_lt_limit (by decide))
      exact absurd hlt (Nat.not_le.2 hscaled)
  | infinite => contradiction
  | nan => contradiction

/-- A number that is settled is not changed by rounding it again. -/
theorem roundDecimals_unitsOfCount {negative : Bool} {count : Nat}
    (h : count ≤ settledLimit * 10000) (hunits : Representable (unitsOfCount count)) :
    roundDecimals (.finite negative (unitsOfCount count) hunits) =
      .finite negative (unitsOfCount count) hunits := by
  obtain ⟨-, h', heq⟩ | ⟨-, heq⟩ := roundDecimals_finite negative (unitsOfCount count) hunits
  · rw [heq]
    exact finite_congr (by rw [decimalCount_unitsOfCount h])
  · exact heq

/-- In the range, rounding a rounded number does nothing. -/
theorem roundDecimals_roundDecimals {x : Binary64} (h : x.isModerate) :
    roundDecimals (roundDecimals x) = roundDecimals x := by
  obtain ⟨negative, count, h', hcount, heq⟩ := roundDecimals_of_isModerate h
  rw [heq, roundDecimals_unitsOfCount hcount]

namespace Binary64

theorem unitsOfCount_le {count : Nat} (h : count ≤ settledLimit * 10000) :
    unitsOfCount count ≤ settledLimit * one := by
  refine nearestUnits_le (by decide) (spacing_dvd_mul_one (by decide)) ?_
  rw [Nat.mul_right_comm]
  exact Nat.mul_le_mul_right _ h

/-- No count but zero is closest to zero. -/
theorem one_le_unitsOfCount {count : Nat} (h : count ≤ settledLimit * 10000)
    (hpos : 0 < unitsOfCount count) : one ≤ unitsOfCount count * 2 ^ 15 := by
  have hone := one_pos
  have hcount : one ≤ count * one := by
    refine Nat.le_mul_of_pos_left _ (Nat.pos_of_ne_zero ?_)
    rintro rfl
    have hzero := @nearestUnits_mul 10000 0 (by decide) (Nat.dvd_zero _)
    rw [unitsOfCount, Nat.zero_mul] at hpos
    rw [Nat.zero_mul] at hzero
    omega
  have hquotient : count * one / 10000 < 2 ^ 39 * one := by
    rw [Nat.div_lt_iff_lt_mul (by decide), Nat.mul_right_comm]
    refine Nat.mul_lt_mul_of_pos_right (h.trans_lt (by decide)) hone
  have hstep := spacing_mul_le_one (by decide) hquotient
  rw [show 53 - 39 = 14 by rfl] at hstep
  obtain ⟨-, -, hhigh⟩ := @nearestUnits_close (count * one) 10000 (by decide)
  rw [← unitsOfCount] at hhigh
  generalize unitsOfCount count = units at *
  generalize spacing (count * one / 10000) = step at *
  omega

/-- The binary digits of a count of ten-thousandths. -/
theorem log2_unitsOfCount {count : Nat} (h : count ≤ settledLimit * 10000)
    (hpos : 0 < unitsOfCount count) :
    unitExponent ≤ (unitsOfCount count).log2 + 15 ∧
      (unitsOfCount count).log2 ≤ unitExponent + 38 := by
  have hlow := one_le_unitsOfCount h hpos
  have hhigh := unitsOfCount_le h
  have hunit := le_unitExponent
  generalize unitsOfCount count = units at *
  constructor
  · have hpow : 2 ^ (unitExponent - 15) ≤ units := by
      refine Nat.le_of_mul_le_mul_right ?_ (Nat.two_pow_pos 15)
      rw [← Nat.pow_add, Nat.sub_add_cancel (by omega), ← one_eq]
      exact hlow
    have := (Nat.le_log2 (by omega)).2 hpow
    omega
  · have hpow : units < 2 ^ (unitExponent + 38 + 1) := by
      refine hhigh.trans_lt ?_
      rw [one_eq, settledLimit, ← Nat.pow_add]
      exact Nat.pow_lt_pow_right (by decide) (by omega)
    have := (Nat.log2_lt (by omega)).2 hpow
    omega

end Binary64

end AtomicCss
