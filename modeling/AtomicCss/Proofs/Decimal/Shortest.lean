import AtomicCss.Proofs.Binary64.Decimals
import AtomicCss.Proofs.Decimal.Numeral
/-!
# The shortest decimal reads back

A multiple of a power of ten that lies in the interval around a number is read as that number
(`contains_around_iff`). The search hits such a multiple as soon as one is on the grid
(`closest?_coarsest`), and for a number closest to a count of ten-thousandths that is so on the grid
of ten-thousandths at the latest.
-/

namespace AtomicCss.Decimal

open Binary64

/-! ## Intervals -/

/-- What lies on a grid and in the interval around a number rounds to the number. -/
theorem contains_around_iff {units : Nat} (hpos : 0 < units) (hdvd : spacing units ∣ units)
    {scale : Nat} (hscale : 0 < scale) (num : Nat) :
    (Interval.around units).contains scale (2 * num) ↔ nearestUnits num scale = units := by
  have hbelow : spacing (units - 1) ≤ units :=
    Nat.le_of_dvd hpos ((spacing_dvd_spacing (Nat.sub_le units 1)).trans hdvd)
  have hlow : (2 * units - spacing (units - 1)) * scale + spacing (units - 1) * scale =
      2 * (units * scale) := by
    rw [← Nat.add_mul, Nat.sub_add_cancel (by omega), Nat.mul_assoc]
  have hhigh : (2 * units + spacing units) * scale = 2 * (units * scale) + spacing units * scale := by
    ring
  rw [nearestUnits_eq_iff hscale hdvd]
  by_cases hclosed : units / spacing units % 2 = 0
  · have hodd : ¬units / spacing units % 2 = 1 := by omega
    simp only [Interval.contains, Interval.around, hclosed, decide_true, if_true, decide_eq_true_eq,
      hhigh]
    omega
  · have hodd : units / spacing units % 2 = 1 := by omega
    simp only [Interval.contains, Interval.around, hodd, hhigh]
    simp
    omega

section Search

variable {tie : Tie} {interval : Interval} {exponent : Int}

/-- The distance of the multiples of a power of ten, in half units at its scale. -/
def gridStep (exponent : Int) : Nat :=
  powerOfTen exponent.toNat * (2 * Binary64.one)

def gridScale (exponent : Int) : Nat :=
  powerOfTen (-exponent).toNat

theorem powerOfTen_zero : powerOfTen 0 = 1 := rfl

theorem powerOfTen_pos (n : Nat) : 0 < powerOfTen n :=
  Nat.pow_pos (by decide)

theorem gridStep_pos (exponent : Int) : 0 < gridStep exponent := by
  have hone := one_pos
  unfold gridStep
  generalize Binary64.one = unit at *
  exact Nat.mul_pos (powerOfTen_pos _) (by omega)

/-- A multiple that is taken lies in the interval, and none is taken only if both multiples next to
the value lie outside. -/
theorem closest?_cases (tie : Tie) (interval : Interval) (exponent : Int) :
    (∃ coefficient, closest? tie interval exponent = some coefficient ∧
        interval.contains (gridScale exponent) (coefficient * gridStep exponent)) ∨
      closest? tie interval exponent = none ∧
        (∀ m, m = interval.value * gridScale exponent / gridStep exponent ∨
            m = interval.value * gridScale exponent / gridStep exponent + 1 →
          interval.contains (gridScale exponent) (m * gridStep exponent) = false) := by
  unfold closest?
  simp only [← gridStep.eq_1, ← gridScale.eq_1]
  generalize interval.value * gridScale exponent / gridStep exponent = lower
  -- Whether the multiple below lies inside, and whether the one above does.
  split
  · -- Neither does.
    rename_i hlower hupper
    refine .inr ⟨rfl, ?_⟩
    rintro m (rfl | rfl)
    · exact hlower
    · exact hupper
  · rename_i hlower _
    exact .inl ⟨_, rfl, hlower⟩
  · rename_i _ hupper
    exact .inl ⟨_, rfl, hupper⟩
  · -- Both do: the nearer one is taken, and the rule for ties only chooses among the two.
    rename_i hlower hupper
    left
    split
    · exact ⟨_, rfl, hlower⟩
    · split
      · exact ⟨_, rfl, hupper⟩
      · cases tie with
        | upper => exact ⟨_, rfl, hupper⟩
        | even =>
          refine ⟨_, rfl, ?_⟩
          split
          · exact hlower
          · exact hupper

/-- A point of an interval: between one of its points and its value everything lies inside. -/
theorem contains_of_between {scale point : Nat} (other : Nat) (hscale : 0 < scale)
    (hvalue : interval.low < interval.value ∧ interval.value < interval.high)
    (h : interval.contains scale point)
    (hother : point ≤ other ∧ other ≤ interval.value * scale ∨
      interval.value * scale ≤ other ∧ other ≤ point) :
    interval.contains scale other := by
  have hlow : interval.low * scale < interval.value * scale :=
    Nat.mul_lt_mul_of_pos_right hvalue.1 hscale
  have hhigh : interval.value * scale < interval.high * scale :=
    Nat.mul_lt_mul_of_pos_right hvalue.2 hscale
  unfold Interval.contains at *
  -- The ends belong to an interval or not, and so the bounds are weak or strict.
  split at h
  · rw [if_pos ‹_›]
    simp only [decide_eq_true_eq] at *
    omega
  · rw [if_neg ‹_›]
    simp only [decide_eq_true_eq] at *
    omega

/-- If a multiple lies in the interval, then one is taken. -/
theorem closest?_ne_none {m : Nat}
    (hvalue : interval.low < interval.value ∧ interval.value < interval.high)
    (h : interval.contains (gridScale exponent) (m * gridStep exponent)) :
    closest? tie interval exponent ≠ none := by
  obtain ⟨coefficient, hsome, -⟩ | ⟨-, hnot⟩ := closest?_cases tie interval exponent
  · simp [hsome]
  · have hscale : 0 < gridScale exponent := powerOfTen_pos _
    have hstep := gridStep_pos exponent
    -- The multiple next to the value on the side of `m` lies between the two.
    have hlower := Nat.div_mul_le_self (interval.value * gridScale exponent) (gridStep exponent)
    have hupper : interval.value * gridScale exponent <
        interval.value * gridScale exponent / gridStep exponent * gridStep exponent +
          gridStep exponent :=
      Nat.lt_div_mul_add hstep
    generalize interval.value * gridScale exponent / gridStep exponent = lower at *
    obtain hlt | hle := Nat.lt_or_ge lower m
    · have hnext : (lower + 1) * gridStep exponent ≤ m * gridStep exponent :=
        Nat.mul_le_mul_right _ hlt
      have hin := contains_of_between ((lower + 1) * gridStep exponent) hscale hvalue h
        (.inr ⟨by rw [Nat.add_mul, Nat.one_mul]; exact hupper.le, hnext⟩)
      rw [hnot _ (.inr rfl)] at hin
      exact absurd hin Bool.false_ne_true
    · have hnext : m * gridStep exponent ≤ lower * gridStep exponent := Nat.mul_le_mul_right _ hle
      have hin := contains_of_between _ hscale hvalue h (.inl ⟨hnext, hlower⟩)
      rw [hnot _ (.inl rfl)] at hin
      exact absurd hin Bool.false_ne_true

/-- The search ends at a multiple that is taken, on a grid that is no finer than one with such a
multiple. -/
theorem closest?_coarsest (grids : Nat) {start : Int} (hstart : exponent ≤ start)
    (hgrids : start ≤ exponent + grids) (h : closest? tie interval exponent ≠ none) :
    closest? tie interval (coarsest tie interval grids start).exponent =
        some (coarsest tie interval grids start).coefficient ∧
      exponent ≤ (coarsest tie interval grids start).exponent := by
  -- By induction on the grids that are left; the finest one, where a multiple is taken, is not
  -- left behind.
  induction grids generalizing start with
  | zero =>
    obtain rfl : start = exponent := by omega
    obtain ⟨coefficient, hsome⟩ := Option.ne_none_iff_exists'.1 h
    simp [coarsest, hsome]
  | succ grids ih =>
    rw [coarsest]
    split
    · rename_i coefficient hsome
      exact ⟨hsome, hstart⟩
    · rename_i hnone
      have hne : start ≠ exponent := by
        rintro rfl
        exact h hnone
      exact ih (by omega) (by omega)

end Search

/-! ## Reading what was found -/

theorem length_digits_le {n k : Nat} (h : n < 10 ^ (k + 1)) : (digits n).length ≤ k + 1 := by
  induction k generalizing n with
  | zero =>
    rw [digits_of_lt (by simpa using h)]
    rfl
  | succ k ih =>
    by_cases hn : n < 10
    · rw [digits_of_lt hn]
      simp
    · have hlt : n / 10 < 10 ^ (k + 1) := by
        rw [Nat.div_lt_iff_lt_mul (by decide), ← Nat.pow_succ]
        exact h
      rw [digits_of_le (by omega), List.length_append, List.length_singleton]
      have hlength := ih hlt
      omega

/-- Digits that round to a moderate number are read as that number. -/
theorem toBinary64_of_nearestUnits {negative : Bool} {coefficient places units : Nat}
    (h : Representable units) (hpos : 0 < units) (hle : units ≤ settledLimit * one)
    (hplaces : places ≤ 4) (hnear : nearestUnits (coefficient * one) (powerOfTen places) = units) :
    toBinary64 negative coefficient (-(places : Int)) = .finite negative units h := by
  have hscale := powerOfTen_pos places
  have hdvd := (representable_iff.1 h).2
  have hne : coefficient ≠ 0 := by
    rintro rfl
    have hzero := @nearestUnits_mul (powerOfTen places) 0 hscale (Nat.dvd_zero _)
    rw [Nat.zero_mul] at hnear hzero
    omega
  -- Moderate numbers have few digits, so that the reader neither cuts them off nor gives up.
  have hlength : (digits coefficient).length ≤ 17 := by
    refine length_digits_le (Nat.lt_of_mul_lt_mul_right (a := one) ?_)
    obtain ⟨-, hhigh, -⟩ := (nearestUnits_eq_iff hscale hdvd).1 hnear
    have hspacing : spacing units * powerOfTen places ≤ units * powerOfTen places :=
      Nat.mul_le_mul_right _ (Nat.le_of_dvd hpos hdvd)
    have hbound : units * powerOfTen places ≤ settledLimit * one * 10 ^ 4 :=
      Nat.mul_le_mul hle (Nat.pow_le_pow_right (by decide) hplaces)
    have hone := one_pos
    rw [show settledLimit = 2 ^ 38 by rfl] at hbound
    generalize one = unit at *
    omega
  have hsize : (-(-(places : Int))).toNat = places := by omega
  have hnone : (-(places : Int)).toNat = 0 := by omega
  have hdigits := List.length_pos_iff.2 (digits_ne_nil coefficient)
  rw [toBinary64, if_neg hne]
  simp only [hsize, hnone]
  rw [if_neg (by omega), if_neg (by omega), powerOfTen_zero, Nat.mul_one, ofRatio, hnear,
    ofUnits_of_representable h]

theorem contains_grid_iff {units : Nat} (hpos : 0 < units) (hdvd : spacing units ∣ units) (m : Nat)
    (exponent : Int) :
    (Interval.around units).contains (gridScale exponent) (m * gridStep exponent) ↔
      nearestUnits (m * powerOfTen exponent.toNat * one) (gridScale exponent) = units := by
  have hpoint : m * gridStep exponent = 2 * (m * powerOfTen exponent.toNat * one) := by
    unfold gridStep
    ring
  rw [hpoint]
  exact contains_around_iff hpos hdvd (powerOfTen_pos _) _

theorem around_value {units : Nat} (hpos : 0 < units) :
    (Interval.around units).low < (Interval.around units).value ∧
      (Interval.around units).value < (Interval.around units).high := by
  have hbelow := spacing_pos (units - 1)
  have habove := spacing_pos units
  simp only [Interval.around]
  omega

/-- The search for the shortest decimal of a count of ten-thousandths passes the grid of
ten-thousandths. -/
theorem leadingExponent_unitsOfCount {count : Nat} (hcount : count ≤ settledLimit * 10000)
    (hpos : 0 < unitsOfCount count) :
    -4 ≤ leadingExponent (unitsOfCount count) ∧ leadingExponent (unitsOfCount count) ≤ 16 := by
  obtain ⟨hlow, hhigh⟩ := log2_unitsOfCount hcount hpos
  rw [show unitExponent = 1074 by rfl] at hlow hhigh
  unfold leadingExponent
  omega

/-- The shortest decimal of a count of ten-thousandths rounds to the number that is closest to the
count. -/
theorem nearestUnits_shortest {count : Nat} (hcount : count ≤ settledLimit * 10000)
    (hpos : 0 < unitsOfCount count) :
    nearestUnits ((shortest .upper (unitsOfCount count)).coefficient *
        powerOfTen (shortest .upper (unitsOfCount count)).exponent.toNat * one)
      (powerOfTen (-(shortest .upper (unitsOfCount count)).exponent).toNat) = unitsOfCount count ∧
    -4 ≤ (shortest .upper (unitsOfCount count)).exponent := by
  have hdvd : spacing (unitsOfCount count) ∣ unitsOfCount count :=
    spacing_dvd_nearestUnits (by decide)
  obtain ⟨hstart, hend⟩ := leadingExponent_unitsOfCount hcount hpos
  -- On the grid of ten-thousandths the count itself is in the interval.
  have hhit : (Interval.around (unitsOfCount count)).contains (gridScale (-4))
      (count * gridStep (-4)) := by
    rw [contains_grid_iff hpos hdvd, show powerOfTen (-4 : Int).toNat = 1 by rfl, Nat.mul_one]
    rfl
  have hne : closest? .upper (.around (unitsOfCount count)) (-4) ≠ none :=
    closest?_ne_none (around_value hpos) hhit
  obtain ⟨hsome, hexponent⟩ := closest?_coarsest 20 hstart (by omega) hne
  rw [← shortest] at hsome hexponent
  obtain ⟨coefficient, heq, hin⟩ | ⟨hnone, -⟩ := closest?_cases .upper
    (.around (unitsOfCount count)) (shortest .upper (unitsOfCount count)).exponent
  · rw [hsome] at heq
    obtain rfl := Option.some.inj heq
    exact ⟨(contains_grid_iff hpos hdvd _ _).1 hin, hexponent⟩
  · rw [hsome] at hnone
    cases hnone

end AtomicCss.Decimal
