import AtomicCss.Decimal.Shortest
import Mathlib.Algebra.Order.Ring.Nat
import Mathlib.Data.Nat.Log
import Mathlib.Tactic.Linarith
import Mathlib.Tactic.Ring
/-!
# Rounding to the format

The numbers that round to a given count of units form an interval around it, with its ends if the
last digit of the count is even (`nearestUnits_eq_iff`). Whatever is rounded is a number of the
format, and rounding does not pass a number of the format.

Neighbours of different distance meet at powers of two only (`spacing_eq_or_power`); the proofs here
need nothing else of the distances.
-/

namespace AtomicCss

/-! ## Rounding to whole numbers -/

/-- A whole number is what a quotient rounds to if it is at most a half away, and less than that if
it is odd. -/
theorem roundHalfEven_eq_iff {num den r : Nat} (hden : 0 < den) :
    roundHalfEven num den = r ↔ 2 * r * den ≤ 2 * num + den ∧ 2 * num ≤ 2 * r * den + den ∧
      (r % 2 = 1 → 2 * r * den < 2 * num + den ∧ 2 * num < 2 * r * den + den) := by
  have hnum := Nat.div_add_mod num den
  have hrest := Nat.mod_lt num hden
  have hround : roundHalfEven num den =
      if den < 2 * (num % den) ∨ 2 * (num % den) = den ∧ num / den % 2 = 1 then num / den + 1
      else num / den := rfl
  rw [hround]
  generalize num / den = quotient at *
  generalize num % den = rest at *
  subst hnum
  have hsucc : 2 * (quotient + 1) * den = 2 * (den * quotient) + 2 * den := by ring
  have hself : 2 * quotient * den = 2 * (den * quotient) := by ring
  constructor
  · split
    · rintro rfl
      rw [hsucc]
      omega
    · rintro rfl
      rw [hself]
      omega
  · rintro ⟨hlow, hhigh, hodd⟩
    -- Only the quotient and the next number are near enough; all others are a whole step away.
    obtain hlt | rfl | rfl | hgt :
      r < quotient ∨ r = quotient ∨ r = quotient + 1 ∨ quotient + 1 < r := by
      omega
    · have hle : (2 * r + 2) * den ≤ 2 * quotient * den := Nat.mul_le_mul_right den (by omega)
      have hexpand : (2 * r + 2) * den = 2 * r * den + 2 * den := by ring
      omega
    · rw [hself] at *
      split <;> omega
    · rw [hsucc] at *
      split <;> omega
    · have hle : (2 * (quotient + 1) + 2) * den ≤ 2 * r * den := Nat.mul_le_mul_right den (by omega)
      have hexpand : (2 * (quotient + 1) + 2) * den = 2 * (den * quotient) + 4 * den := by ring
      omega

namespace Binary64

/-! ## Distances of neighbours -/

theorem spacing_def (units : Nat) : spacing units = 2 ^ (units.log2 - 52) := by
  rw [spacing, precision, show units.log2 + 1 - 53 = units.log2 - 52 by omega]
  rfl

theorem spacing_pos (units : Nat) : 0 < spacing units :=
  powerOfTwo_pos _

theorem spacing_dvd_spacing {a b : Nat} (h : a ≤ b) : spacing a ∣ spacing b := by
  rw [spacing_def, spacing_def]
  refine Nat.pow_dvd_pow 2 ?_
  have hlog : a.log2 ≤ b.log2 := by
    simpa only [Nat.log2_eq_log_two] using Nat.log_mono_right h
  omega

/-- Either the distance is the same at two places, or a power of two lies between them, which is a
multiple of both distances, and an even one of the upper. -/
theorem spacing_eq_or_power {a b : Nat} (h : a ≤ b) :
    spacing a = spacing b ∨ ∃ p, a < p ∧ p ≤ b ∧ spacing a ∣ p ∧ 2 * spacing b ∣ p := by
  have hlog : a.log2 ≤ b.log2 := by
    simpa only [Nat.log2_eq_log_two] using Nat.log_mono_right h
  obtain heq | hlt := Nat.eq_or_lt_of_le hlog
  · exact .inl (by rw [spacing, spacing, heq])
  · have hb : b ≠ 0 := by
      rintro rfl
      simp at hlt
    refine .inr ⟨2 ^ b.log2, ?_, Nat.log2_self_le hb, ?_, ?_⟩
    · exact (Nat.lt_log2_self).trans_le (Nat.pow_le_pow_right (by decide) hlt)
    · rw [spacing_def]
      exact Nat.pow_dvd_pow 2 (by omega)
    · rw [spacing_def, ← Nat.pow_succ']
      exact Nat.pow_dvd_pow 2 (by omega)

/-- Multiples of a distance are at least that far apart. -/
theorem add_le_of_dvd {step a b : Nat} (ha : step ∣ a) (hb : step ∣ b) (h : a < b) :
    a + step ≤ b := by
  obtain ⟨m, rfl⟩ := ha
  obtain ⟨n, rfl⟩ := hb
  have hmn : m < n := Nat.lt_of_mul_lt_mul_left h
  calc step * m + step = step * (m + 1) := by ring
    _ ≤ step * n := Nat.mul_le_mul_left step hmn

/-! ## What rounds to a count of units -/

section Nearest

variable {num den u : Nat}

/-- What rounding to multiples of a distance comes to, the distance being that at the quotient. -/
theorem nearestUnits_eq_iff_step (hden : 0 < den) :
    nearestUnits num den = u ↔ spacing (num / den) ∣ u ∧
      2 * (u * den) ≤ 2 * num + spacing (num / den) * den ∧
      2 * num ≤ 2 * (u * den) + spacing (num / den) * den ∧
      (u / spacing (num / den) % 2 = 1 →
        2 * (u * den) < 2 * num + spacing (num / den) * den ∧
        2 * num < 2 * (u * den) + spacing (num / den) * den) := by
  have hstep := spacing_pos (num / den)
  rw [nearestUnits]
  generalize spacing (num / den) = step at *
  have hmul : den * step = step * den := Nat.mul_comm ..
  constructor
  · rintro rfl
    -- The rule for quotients, with all sides multiplied by the distance.
    have hround := (@roundHalfEven_eq_iff num (den * step) _ (Nat.mul_pos hden hstep)).1 rfl
    have hcount : ∀ r, 2 * (r * step * den) = 2 * r * (den * step) := fun r => by ring
    rw [hcount, ← hmul, Nat.mul_div_cancel _ hstep]
    exact ⟨Nat.dvd_mul_left .., hround⟩
  · rintro ⟨⟨r, rfl⟩, h⟩
    have hcount : 2 * (step * r * den) = 2 * r * (den * step) := by ring
    rw [hcount, ← hmul, Nat.mul_div_cancel_left _ hstep] at h
    rw [(roundHalfEven_eq_iff (Nat.mul_pos hden hstep)).2 h, Nat.mul_comm]

theorem lt_mul_of_div_lt {p : Nat} (hden : 0 < den) (h : num / den < p) : num < p * den :=
  (Nat.div_lt_iff_lt_mul hden).1 h

theorem mul_le_of_le_div {p : Nat} (hden : 0 < den) (h : p ≤ num / den) : p * den ≤ num :=
  (Nat.le_div_iff_mul_le hden).1 h

/-- A multiple of two distances that differ by `step` at least, counted `den` times. -/
theorem add_mul_le_of_dvd {step a b : Nat} (ha : step ∣ a) (hb : step ∣ b) (h : a < b) (den : Nat) :
    a * den + step * den ≤ b * den := by
  rw [← Nat.add_mul]
  exact Nat.mul_le_mul_right den (add_le_of_dvd ha hb h)

/-- The distance at a quotient is the distance above a count that is not greater and less than a
distance away. -/
theorem spacing_eq_of_le (step : Nat) (hden : 0 < den)
    (hstep : step = spacing u ∨ step = spacing (num / den)) (hdvd : step ∣ u)
    (hle : u * den ≤ num) (hclose : num < u * den + step * den) :
    spacing u = spacing (num / den) := by
  refine (spacing_eq_or_power ((Nat.le_div_iff_mul_le hden).2 hle)).resolve_right ?_
  rintro ⟨p, hup, hpq, hdvdu, hdvdq⟩
  have hp : step ∣ p := by
    obtain rfl | rfl := hstep
    · exact hdvdu
    · exact (Nat.dvd_mul_left ..).trans hdvdq
  have hfar := add_mul_le_of_dvd hdvd hp hup den
  have hnum := mul_le_of_le_div hden hpq
  omega

/-- The distance at a quotient is the distance below a count that is greater and less than a
distance away. -/
theorem spacing_eq_of_lt (step : Nat) (hden : 0 < den)
    (hstep : step = spacing (num / den) ∨ step = spacing (u - 1)) (hdvd : step ∣ u)
    (hlt : num < u * den) (hclose : u * den < num + step * den) :
    spacing (num / den) = spacing (u - 1) := by
  have hquotient : num / den < u := (Nat.div_lt_iff_lt_mul hden).2 hlt
  refine (spacing_eq_or_power (Nat.le_sub_one_of_lt hquotient)).resolve_right ?_
  rintro ⟨p, hqp, hpu, hdvdq, hdvdu⟩
  have hp : step ∣ p := by
    obtain rfl | rfl := hstep
    · exact hdvdq
    · exact (Nat.dvd_mul_left ..).trans hdvdu
  have hpos : 0 < u := Nat.zero_lt_of_lt hquotient
  have hfar := add_mul_le_of_dvd hp hdvd (show p < u by omega) den
  have hnum := lt_mul_of_div_lt hden hqp
  omega

/-- The distances on both sides of a count differ only if it is even in the upper one. -/
theorem spacing_pred_eq_or_even (u : Nat) :
    spacing (u - 1) = spacing u ∨ 2 * spacing u ∣ u := by
  refine (spacing_eq_or_power (Nat.sub_le u 1)).imp_right ?_
  rintro ⟨p, hlt, hle, -, hdvd⟩
  obtain rfl : p = u := by omega
  exact hdvd

theorem div_mod_two_of_even {step : Nat} (hstep : 0 < step) (h : 2 * step ∣ u) :
    u / step % 2 = 0 := by
  obtain ⟨m, rfl⟩ := h
  rw [show 2 * step * m = step * (2 * m) by ring, Nat.mul_div_cancel_left _ hstep]
  omega

/-- Above a count of units and at it, the distance is that above the count. -/
theorem nearestUnits_eq_iff_of_le (hden : 0 < den) (hdvd : spacing u ∣ u) (hle : u * den ≤ num) :
    nearestUnits num den = u ↔
      2 * num ≤ 2 * (u * den) + spacing u * den ∧
        (u / spacing u % 2 = 1 → 2 * num < 2 * (u * den) + spacing u * den) := by
  have habove := Nat.mul_pos (spacing_pos u) hden
  have hquotient := Nat.mul_pos (spacing_pos (num / den)) hden
  rw [nearestUnits_eq_iff_step hden]
  constructor
  · rintro ⟨hstep, -, hhigh, hodd⟩
    -- The quotient has the distance of the count, or is too far away.
    have heq := spacing_eq_of_le _ hden (.inr rfl) hstep hle (by omega)
    rw [← heq] at hhigh hodd
    exact ⟨hhigh, fun h => (hodd h).2⟩
  · rintro ⟨hhigh, hodd⟩
    have heq := spacing_eq_of_le _ hden (.inl rfl) hdvd hle (by omega)
    rw [← heq]
    exact ⟨hdvd, by omega, hhigh, fun h => ⟨by omega, hodd h⟩⟩

/-- Below a count of units, the distance is that below the count. An odd count is no power of two, so
that the distances on both sides of it are the same. -/
theorem nearestUnits_eq_iff_of_lt (hden : 0 < den) (hdvd : spacing u ∣ u) (hlt : num < u * den) :
    nearestUnits num den = u ↔
      2 * (u * den) ≤ 2 * num + spacing (u - 1) * den ∧
        (u / spacing u % 2 = 1 → 2 * (u * den) < 2 * num + spacing (u - 1) * den) := by
  have hbelow := Nat.mul_pos (spacing_pos (u - 1)) hden
  have hquotient := Nat.mul_pos (spacing_pos (num / den)) hden
  have hdvd' : spacing (u - 1) ∣ u := (spacing_dvd_spacing (Nat.sub_le u 1)).trans hdvd
  rw [nearestUnits_eq_iff_step hden]
  constructor
  · rintro ⟨hstep, hlow, -, hodd⟩
    have heq := spacing_eq_of_lt _ hden (.inl rfl) hstep hlt (by omega)
    rw [heq] at hlow hodd
    refine ⟨hlow, fun h => ?_⟩
    obtain hsame | heven := spacing_pred_eq_or_even u
    · exact (hodd (by rwa [hsame])).1
    · exact absurd h (by simp [div_mod_two_of_even (spacing_pos u) heven])
  · rintro ⟨hlow, hodd⟩
    have heq : spacing (num / den) = spacing (u - 1) :=
      spacing_eq_of_lt _ hden (.inr rfl) hdvd' hlt (by omega)
    rw [heq]
    refine ⟨hdvd', hlow, by omega, fun h => ⟨?_, by omega⟩⟩
    obtain hsame | heven := spacing_pred_eq_or_even u
    · exact hodd (by rwa [← hsame])
    · have heven' : 2 * spacing (u - 1) ∣ u :=
        (Nat.mul_dvd_mul_left 2 (spacing_dvd_spacing (Nat.sub_le u 1))).trans heven
      exact absurd h (by simp [div_mod_two_of_even (spacing_pos (u - 1)) heven'])

/-- What rounds to a count of units lies in the interval around it. -/
theorem nearestUnits_eq_iff (hden : 0 < den) (hdvd : spacing u ∣ u) :
    nearestUnits num den = u ↔
      2 * (u * den) ≤ 2 * num + spacing (u - 1) * den ∧
      2 * num ≤ 2 * (u * den) + spacing u * den ∧
      (u / spacing u % 2 = 1 →
        2 * (u * den) < 2 * num + spacing (u - 1) * den ∧
        2 * num < 2 * (u * den) + spacing u * den) := by
  have hbelow := Nat.mul_pos (spacing_pos (u - 1)) hden
  have habove := Nat.mul_pos (spacing_pos u) hden
  -- On either side of the count the bounds of the other side hold anyway.
  by_cases hle : u * den ≤ num
  · rw [nearestUnits_eq_iff_of_le hden hdvd hle]
    omega
  · rw [nearestUnits_eq_iff_of_lt hden hdvd (by omega)]
    omega

/-- Rounding is off by half a distance at most. -/
theorem nearestUnits_close (hden : 0 < den) :
    spacing (num / den) ∣ nearestUnits num den ∧
      2 * (nearestUnits num den * den) ≤ 2 * num + spacing (num / den) * den ∧
      2 * num ≤ 2 * (nearestUnits num den * den) + spacing (num / den) * den := by
  obtain ⟨hdvd, hlow, hhigh, -⟩ := (nearestUnits_eq_iff_step hden).1 rfl
  exact ⟨hdvd, hlow, hhigh⟩

/-- What is rounded is a multiple of the distance where it comes to lie. -/
theorem spacing_dvd_nearestUnits (hden : 0 < den) :
    spacing (nearestUnits num den) ∣ nearestUnits num den := by
  obtain ⟨hdvd, hlow, hhigh⟩ := @nearestUnits_close num den hden
  have hquotient := Nat.mul_pos (spacing_pos (num / den)) hden
  generalize nearestUnits num den = u at *
  by_cases hle : u * den ≤ num
  · rwa [spacing_eq_of_le _ hden (.inr rfl) hdvd hle (by omega)]
  · have heq := spacing_eq_of_lt _ hden (.inl rfl) hdvd (by omega) (by omega)
    obtain hsame | heven := spacing_pred_eq_or_even u
    · rwa [← hsame, ← heq]
    · exact (Nat.dvd_mul_left ..).trans heven

/-- Rounding does not pass a number of the format. -/
theorem nearestUnits_le {bound : Nat} (hden : 0 < den) (hbound : spacing bound ∣ bound)
    (h : num ≤ bound * den) : nearestUnits num den ≤ bound := by
  obtain ⟨hdvd, hlow, -⟩ := @nearestUnits_close num den hden
  have hquotient := Nat.mul_pos (spacing_pos (num / den)) hden
  by_contra hlt
  have hle : num / den ≤ bound := Nat.div_le_of_le_mul (by rwa [Nat.mul_comm])
  obtain heq | ⟨p, hqp, hpb, hdvdp, -⟩ := spacing_eq_or_power hle
  · rw [heq] at hdvd
    have hfar := add_mul_le_of_dvd hbound hdvd (show bound < nearestUnits num den by omega) den
    rw [← heq] at hfar
    omega
  · have hfar := add_mul_le_of_dvd hdvdp hdvd (show p < nearestUnits num den by omega) den
    have hnum := lt_mul_of_div_lt hden hqp
    omega

/-- A number of the format is rounded to itself. -/
theorem nearestUnits_mul (hden : 0 < den) (hdvd : spacing u ∣ u) :
    nearestUnits (u * den) den = u := by
  have hbelow := Nat.mul_pos (spacing_pos (u - 1)) hden
  have habove := Nat.mul_pos (spacing_pos u) hden
  rw [nearestUnits_eq_iff hden hdvd]
  omega

end Nearest

theorem representable_iff {units : Nat} :
    Representable units ↔ units < limit ∧ spacing units ∣ units := by
  rw [Representable, Nat.dvd_iff_mod_eq_zero]

end Binary64

end AtomicCss
