import AtomicCss.Decimal.Reader
import AtomicCss.Proofs.Token.Reads
import AtomicCss.Value.Number
import Mathlib.Data.List.Induction
import Mathlib.Data.List.TakeDrop
import Mathlib.Tactic.Ring
/-!
# Numerals

A numeral is a sign, digits and a fraction. Positional notation is a numeral
(`exists_numeral_positional`), also without the zero in front of its point, and the reader gives the
number that a numeral stands for (`read?_spell`).
-/

namespace AtomicCss.Decimal

/-! ## Digits -/

theorem isDigit_digitChar : ∀ d < 10, (digitChar d).isDigit := by
  decide

theorem digitValue_digitChar : ∀ d < 10, digitValue (digitChar d) = d := by
  decide

theorem digitsOnto_of_lt {n : Nat} (h : n < 10) (rest : List Char) :
    digitsOnto n rest = digitChar n :: rest := by
  rw [digitsOnto, if_pos h]

/-- The last digit is put in front of the rest, and the others in front of it. -/
theorem digitsOnto_of_le {n : Nat} (h : 10 ≤ n) (rest : List Char) :
    digitsOnto n rest = digitsOnto (n / 10) (digitChar (n % 10) :: rest) := by
  rw [digitsOnto, if_neg (by omega)]

/-- Digits are put in front of whatever is there. -/
theorem digitsOnto_eq_append (n : Nat) (rest : List Char) :
    digitsOnto n rest = digits n ++ rest := by
  induction n using Nat.strongRecOn generalizing rest with
  | ind n ih =>
    rw [digits]
    by_cases h : n < 10
    · rw [digitsOnto_of_lt h, digitsOnto_of_lt h]
      rfl
    · have hlt : n / 10 < n := by omega
      rw [digitsOnto_of_le (by omega) rest, digitsOnto_of_le (by omega) [], ih _ hlt, ih _ hlt,
        List.append_assoc]
      rfl

theorem digits_of_lt {n : Nat} (h : n < 10) : digits n = [digitChar n] :=
  digitsOnto_of_lt h []

/-- The last digit stands for the remainder, those in front of it for the quotient. -/
theorem digits_of_le {n : Nat} (h : 10 ≤ n) : digits n = digits (n / 10) ++ [digitChar (n % 10)] := by
  rw [digits, digitsOnto_of_le h, digitsOnto_eq_append]

theorem digits_ne_nil (n : Nat) : digits n ≠ [] := by
  by_cases h : n < 10
  · simp [digits_of_lt h]
  · simp [digits_of_le (show 10 ≤ n by omega)]

/-- The digits of a number are digits. -/
theorem isDigit_of_mem_digits (n : Nat) : ∀ c ∈ digits n, c.isDigit := by
  induction n using Nat.strongRecOn with
  | ind n ih =>
    by_cases h : n < 10
    · simpa [digits_of_lt h] using isDigit_digitChar n h
    · have hfront := ih (n / 10) (by omega)
      have hlast := isDigit_digitChar (n % 10) (Nat.mod_lt n (by omega))
      rw [digits_of_le (by omega)]
      intro c hc
      obtain hc | rfl := by simpa using hc
      · exact hfront c hc
      · exact hlast

theorem powerOfTen_eq (n : Nat) : powerOfTen n = 10 ^ n := rfl

/-- The digits in front count as often as the digits behind have places. -/
theorem ofDigits_append (cs ds : List Char) :
    ofDigits (cs ++ ds) = ofDigits cs * powerOfTen ds.length + ofDigits ds := by
  induction ds using List.reverseRecOn with
  | nil => simp [ofDigits, powerOfTen]
  | append_singleton ds d ih =>
    simp only [ofDigits] at ih
    simp only [ofDigits, ← List.append_assoc, List.foldl_append, List.foldl_cons, List.foldl_nil, ih,
      List.length_append, List.length_singleton, powerOfTen_eq]
    ring

/-- The digits of a number are read as the number. -/
theorem ofDigits_digits (n : Nat) : ofDigits (digits n) = n := by
  induction n using Nat.strongRecOn with
  | ind n ih =>
    by_cases h : n < 10
    · simp [digits_of_lt h, ofDigits, digitValue_digitChar n h]
    · have hlast := digitValue_digitChar (n % 10) (Nat.mod_lt n (by omega))
      have hfront := ih (n / 10) (by omega)
      rw [ofDigits] at hfront
      rw [digits_of_le (by omega), ofDigits, List.foldl_append, hfront]
      simp only [List.foldl_cons, List.foldl_nil, hlast]
      omega

/-- Zeros are read as zero. -/
theorem ofDigits_replicate_zero (k : Nat) : ofDigits (List.replicate k '0') = 0 := by
  induction k with
  | zero => rfl
  | succ k ih => rw [List.replicate_succ', ofDigits_append, ih]; rfl

/-! ## Numerals -/

/-- A number in positional notation: its sign, and the digits before and behind the point. -/
structure Numeral where
  negative : Bool
  whole : List Char
  fraction : List Char
  isDigit_whole : ∀ c ∈ whole, c.isDigit
  isDigit_fraction : ∀ c ∈ fraction, c.isDigit
  digits_ne_nil : whole ++ fraction ≠ []

namespace Numeral

/-- The point and the digits behind it. -/
def point (fraction : List Char) : List Char :=
  if fraction = [] then [] else '.' :: fraction

def spell (n : Numeral) : List Char :=
  (if n.negative then ['-'] else []) ++ (n.whole ++ point n.fraction)

/-- The digits of the numeral as one number. -/
def coefficient (n : Numeral) : Nat :=
  ofDigits (n.whole ++ n.fraction)

/-- The number that the numeral stands for. -/
def toBinary64 (n : Numeral) : Binary64 :=
  Decimal.toBinary64 n.negative n.coefficient (-(n.fraction.length : Int))

/-- The digit zero. -/
def zero : Numeral where
  negative := false
  whole := ['0']
  fraction := []
  isDigit_whole := by simp
  isDigit_fraction := by simp
  digits_ne_nil := by simp

/-- The whole part counts as often as the fraction has places. -/
theorem coefficient_def (n : Numeral) :
    n.coefficient = ofDigits n.whole * powerOfTen n.fraction.length + ofDigits n.fraction :=
  ofDigits_append _ _

end Numeral

/-! ## Positional notation -/

theorem isDigit_of_mem_replicate {k : Nat} : ∀ c ∈ List.replicate k '0', c.isDigit := by
  intro c hc
  obtain rfl := List.eq_of_mem_replicate hc
  rfl

/-- That a numeral is what a decimal is written as behind a sign. -/
structure Numeral.Writes (n : Numeral) (negative : Bool) (d : Decimal) : Prop where
  sign : n.negative = negative
  spell : n.spell = (if negative then ['-'] else []) ++ d.positional
  coefficient : n.coefficient = d.coefficient * powerOfTen d.exponent.toNat
  length_fraction : n.fraction.length = (-d.exponent).toNat

section Positional

variable (negative : Bool) {d : Decimal}

/-- A whole number has zeros behind its digits. -/
theorem exists_writes_whole (h : 0 ≤ d.exponent) : ∃ n : Numeral, n.Writes negative d := by
  have hwhole : ∀ c ∈ digits d.coefficient ++ List.replicate d.exponent.toNat '0', c.isDigit := by
    intro c hc
    obtain hc | hc := List.mem_append.1 hc
    · exact isDigit_of_mem_digits _ c hc
    · exact isDigit_of_mem_replicate c hc
  refine ⟨⟨negative, _, [], hwhole, by simp, by simp [digits_ne_nil]⟩, rfl, ?_, ?_, ?_⟩
  · simp [positional, h, Numeral.spell, Numeral.point]
  · rw [Numeral.coefficient, List.append_nil, ofDigits_append, ofDigits_digits,
      ofDigits_replicate_zero, List.length_replicate, Nat.add_zero]
  · have hnone : (-d.exponent).toNat = 0 := Int.toNat_of_nonpos (by omega)
    simp [hnone]

/-- The point stands between two digits. -/
theorem exists_writes_between (h : ¬0 ≤ d.exponent)
    (hlength : d.exponent.natAbs < (digits d.coefficient).length) :
    ∃ n : Numeral, n.Writes negative d := by
  have hne := digits_ne_nil d.coefficient
  have hdigits := isDigit_of_mem_digits d.coefficient
  generalize hk : (digits d.coefficient).length - d.exponent.natAbs = k
  have hsplit := List.take_append_drop k (digits d.coefficient)
  refine ⟨⟨negative, (digits d.coefficient).take k, (digits d.coefficient).drop k,
    fun c hc => hdigits c (List.mem_of_mem_take hc),
    fun c hc => hdigits c (List.mem_of_mem_drop hc), by rwa [hsplit]⟩, rfl, ?_, ?_, ?_⟩
  · have hbehind : (digits d.coefficient).drop k ≠ [] := by
      rw [ne_eq, List.drop_eq_nil_iff]
      omega
    simp only [positional, if_neg h, if_pos hlength, hk, Numeral.spell, Numeral.point,
      if_neg hbehind]
  · have hnone : d.exponent.toNat = 0 := Int.toNat_of_nonpos (by omega)
    rw [Numeral.coefficient, hsplit, ofDigits_digits, hnone]
    simp [powerOfTen]
  · rw [List.length_drop]
    omega

/-- A small number has a zero in front of the point, and zeros behind it. -/
theorem exists_writes_small (h : ¬0 ≤ d.exponent)
    (hlength : ¬d.exponent.natAbs < (digits d.coefficient).length) :
    ∃ n : Numeral, n.Writes negative d := by
  generalize hk : d.exponent.natAbs - (digits d.coefficient).length = k
  have hfraction : ∀ c ∈ List.replicate k '0' ++ digits d.coefficient, c.isDigit := by
    intro c hc
    obtain hc | hc := List.mem_append.1 hc
    · exact isDigit_of_mem_replicate c hc
    · exact isDigit_of_mem_digits _ c hc
  refine ⟨⟨negative, ['0'], _, by simp, hfraction, by simp⟩, rfl, ?_, ?_, ?_⟩
  · simp only [positional, if_neg h, if_neg hlength, hk, Numeral.spell, Numeral.point]
    simp [digits_ne_nil]
  · have hnone : d.exponent.toNat = 0 := Int.toNat_of_nonpos (by omega)
    rw [Numeral.coefficient_def, ofDigits_append, ofDigits_replicate_zero, ofDigits_digits, hnone]
    simp [ofDigits, digitValue, powerOfTen]
  · rw [List.length_append, List.length_replicate]
    omega

/-- Positional notation behind a sign is a numeral with the digits of the decimal. -/
theorem exists_numeral_positional (d : Decimal) : ∃ n : Numeral, n.Writes negative d := by
  by_cases h : 0 ≤ d.exponent
  · exact exists_writes_whole negative h
  · by_cases hlength : d.exponent.natAbs < (digits d.coefficient).length
    · exact exists_writes_between negative h hlength
    · exact exists_writes_small negative h hlength

end Positional

/-! ## The zero in front of the point -/

namespace Numeral

/-- Without a zero that stands alone in front of a fraction. -/
def shortened (n : Numeral) : Numeral :=
  if h : n.whole = ['0'] ∧ n.fraction ≠ [] then
    { n with whole := [], isDigit_whole := by simp, digits_ne_nil := h.2 }
  else n

theorem negative_shortened (n : Numeral) : n.shortened.negative = n.negative := by
  unfold shortened
  split <;> rfl

theorem fraction_shortened (n : Numeral) : n.shortened.fraction = n.fraction := by
  unfold shortened
  split <;> rfl

/-- Without its leading zero a numeral has the same coefficient. -/
theorem coefficient_shortened (n : Numeral) : n.shortened.coefficient = n.coefficient := by
  unfold shortened
  split
  · rename_i h
    rw [coefficient_def n, h.1, coefficient_def]
    rfl
  · rfl

/-- Without its leading zero a numeral is the same number. -/
theorem toBinary64_shortened (n : Numeral) : n.shortened.toBinary64 = n.toBinary64 := by
  rw [toBinary64, negative_shortened, coefficient_shortened, fraction_shortened, toBinary64]

/-- Digits and a fraction begin with a digit or the point. -/
theorem beginsWithAny_unsigned (n : Numeral) (rest : List Char) :
    Token.beginsWithAny (fun c => c.isDigit || c == '.') (n.whole ++ point n.fraction ++ rest) := by
  have hwhole := n.isDigit_whole
  have hne := n.digits_ne_nil
  cases hcs : n.whole with
  | nil =>
    have hfraction : n.fraction ≠ [] := by simpa [hcs] using hne
    simp [point, hfraction]
  | cons c cs =>
    have hc : c.isDigit := hwhole c (by simp [hcs])
    simp [hc]

theorem spell_ne_nil (n : Numeral) : n.spell ≠ [] := by
  intro hnil
  have hfront := n.beginsWithAny_unsigned []
  rw [(List.append_eq_nil_iff.1 hnil).2] at hfront
  contradiction

/-- A spelling that begins with `0.` has a zero as its whole part. -/
theorem eq_of_zero_point {n : Numeral} {rest : List Char}
    (h : n.whole ++ point n.fraction = '0' :: '.' :: rest) :
    n.whole = ['0'] ∧ n.fraction ≠ [] := by
  have hwhole := n.isDigit_whole
  -- The point comes behind the first character, so there is one digit in front of it.
  match hcs : n.whole with
  | [] =>
    rw [hcs, List.nil_append, point] at h
    split at h <;> simp at h
  | [c] =>
    rw [hcs] at h
    obtain ⟨rfl, h⟩ := List.cons.inj h
    refine ⟨rfl, fun hnil => ?_⟩
    simp [hnil, point] at h
  | c :: d :: cs =>
    rw [hcs] at h
    obtain ⟨-, h⟩ := List.cons.inj h
    obtain ⟨rfl, -⟩ := List.cons.inj h
    exact absurd (hwhole '.' (by simp [hcs])) (by decide)

/-- Dropping the zero in front of the point of a spelling spells the shortened numeral. -/
theorem dropLeadingZero_spell (n : Numeral) : dropLeadingZero n.spell = n.shortened.spell := by
  by_cases hzero : n.whole = ['0'] ∧ n.fraction ≠ []
  · cases hneg : n.negative <;>
      simp [shortened, hzero, spell, point, hneg, dropLeadingZero]
  · -- A text that begins with a zero and a point, behind a sign or not, is one of the others.
    rw [shortened, dif_neg hzero]
    unfold dropLeadingZero
    split
    · rename_i rest heq
      cases hneg : n.negative with
      | false => exact absurd (eq_of_zero_point (by simpa [spell, hneg] using heq)) hzero
      | true => simp [spell, hneg] at heq
    · rename_i rest heq
      cases hneg : n.negative with
      | false =>
        have hfront := n.beginsWithAny_unsigned []
        rw [List.append_nil, show n.whole ++ point n.fraction = '-' :: '0' :: '.' :: rest by
          simpa [spell, hneg] using heq] at hfront
        simp at hfront
      | true => exact absurd (eq_of_zero_point (by simpa [spell, hneg] using heq)) hzero
    · rfl

end Numeral

/-! ## Reading -/

/-- The sign of a spelling is split off. -/
theorem splitSign_spell (n : Numeral) :
    splitSign n.spell = (n.negative, n.whole ++ Numeral.point n.fraction) := by
  cases hneg : n.negative with
  | true => simp [Numeral.spell, hneg, splitSign]
  | false =>
    -- A numeral without a sign begins with a digit or a point.
    have hfront := n.beginsWithAny_unsigned []
    rw [List.append_nil] at hfront
    simp only [Numeral.spell, hneg, Bool.false_eq_true, if_false, List.nil_append]
    unfold splitSign
    split
    · rename_i heq
      rw [heq] at hfront
      simp at hfront
    · rename_i heq
      rw [heq] at hfront
      simp at hfront
    · rfl

/-- Digits up to something else are found as a whole. -/
theorem spanDigits_append {ds rest : List Char} (hds : ∀ c ∈ ds, c.isDigit)
    (hrest : Token.beginsWithAny Char.isDigit rest = false) : spanDigits (ds ++ rest) = (ds, rest) := by
  rw [spanDigits, List.span_eq_takeWhile_dropWhile, Token.takeWhile_append_eq hds hrest,
    Token.dropWhile_append_eq hds hrest]

/-- The digits of a numeral, with an exponent behind them or not. -/
theorem readUnsigned?_numeral (n : Numeral) (negative : Bool) {exponent : List Char} {k : Int}
    (hread : readExponent? exponent = some k)
    (hapart : Token.beginsWithAny (fun c => c.isDigit || c == '.') exponent = false) :
    readUnsigned? negative (n.whole ++ Numeral.point n.fraction ++ exponent) =
      some (Decimal.toBinary64 negative n.coefficient (k - n.fraction.length)) := by
  have hne := n.digits_ne_nil
  have hdigit : Token.beginsWithAny Char.isDigit exponent = false :=
    Token.beginsWithAny_mono hapart fun c hc => by simp [hc]
  have hpoint : Token.beginsWithAny Char.isDigit (Numeral.point n.fraction ++ exponent) = false := by
    unfold Numeral.point
    split
    · exact hdigit
    · rfl
  rw [List.append_assoc, readUnsigned?, spanDigits_append n.isDigit_whole hpoint]
  -- Without a fraction the exponent stands directly behind the digits.
  by_cases hnil : n.fraction = []
  · have hwhole : n.whole ≠ [] := by simpa [hnil] using hne
    cases exponent with
    | nil => simp [Numeral.point, hnil, hwhole, hread, Numeral.coefficient]
    | cons e tail =>
      have he : e ≠ '.' := by
        rintro rfl
        contradiction
      simp [Numeral.point, hnil, hwhole, he, hread, Numeral.coefficient]
  · simp [Numeral.point, hnil, spanDigits_append n.isDigit_fraction hdigit, hread,
      Numeral.coefficient]

theorem toLower_of_isDigit {c : Char} (h : c.isDigit) : c.toLower = c := by
  have hrange : 48 ≤ c.toNat ∧ c.toNat ≤ 57 := Char.isDigit_iff_toNat.1 h
  refine dif_neg fun hupper => ?_
  have hcapital : 65 ≤ c.toNat := UInt32.le_iff_toNat_le.1 hupper.1
  omega

/-- What a numeral spells is read as its number. -/
theorem read?_spell (n : Numeral) : read? n.spell = some n.toBinary64 := by
  -- A numeral begins with a digit or a point, and the words do not.
  have hword : ∀ word : String,
      Token.beginsWithAny (fun c => c.isDigit || c == '.') word.toList = false →
      String.ofList ((n.whole ++ Numeral.point n.fraction).map Char.toLower) ≠ word := by
    rintro word hword rfl
    have hfront := n.beginsWithAny_unsigned []
    rw [List.append_nil] at hfront
    cases hcs : n.whole ++ Numeral.point n.fraction with
    | nil => simp [hcs] at hfront
    | cons c cs =>
      rw [hcs, Token.beginsWithAny_cons, Bool.or_eq_true, beq_iff_eq] at hfront
      rw [hcs, String.toList_ofList, List.map_cons, Token.beginsWithAny_cons] at hword
      obtain hc | rfl := hfront
      · simp [toLower_of_isDigit hc, hc] at hword
      · exact absurd hword (by decide)
  rw [read?, splitSign_spell]
  simp only
  have hdigits := @readUnsigned?_numeral n n.negative [] 0 rfl rfl
  rw [List.append_nil, Int.zero_sub] at hdigits
  rw [if_neg, if_neg (hword _ (by decide)), hdigits, Numeral.toBinary64]
  rintro (h | h)
  · exact hword _ (by decide) h
  · exact hword _ (by decide) h

/-! ## Texts that are no decimals -/

section Unfinished

variable {e : Char}

/-- A sign is split off whatever stands at the end. -/
theorem splitSign_concat (cs : List Char) (he : e = 'e' ∨ e = 'E') :
    ∃ negative front, splitSign (cs ++ [e]) = (negative, front ++ [e]) := by
  cases cs with
  | nil => rcases he with rfl | rfl <;> exact ⟨false, [], rfl⟩
  | cons c cs =>
    rw [List.cons_append]
    unfold splitSign
    split
    · rename_i rest heq
      exact ⟨true, cs, by rw [← (List.cons.inj heq).2]⟩
    · rename_i rest heq
      exact ⟨false, cs, by rw [← (List.cons.inj heq).2]⟩
    · exact ⟨false, c :: cs, rfl⟩

/-- Digits are found whatever letter stands at the end. -/
theorem spanDigits_concat (cs : List Char) (he : e = 'e' ∨ e = 'E') :
    spanDigits (cs ++ [e]) = ((spanDigits cs).1, (spanDigits cs).2 ++ [e]) := by
  have hdigit : e.isDigit = false := by rcases he with rfl | rfl <;> rfl
  induction cs with
  | nil => simp [spanDigits, List.span_eq_takeWhile_dropWhile, hdigit]
  | cons c cs ih =>
    simp only [spanDigits, List.span_eq_takeWhile_dropWhile, List.cons_append] at ih ⊢
    cases hc : c.isDigit with
    | true =>
      rw [List.takeWhile_cons_of_pos hc, List.dropWhile_cons_of_pos hc,
        List.takeWhile_cons_of_pos hc, List.dropWhile_cons_of_pos hc]
      rw [(Prod.mk.inj ih).1, (Prod.mk.inj ih).2]
    | false =>
      simp [hc]

/-- An exponent does not end with the letter that begins one. -/
theorem readExponent?_concat (cs : List Char) (he : e = 'e' ∨ e = 'E') : readExponent? (cs ++ [e]) = none := by
  have hdigit : e.isDigit = false := by rcases he with rfl | rfl <;> rfl
  cases cs with
  | nil => rcases he with rfl | rfl <;> rfl
  | cons c cs =>
    obtain ⟨negative, front, hsign⟩ := splitSign_concat cs he
    rw [List.cons_append, readExponent?, hsign]
    simp [hdigit]

/-- A number does not end with the letter that begins an exponent. -/
theorem readUnsigned?_concat (cs : List Char) (he : e = 'e' ∨ e = 'E') (negative : Bool) :
    readUnsigned? negative (cs ++ [e]) = none := by
  rw [readUnsigned?, spanDigits_concat cs he]
  cases hrest : (spanDigits cs).2 with
  | nil =>
    rcases he with rfl | rfl <;> simp [readExponent?, splitSign]
  | cons c rest =>
    by_cases hc : c = '.'
    · subst hc
      simp [spanDigits_concat _ he, readExponent?_concat _ he]
    · have hexponent := readExponent?_concat (c :: rest) he
      rw [List.cons_append] at hexponent
      simp [hc, hexponent]

/-- No decimal ends in the letter of an exponent. -/
theorem read?_concat_exponent (cs : List Char) (he : e = 'e' ∨ e = 'E') : read? (cs ++ [e]) = none := by
  obtain ⟨negative, front, hsign⟩ := splitSign_concat cs he
  have hword : ∀ word : String, word.toList.getLast? ≠ some 'e' →
      String.ofList ((front ++ [e]).map Char.toLower) ≠ word := by
    rintro word hword rfl
    rw [String.toList_ofList, List.map_append, List.map_singleton, List.getLast?_concat] at hword
    rcases he with rfl | rfl <;> exact hword rfl
  rw [read?, hsign]
  simp only
  rw [if_neg, if_neg (hword _ (by decide)), readUnsigned?_concat _ he]
  rintro (h | h)
  · exact hword _ (by decide) h
  · exact hword _ (by decide) h

end Unfinished

end AtomicCss.Decimal
