import AtomicCss.Proofs.Token.Numeric
/-!
# Where tokens end

Whether a token ends in front of a text is decided by the first two characters of the text. So it also
ends in front of every text that joins no more than the first one does (`Ends.of_joinsLess`), and in
particular at the end of a text. The one exception is a number that was left with the `e` of an
exponent without digits: alone it is a dimension. Otherwise tokens with the same text are the same
token (`Ends.eq_or_cutShort`). What the scanner of numbers finds is said once, by its parts
(`ends_of_scanNumeric?`).
-/

namespace AtomicCss.Token

/-! ## Mantissas -/

def isSign (c : Char) : Bool :=
  c == '+' || c == '-'

theorem isSign_iff {c : Char} : isSign c ↔ c = '+' ∨ c = '-' := by
  simp [isSign]

/-- A sign in front is found. -/
theorem spanSign_of_isSign {cs : List Char} (h : beginsWithAny isSign cs) :
    ∃ sign, (sign = ['+'] ∨ sign = ['-']) ∧ cs = sign ++ (spanSign cs).2 ∧ (spanSign cs).1 = sign := by
  cases cs with
  | nil => contradiction
  | cons c cs =>
    rcases isSign_iff.1 h with rfl | rfl
    · exact ⟨['+'], .inl rfl, rfl, rfl⟩
    · exact ⟨['-'], .inr rfl, rfl, rfl⟩

theorem spanSign_cons_of_isSign {c : Char} {cs : List Char} (h : isSign c) :
    spanSign (c :: cs) = ([c], cs) := by
  rcases isSign_iff.1 h with rfl | rfl <;> rfl

/-- Where no sign stands in front, none is found. -/
theorem spanSign_of_not_isSign {cs : List Char} (h : beginsWithAny isSign cs = false) :
    spanSign cs = ([], cs) := by
  cases cs with
  | nil => rfl
  | cons c cs => exact spanSign_cons (by simpa [isSign] using h)

theorem spanSign_cons_of_not_isSign {c : Char} {cs : List Char} (h : isSign c = false) :
    spanSign (c :: cs) = ([], c :: cs) :=
  spanSign_of_not_isSign (beginsWithAny_cons c ▸ h)

/-- A sign, digits and a fraction, of which there is at least one digit, and that the rest of the text
does not continue them. -/
inductive EndsMantissa : List Char → List Char → Prop
  | whole {sign digits rest : List Char} (hsign : sign = [] ∨ sign = ['+'] ∨ sign = ['-'])
    (hne : digits ≠ []) (hdigits : ∀ c ∈ digits, c.isDigit) (hrest : startsUnsigned rest = false) :
    EndsMantissa (sign ++ digits) rest
  | point {sign whole fraction rest : List Char} (hsign : sign = [] ∨ sign = ['+'] ∨ sign = ['-'])
    (hwhole : ∀ c ∈ whole, c.isDigit) (hne : fraction ≠ []) (hfraction : ∀ c ∈ fraction, c.isDigit)
    (hrest : beginsWithAny Char.isDigit rest = false) :
    EndsMantissa (sign ++ (whole ++ '.' :: fraction)) rest

section Mantissa

variable {mantissa rest rest' : List Char}

/-- A sign in front of an unsigned number is found. -/
theorem spanSign_append_unsigned {sign cs : List Char}
    (hsign : sign = [] ∨ sign = ['+'] ∨ sign = ['-'])
    (hcs : beginsWithAny (fun c => c.isDigit || c == '.') cs) : spanSign (sign ++ cs) = (sign, cs) := by
  rcases hsign with rfl | rfl | rfl
  · have hnot := beginsWithAny_eq_false (q := isSign) hcs fun c hc => by
      rcases isSign_iff.1 hc with rfl | rfl <;> decide
    exact spanSign_of_not_isSign hnot
  · rfl
  · rfl

/-- A mantissa that ends where it may end is found. -/
theorem spanMantissa?_of_ends (h : EndsMantissa mantissa rest) :
    spanMantissa? (mantissa ++ rest) = some (mantissa, rest) := by
  cases h with
  | @whole sign digits _ hsign hne hdigits hrest =>
    have hdigit := isDigit_of_startsUnsigned hrest
    have hfront : beginsWithAny (fun c => c.isDigit || c == '.') (digits ++ rest) := by
      cases digits with
      | nil => exact absurd rfl hne
      | cons d ds => simp [hdigits d]
    simp [spanMantissa?, spanSign_append_unsigned hsign hfront, takeWhile_append_eq hdigits hdigit,
      dropWhile_append_eq hdigits hdigit, spanFraction_eq_self hrest, hne]
  | @point sign whole fraction _ hsign hwhole hne hfraction hrest =>
    have hpoint : beginsWithAny Char.isDigit ('.' :: (fraction ++ rest)) = false := rfl
    have hfront : beginsWithAny (fun c => c.isDigit || c == '.')
        (whole ++ '.' :: (fraction ++ rest)) := by
      cases whole with
      | nil => rfl
      | cons d ds => simp [hwhole d]
    have hspan : spanFraction ('.' :: (fraction ++ rest)) = ('.' :: fraction, rest) := by
      cases fraction with
      | nil => exact absurd rfl hne
      | cons d ds =>
        obtain ⟨hd, hds⟩ := List.forall_mem_cons.1 hfraction
        simp [spanFraction, hd, takeWhile_append_eq hds hrest, dropWhile_append_eq hds hrest]
    simp [spanMantissa?, spanSign_append_unsigned hsign hfront, takeWhile_append_eq hwhole hpoint,
      dropWhile_append_eq hwhole hpoint, hspan]

/-- A mantissa that is found ends where it may end. -/
theorem ends_of_spanMantissa? {cs : List Char} (h : spanMantissa? cs = some (mantissa, rest)) :
    EndsMantissa mantissa rest := by
  simp only [spanMantissa?] at h
  split at h
  · simp at h
  · rename_i hne
    obtain ⟨rfl, rfl⟩ := by simpa using h
    have hsign := spanSign_cases cs
    generalize (spanSign cs).2 = unsigned at *
    have hwhole : ∀ c ∈ unsigned.takeWhile Char.isDigit, c.isDigit := forall_mem_takeWhile
    have hdigit : beginsWithAny Char.isDigit (unsigned.dropWhile Char.isDigit) = false :=
      beginsWithAny_dropWhile
    generalize unsigned.dropWhile Char.isDigit = left at *
    cases hpoint : startsUnsigned left with
    | false =>
      rw [spanFraction_eq_self hpoint] at hne ⊢
      rw [List.append_nil]
      exact .whole hsign (by simpa using hne) hwhole hpoint
    | true =>
      -- No digit is left, so that a point stands in front of one.
      unfold startsUnsigned at hpoint
      split at hpoint
      · rename_i d tail
        have hspan : spanFraction ('.' :: d :: tail) =
            ('.' :: d :: tail.takeWhile Char.isDigit, tail.dropWhile Char.isDigit) := by
          simp [spanFraction, hpoint]
        rw [hspan]
        exact .point hsign hwhole (by simp)
          (List.forall_mem_cons.2 ⟨hpoint, forall_mem_takeWhile⟩) beginsWithAny_dropWhile
      · rw [beginsWithAny_cons, hpoint] at hdigit
        contradiction
      · contradiction

/-- Where a mantissa may end depends on whether a number goes on behind it. -/
theorem EndsMantissa.congr (h : EndsMantissa mantissa rest)
    (hunsigned : startsUnsigned rest' → startsUnsigned rest)
    (hdigit : beginsWithAny Char.isDigit rest' → beginsWithAny Char.isDigit rest) :
    EndsMantissa mantissa rest' := by
  cases h with
  | whole hsign hne hdigits hrest =>
    exact .whole hsign hne hdigits (by simpa [hrest] using hunsigned)
  | point hsign hwhole hne hfraction hrest =>
    exact .point hsign hwhole hne hfraction (by simpa [hrest] using hdigit)

theorem EndsMantissa.isMantissaChar (h : EndsMantissa mantissa rest) :
    ∀ c ∈ mantissa, isMantissaChar c :=
  isMantissaChar_of_spanMantissa? (spanMantissa?_of_ends h)

/-- A mantissa has a digit. -/
theorem EndsMantissa.exists_digit (h : EndsMantissa mantissa rest) : ∃ c ∈ mantissa, c.isDigit := by
  cases h with
  | whole hsign hne hdigits hrest =>
    obtain ⟨c, hc⟩ := List.exists_mem_of_ne_nil _ hne
    exact ⟨c, by simp [hc], hdigits c hc⟩
  | point hsign hwhole hne hfraction hrest =>
    obtain ⟨c, hc⟩ := List.exists_mem_of_ne_nil _ hne
    exact ⟨c, by simp [hc], hfraction c hc⟩

/-- A mantissa ends in front of everything that begins with no character of one. -/
theorem EndsMantissa.of_apart (h : EndsMantissa mantissa rest)
    (hrest' : beginsWithAny Token.isMantissaChar rest' = false) : EndsMantissa mantissa rest' := by
  refine h.congr (fun hnot => ?_) (fun hnot => ?_)
  · cases rest' with
    | nil => contradiction
    | cons c rest' =>
      rw [startsUnsigned_cons hrest'] at hnot
      contradiction
  · rw [beginsWithAny_mono hrest' fun c hc => isMantissaChar_of_isDigit hc] at hnot
    contradiction

end Mantissa

/-! ## Numbers and dimensions -/

/-- A number or a dimension, and that the rest of the text does not continue it. An `e` in front of a
sign without digits stays with the number (`cutShort`), an `e` in front of something else is a unit. -/
inductive EndsNumeric : Token → List Char → Prop
  | cutShort {mantissa rest : List Char} {e : Char} (hmantissa : EndsMantissa mantissa (e :: rest))
    (he : e = 'e' ∨ e = 'E') (hsign : beginsWithAny isSign rest)
    (hrest : beginsWithAny Char.isDigit (spanSign rest).2 = false) :
    EndsNumeric ⟨.number, mantissa ++ [e]⟩ rest
  | number {mantissa exponent rest : List Char} (hmantissa : EndsMantissa mantissa (exponent ++ rest))
    (hexponent : exponent = [] ∨ IsExponent exponent ∧ beginsWithAny Char.isDigit rest = false)
    (hrest : beginsWithAny isUnitChar rest = false) : EndsNumeric ⟨.number, mantissa ++ exponent⟩ rest
  | dimension {mantissa exponent unit rest : List Char}
    (hmantissa : EndsMantissa mantissa (exponent ++ (unit ++ rest)))
    (hexponent : exponent = [] ∨ IsExponent exponent) (hunit : IsUnit unit)
    (hrest : unit = ['%'] ∨ beginsWithAny Char.isAlpha rest = false)
    (hlone : exponent = [] → unit = ['e'] ∨ unit = ['E'] →
      beginsWithAny isSign rest = false ∧ beginsWithAny Char.isDigit rest = false) :
    EndsNumeric ⟨.dimension, mantissa ++ exponent ++ unit⟩ rest

/-- An exponent dangles if it has a sign and no digits. -/
theorem startsDanglingExponent_cons {e : Char} {rest : List Char} (he : e = 'e' ∨ e = 'E') :
    startsDanglingExponent (e :: rest) =
      (beginsWithAny isSign rest && !beginsWithAny Char.isDigit (spanSign rest).2) := by
  have hsign : (!(spanSign rest).1.isEmpty) = beginsWithAny isSign rest := by
    cases hsign : beginsWithAny isSign rest with
    | false => rw [spanSign_of_not_isSign hsign]; rfl
    | true =>
      obtain ⟨sign, hchar, -, hspan⟩ := spanSign_of_isSign hsign
      rw [hspan]
      rcases hchar with rfl | rfl <;> rfl
  have hletter : (e == 'e' || e == 'E') = true := by simpa using he
  rw [startsDanglingExponent, hletter, hsign, Bool.true_and]
  rfl

/-- Without digits there is no exponent. -/
theorem spanExponent_cons_eq_nil_iff {e : Char} {rest : List Char} (he : e = 'e' ∨ e = 'E') :
    spanExponent (e :: rest) = ([], e :: rest) ↔
      beginsWithAny Char.isDigit (spanSign rest).2 = false := by
  rw [spanExponent, if_pos he]
  split
  · simp [*]
  · rename_i d tail hspan
    rw [hspan, beginsWithAny_cons]
    cases hd : d.isDigit <;> simp

/-- An `e` is no exponent, complete or cut short, if neither a sign nor a digit follows it. -/
theorem lone_iff {e : Char} {rest : List Char} (he : e = 'e' ∨ e = 'E') :
    spanExponent (e :: rest) = ([], e :: rest) ∧ startsDanglingExponent (e :: rest) = false ↔
      beginsWithAny isSign rest = false ∧ beginsWithAny Char.isDigit rest = false := by
  rw [spanExponent_cons_eq_nil_iff he, startsDanglingExponent_cons he]
  cases hsign : beginsWithAny isSign rest with
  | false => simp [spanSign_of_not_isSign hsign]
  | true => simp

/-- An exponent does not dangle. -/
theorem startsDanglingExponent_of_isExponent {exponent rest : List Char} (h : IsExponent exponent) :
    startsDanglingExponent (exponent ++ rest) = false := by
  obtain ⟨he, hsign, hd, htail⟩ := h
  rename_i e d sign tail
  rw [List.cons_append, startsDanglingExponent_cons he, List.append_assoc, List.cons_append,
    spanSign_append_digit hsign hd]
  simp [hd]

/-- An exponent begins with nothing that a mantissa may have. -/
theorem IsExponent.apart {exponent : List Char} (h : IsExponent exponent) (rest : List Char) :
    beginsWithAny isMantissaChar (exponent ++ rest) = false := by
  obtain ⟨he, -⟩ := h
  rcases he with rfl | rfl <;> rfl

theorem IsUnit.apart_append {p : Char → Bool} {unit rest : List Char} (h : IsUnit unit)
    (hp : ∀ c, Token.isUnitChar c → p c = false) : beginsWithAny p (unit ++ rest) = false := by
  have hunit := h.isUnitChar
  cases unit with
  | nil => exact absurd rfl h.ne_nil
  | cons c tail => exact hp c (hunit c List.mem_cons_self)

/-- A numeric token that ends where it may end is found. -/
theorem scanNumeric?_of_ends {token : Token} {rest : List Char} (h : EndsNumeric token rest) :
    scanNumeric? (token.text ++ rest) = some (token, rest) := by
  cases h with
  | @cutShort mantissa _ e hmantissa he hsign hrest =>
    have hdangling : startsDanglingExponent (e :: rest) = true := by
      rw [startsDanglingExponent_cons he, hsign, hrest]
      rfl
    simp [scanNumeric?, spanMantissa?_of_ends hmantissa, hdangling]
  | @number mantissa exponent _ hmantissa hexponent hrest =>
    have hspan : spanExponent (exponent ++ rest) = (exponent, rest) ∧
        startsDanglingExponent (exponent ++ rest) = false := by
      rcases hexponent with rfl | ⟨hexponent, hdigit⟩
      · exact spanExponent_of_apart hrest
      · exact ⟨spanExponent_of_isExponent hexponent hdigit,
          startsDanglingExponent_of_isExponent hexponent⟩
    simp [scanNumeric?, spanMantissa?_of_ends hmantissa, hspan.1, hspan.2, spanUnit_eq_nil hrest]
  | @dimension mantissa exponent unit _ hmantissa hexponent hunit hrest hlone =>
    have hspan : spanExponent (exponent ++ (unit ++ rest)) = (exponent, unit ++ rest) ∧
        startsDanglingExponent (exponent ++ (unit ++ rest)) = false := by
      rcases hexponent with rfl | hexponent
      · rw [List.nil_append]
        -- Only a unit that is the letter of an exponent depends on what follows it.
        by_cases hletter : unit = ['e'] ∨ unit = ['E']
        · have hapart := hlone rfl hletter
          rcases hletter with rfl | rfl
          · exact (lone_iff (.inl rfl)).2 hapart
          · exact (lone_iff (.inr rfl)).2 hapart
        · exact spanExponent_unit_append hunit (not_or.1 hletter)
      · have hdigit : beginsWithAny Char.isDigit (unit ++ rest) = false :=
          hunit.apart_append fun _ => isDigit_of_isUnitChar
        exact ⟨spanExponent_of_isExponent hexponent hdigit,
          startsDanglingExponent_of_isExponent hexponent⟩
    simp [scanNumeric?, spanMantissa?_of_ends hmantissa, hspan.1, hspan.2,
      spanUnit_append_rest hunit hrest, hunit.ne_nil]

/-- The letter of an exponent without digits stays with the number. -/
theorem endsNumeric_of_startsDanglingExponent {mantissa rest : List Char} {e : Char}
    (hmantissa : EndsMantissa mantissa (e :: rest)) (h : startsDanglingExponent (e :: rest)) :
    EndsNumeric ⟨.number, mantissa ++ [e]⟩ rest := by
  have he : e = 'e' ∨ e = 'E' := by
    simp only [startsDanglingExponent, Bool.and_eq_true, Bool.or_eq_true, beq_iff_eq] at h
    exact h.1.1
  rw [startsDanglingExponent_cons he, Bool.and_eq_true, Bool.not_eq_true'] at h
  exact .cutShort hmantissa he h.1 h.2

/-- What is left behind a complete exponent, or behind none, begins with the unit of a dimension. -/
theorem endsNumeric_of_isUnit {mantissa exponent unit rest : List Char}
    (hmantissa : EndsMantissa mantissa (exponent ++ (unit ++ rest)))
    (hspan : spanExponent (exponent ++ (unit ++ rest)) = (exponent, unit ++ rest))
    (hdangling : startsDanglingExponent (exponent ++ (unit ++ rest)) = false) (hunit : IsUnit unit)
    (hrest : unit = ['%'] ∨ beginsWithAny Char.isAlpha rest = false) :
    EndsNumeric ⟨.dimension, mantissa ++ exponent ++ unit⟩ rest := by
  have hexponent := spanExponent_cases (exponent ++ (unit ++ rest))
  rw [hspan] at hexponent
  refine .dimension hmantissa (hexponent.imp_right And.left) hunit hrest ?_
  rintro rfl hletter
  rcases hletter with rfl | rfl
  · exact (lone_iff (.inl rfl)).1 ⟨hspan, hdangling⟩
  · exact (lone_iff (.inr rfl)).1 ⟨hspan, hdangling⟩

/-- A numeric token that is found ends where it may end. -/
theorem ends_of_scanNumeric? {cs rest : List Char} {token : Token}
    (h : scanNumeric? cs = some (token, rest)) : EndsNumeric token rest := by
  simp only [scanNumeric?] at h
  split at h
  · simp at h
  · rename_i mantissa left hspan
    have hmantissa := ends_of_spanMantissa? hspan
    split at h
    · rename_i hdangling
      obtain ⟨rfl, rfl⟩ := by simpa using h
      cases left with
      | nil => contradiction
      | cons e left => exact endsNumeric_of_startsDanglingExponent hmantissa hdangling
    · rename_i hdangling
      have hexponent := spanExponent_cases left
      have hsplit := spanExponent_append left
      obtain ⟨hnil, hleft, hrest⟩ | ⟨hunit, hrest⟩ := spanUnit_cases (spanExponent left).2
      · -- No unit is left behind the exponent.
        rw [if_pos (by simp [hnil])] at h
        obtain ⟨rfl, rfl⟩ := by simpa using h
        rw [hleft]
        rw [← hsplit] at hmantissa
        exact .number hmantissa hexponent hrest
      · rw [if_neg (by simp [hunit.ne_nil])] at h
        obtain ⟨rfl, rfl⟩ := by simpa using h
        have hafter := spanUnit_append (spanExponent left).2
        rw [← List.append_assoc]
        refine endsNumeric_of_isUnit ?_ ?_ ?_ hunit hrest
        · rwa [hafter, hsplit]
        · rw [hafter, hsplit]
        · rwa [hafter, hsplit, ← Bool.not_eq_true]

/-- No unit begins with a sign. -/
theorem isUnitChar_of_isSign {cs : List Char} (h : beginsWithAny isSign cs) :
    beginsWithAny isUnitChar cs = false := by
  refine beginsWithAny_eq_false h fun c hc => Bool.eq_false_iff.2 fun hsign => ?_
  rcases isSign_iff.1 hsign with rfl | rfl <;> exact absurd hc (by decide)

/-- What the scanner of numbers takes: a number that no unit follows, or a dimension. -/
theorem scanNumeric?_cases {cs rest : List Char} {token : Token}
    (h : scanNumeric? cs = some (token, rest)) :
    (∃ text, token = ⟨.number, text⟩ ∧ beginsWithAny isUnitChar rest = false) ∨
      ∃ numeral unit, token = ⟨.dimension, numeral ++ unit⟩ ∧
        splitDimension (numeral ++ unit) = (numeral, unit) ∧ IsUnit unit ∧
        (unit = ['%'] ∨ beginsWithAny Char.isAlpha rest = false) := by
  cases ends_of_scanNumeric? h with
  | cutShort _ _ hsign _ =>
    -- An exponent that is cut short leaves its sign.
    exact .inl ⟨_, rfl, isUnitChar_of_isSign hsign⟩
  | number _ _ hrest => exact .inl ⟨_, rfl, hrest⟩
  | @dimension mantissa exponent unit _ hmantissa hexponent hunit hrest _ =>
    refine .inr ⟨mantissa ++ exponent, unit, rfl, ?_, hunit, hrest⟩
    rw [List.append_assoc]
    exact splitDimension_append hmantissa.isMantissaChar hexponent hunit

/-- A numeric token has a digit. -/
theorem EndsNumeric.exists_digit {token : Token} {rest : List Char} (h : EndsNumeric token rest) :
    ∃ c ∈ token.text, c.isDigit := by
  cases h with
  | cutShort hmantissa | number hmantissa | dimension hmantissa =>
    obtain ⟨c, hc, hdigit⟩ := hmantissa.exists_digit
    exact ⟨c, by simp [hc], hdigit⟩

/-! ## What joins a token -/

/-- The characters that may continue a token, or show that it goes on. -/
def joinsToken (c : Char) : Bool :=
  isNameChar c || c == '(' || c == '.' || c == '%' || c == '+'

/-- That a text continues no token that another text does not continue. -/
structure JoinsLess (rest rest' : List Char) : Prop where
  front {p : Char → Bool} (hp : ∀ c, p c → joinsToken c) (h : beginsWithAny p rest') :
    beginsWithAny p rest
  unsigned (h : startsUnsigned rest') : startsUnsigned rest
  signed (h : beginsWithAny Char.isDigit (spanSign rest').2) :
    beginsWithAny Char.isDigit (spanSign rest).2
  name (h : spanName? ('-' :: rest) = none) : spanName? ('-' :: rest') = none

section Joins

variable {token : Token} {rest rest' : List Char}

theorem joinsToken_of_isDigit {c : Char} (h : c.isDigit) : joinsToken c := by
  simp [joinsToken, isNameChar, Char.isAlphanum, h]

theorem joinsToken_of_isUnitChar {c : Char} (h : isUnitChar c) : joinsToken c := by
  have hc : c.isAlpha ∨ c = '%' := by simpa [isUnitChar] using h
  rcases hc with hc | rfl
  · simp [joinsToken, isNameChar, Char.isAlphanum, hc]
  · rfl

theorem joinsToken_of_isSign {c : Char} (h : isSign c) : joinsToken c := by
  rcases isSign_iff.1 h with rfl | rfl <;> decide

/-- What the one text does not begin with, the other one does not either. -/
theorem JoinsLess.eq_false (h : JoinsLess rest rest') {p : Char → Bool}
    (hp : ∀ c, p c → joinsToken c) (hrest : beginsWithAny p rest = false) :
    beginsWithAny p rest' = false := by
  by_contra hnot
  rw [h.front hp (by simpa using hnot)] at hrest
  contradiction

/-- What begins with no such character continues no token. -/
theorem JoinsLess.of_apart (h : beginsWithAny joinsToken rest' = false) : JoinsLess rest rest' where
  front hp hfront := by
    rw [beginsWithAny_mono h hp] at hfront
    contradiction
  unsigned hunsigned := by
    have hnot : startsUnsigned rest' = false := by
      refine startsUnsigned_eq_false (beginsWithAny_mono h fun c hc => ?_)
      have hc : c.isDigit ∨ c = '.' := by simpa using hc
      rcases hc with hc | rfl
      · exact joinsToken_of_isDigit hc
      · rfl
    rw [hnot] at hunsigned
    contradiction
  signed hsigned := by
    rw [spanSign_of_not_isSign (beginsWithAny_mono h fun _ => joinsToken_of_isSign),
      beginsWithAny_mono h fun _ => joinsToken_of_isDigit] at hsigned
    contradiction
  name _ := spanName?_dash_of_apart (beginsWithAny_mono h fun c hc => by simp [joinsToken, hc])

/-- A sign or a point that is a token of its own stands in front of no number and no name. -/
theorem Ends.apart_of_mark {c : Char} (h : Ends token rest) (htext : token.text = [c])
    (hc : isSign c ∨ c = '.') :
    startsNumber (c :: rest) = false ∧ spanName? (c :: rest) = none := by
  have hdigit : c.isDigit = false := by
    rcases hc with hc | rfl
    · rcases isSign_iff.1 hc with rfl | rfl <;> decide
    · decide
  have hstart : isNameStart c = false := by
    rcases hc with hc | rfl
    · rcases isSign_iff.1 hc with rfl | rfl <;> decide
    · decide
  -- Of all tokens of one character only the marks are neither digits nor letters.
  cases h with
  | numeric h =>
    obtain ⟨d, hd, hisDigit⟩ := (ends_of_scanNumeric? h).exists_digit
    obtain rfl : d = c := by simpa [htext] using hd
    rw [hisDigit] at hdigit
    contradiction
  | ident hname =>
    obtain rfl := htext
    cases hname with
    | plain hc _ =>
      rw [hc] at hstart
      contradiction
  | function hname =>
    obtain ⟨rfl, -⟩ := List.append_eq_singleton_iff.1 htext |>.resolve_right (by simp)
    cases hname
  | urlFunction => simp [urlName] at htext
  | url => simp [urlName] at htext
  | doubleQuoted => simp at htext
  | singleQuoted => simp at htext
  | hash hne => simp_all
  | important => simp [importantWord] at htext
  | punctuation hkind hnumber hname =>
    obtain rfl := (List.cons.inj htext).1
    exact ⟨hnumber, hname⟩

theorem startsUnsigned_cons_of_ne {c : Char} {cs : List Char} (hc : c ≠ '.') :
    startsUnsigned (c :: cs) = c.isDigit := by
  rw [startsUnsigned]
  exact fun _ _ h => absurd h hc

/-- What a text joins is decided by its first two characters. -/
theorem JoinsLess.of_front (c d : Char) (cs cs' : List Char) :
    JoinsLess (c :: d :: cs) (c :: d :: cs') where
  front _ hfront := hfront
  unsigned hunsigned := by
    by_cases hc : c = '.'
    · subst hc
      exact hunsigned
    · rwa [startsUnsigned_cons_of_ne hc] at *
  signed hsigned := by
    cases hc : isSign c with
    | false =>
      rw [spanSign_cons_of_not_isSign hc] at *
      exact hsigned
    | true =>
      rw [spanSign_cons_of_isSign hc] at *
      exact hsigned
  name hname := by
    obtain ⟨hstart, hdash⟩ := spanName?_dash_eq_none_iff.1 hname
    refine spanName?_dash_eq_none_iff.2 ⟨hstart, ?_⟩
    rintro _ ⟨⟩
    have hnot : isNameStart d = false := hdash (d :: cs) rfl
    exact hnot

/-- A character that begins nothing with the text behind it joins no more than in front of another
text. -/
theorem JoinsLess.of_mark {c : Char} (h : isSign c ∨ c = '.' →
      startsNumber (c :: rest') = false ∧ spanName? (c :: rest') = none) :
    JoinsLess (c :: rest) (c :: rest') where
  front _ hfront := hfront
  unsigned hunsigned := by
    by_cases hc : c = '.'
    · subst hc
      have hnot : startsUnsigned ('.' :: rest') = false := (h (.inr rfl)).1
      rw [hnot] at hunsigned
      contradiction
    · rwa [startsUnsigned_cons_of_ne hc] at *
  signed hsigned := by
    cases hc : isSign c with
    | false =>
      rw [spanSign_cons_of_not_isSign hc] at *
      exact hsigned
    | true =>
      have hnot := (h (.inl hc)).1
      rw [startsNumber, spanSign_cons_of_isSign hc] at hnot
      rw [spanSign_cons_of_isSign hc, isDigit_of_startsUnsigned hnot] at hsigned
      contradiction
  name hname := by
    obtain ⟨hstart, -⟩ := spanName?_dash_eq_none_iff.1 hname
    refine spanName?_dash_eq_none_iff.2 ⟨hstart, ?_⟩
    rintro _ ⟨⟩
    exact (spanName?_dash_eq_none_iff.1 (h (.inl rfl)).2).1

/-- Behind the same token no more is joined than before. -/
theorem JoinsLess.of_ends (h : Ends token rest) (h' : Ends token rest') :
    JoinsLess (token.text ++ rest) (token.text ++ rest') := by
  cases htext : token.text with
  | nil => exact absurd htext h.text_ne_nil
  | cons c tail =>
    -- A second character of the token is the same one; otherwise the token ends there.
    cases tail with
    | nil => exact .of_mark fun hc => h'.apart_of_mark htext hc
    | cons d tail => exact .of_front c d (tail ++ rest) (tail ++ rest')

/-- In front of a text that joins less, a mantissa may end as well. -/
theorem EndsMantissa.of_joinsLess {mantissa : List Char} (h : EndsMantissa mantissa rest)
    (hjoins : JoinsLess rest rest') : EndsMantissa mantissa rest' :=
  h.congr hjoins.unsigned (hjoins.front fun _ => joinsToken_of_isDigit)

/-- A number that was left with the `e` of an exponent without digits. -/
def IsCutShort (token : Token) : Prop :=
  ∃ mantissa e, token = ⟨.number, mantissa ++ [e]⟩ ∧ EndsMantissa mantissa [] ∧ (e = 'e' ∨ e = 'E')

/-- No character of a mantissa is the letter of an exponent. -/
theorem isMantissaChar_of_exponentLetter {e : Char} (he : e = 'e' ∨ e = 'E') :
    isMantissaChar e = false := by
  rcases he with rfl | rfl <;> decide

/-- In front of a text that joins less, a numeric token may end as well, unless it was cut short by
a sign. -/
theorem EndsNumeric.of_joinsLess (h : EndsNumeric token rest) (hjoins : JoinsLess rest rest') :
    EndsNumeric token rest' ∨
      IsCutShort token ∧ beginsWithAny isSign rest ∧ beginsWithAny isSign rest' = false := by
  have hdigit : beginsWithAny Char.isDigit rest = false → beginsWithAny Char.isDigit rest' = false :=
    hjoins.eq_false fun _ => joinsToken_of_isDigit
  cases h with
  | @cutShort mantissa _ e hmantissa he hsign hrest =>
    have hfront : ∀ cs, beginsWithAny isMantissaChar (e :: cs) = false :=
      fun _ => isMantissaChar_of_exponentLetter he
    -- Without the sign behind it, the `e` is no exponent that lacks its digits but a unit.
    cases hsign' : beginsWithAny isSign rest' with
    | false => exact .inr ⟨⟨mantissa, e, rfl, hmantissa.of_apart rfl, he⟩, hsign, rfl⟩
    | true =>
      refine .inl (.cutShort (hmantissa.of_apart (hfront _)) he hsign' ?_)
      by_contra hnot
      rw [hjoins.signed (by simpa using hnot)] at hrest
      contradiction
  | @number mantissa exponent _ hmantissa hexponent hrest =>
    have hrest' := hjoins.eq_false (fun _ => joinsToken_of_isUnitChar) hrest
    rcases hexponent with rfl | ⟨hexponent, hdigits⟩
    · exact .inl (.number (hmantissa.of_joinsLess hjoins) (.inl rfl) hrest')
    · refine .inl (.number (hmantissa.of_apart ?_) (.inr ⟨hexponent, hdigit hdigits⟩) hrest')
      exact hexponent.apart _
  | @dimension mantissa exponent unit _ hmantissa hexponent hunit hrest hlone =>
    have halpha : beginsWithAny Char.isAlpha rest = false →
        beginsWithAny Char.isAlpha rest' = false :=
      hjoins.eq_false fun c hc => joinsToken_of_isUnitChar (by simp [isUnitChar, hc])
    refine .inl (.dimension (hmantissa.of_apart ?_) hexponent hunit (hrest.imp_right halpha) ?_)
    · rcases hexponent with rfl | hexponent
      · rw [List.nil_append]
        exact hunit.apart_append fun _ => isMantissaChar_of_isUnitChar
      · exact hexponent.apart _
    · intro hnil hletter
      obtain ⟨hsign, hdigits⟩ := hlone hnil hletter
      exact ⟨hjoins.eq_false (fun _ => joinsToken_of_isSign) hsign, hdigit hdigits⟩

/-- A mark ends where it begins neither a number nor a name with what follows it. -/
theorem Ends.mark_of_joinsLess {c : Char} {kind : Kind} (hkind : punctuation? c = some kind)
    (hnumber : startsNumber (c :: rest) = false) (hname : spanName? (c :: rest) = none)
    (hjoins : JoinsLess rest rest') : Ends ⟨kind, [c]⟩ rest' := by
  refine .punctuation hkind ?_ ?_
  · cases hmantissa : isMantissaChar c with
    | false => exact startsNumber_cons hmantissa
    | true =>
      refine Bool.eq_false_iff.2 fun hmore => ?_
      -- Signs go by the number behind them, the point by the digit behind it.
      obtain ⟨rfl, -⟩ | ⟨rfl, -⟩ | ⟨rfl, -⟩ := mantissa_of_punctuation? hkind hmantissa
      · exact Bool.false_ne_true (hnumber.symm.trans (hjoins.unsigned hmore))
      · exact Bool.false_ne_true (hnumber.symm.trans (hjoins.unsigned hmore))
      · have hmore : startsUnsigned ('.' :: rest') = true := hmore
        have hnumber : startsUnsigned ('.' :: rest) = false := hnumber
        rw [startsUnsigned_point] at hmore hnumber
        rw [hjoins.front (fun _ => joinsToken_of_isDigit) hmore] at hnumber
        contradiction
  · by_cases hc : c = '-'
    · subst hc
      exact hjoins.name hname
    · exact spanName?_cons hc (punctuation_apart hkind).1

/-- A token also ends in front of a text that joins no more, except for a number that loses the sign
behind its `e`. -/
theorem Ends.of_joinsLess (h : Ends token rest) (hjoins : JoinsLess rest rest')
    (hurl : token.kind = .function → token.text = urlName ++ ['('] →
      rest' = [] ∨ beginsWithAny isQuote rest') :
    Ends token rest' ∨
      IsCutShort token ∧ beginsWithAny isSign rest ∧ beginsWithAny isSign rest' = false := by
  have hname : beginsWithAny isNameChar rest = false → beginsWithAny isNameChar rest' = false :=
    hjoins.eq_false fun c hc => by simp [joinsToken, hc]
  -- Strings, addresses and calls end at a character of their own, whatever follows.
  cases h with
  | numeric h =>
    refine ((ends_of_scanNumeric? h).of_joinsLess hjoins).imp_left fun h => ?_
    exact .numeric (scanNumeric?_of_ends h)
  | ident hword hrest hcall =>
    refine .inl (.ident hword (hname hrest) fun hhead => hcall ?_)
    rw [head?_eq_some_iff] at *
    exact hjoins.front (fun c hc => by simp [joinsToken, hc]) hhead
  | function hword hnot hdashes => exact .inl (.function hword hnot hdashes)
  | urlFunction => exact .inl (.urlFunction (hurl rfl rfl))
  | url haddress => exact .inl (.url haddress)
  | doubleQuoted hinner => exact .inl (.doubleQuoted hinner)
  | singleQuoted hinner => exact .inl (.singleQuoted hinner)
  | hash hne hchars hrest => exact .inl (.hash hne hchars (hname hrest))
  | important hblanks => exact .inl (.important hblanks)
  | punctuation hkind hnumber hdash => exact .inl (.mark_of_joinsLess hkind hnumber hdash hjoins)

/-- The function `url(` stands in front of a string or at the end of a text. -/
theorem Ends.behind_url (h : Ends token rest) (hkind : token.kind = .function)
    (htext : token.text = urlName ++ ['(']) : rest = [] ∨ beginsWithAny isQuote rest := by
  cases h with
  | numeric h => rcases scanNumeric?_kind h with h | h <;> rw [h] at hkind <;> contradiction
  | function _ hurl => exact absurd (List.append_cancel_right htext) hurl
  | urlFunction hrest => exact hrest
  | punctuation hchar =>
    obtain rfl : _ = Kind.function := hkind
    exact absurd (isPunctuation_kind hchar) Bool.false_ne_true
  | _ => contradiction

/-- Behind a gap stands no function `url(`. -/
theorem Ends.ne_url_of_gap (h : Ends token rest) (hgap : beginsWithAny isGap rest)
    (hkind : token.kind = .function) : token.text ≠ urlName ++ ['('] := by
  intro htext
  rcases h.behind_url hkind htext with rfl | hquote
  · contradiction
  · rw [beginsWithAny_of_isGap hgap (by decide)] at hquote
    contradiction

/-- A token in front of a gap ends wherever no character joins it. -/
theorem Ends.of_gap (h : Ends token rest) (hgap : beginsWithAny isGap rest)
    (hrest' : beginsWithAny joinsToken rest' = false) : Ends token rest' := by
  rcases h.of_joinsLess (.of_apart hrest') fun hkind htext =>
    absurd htext (h.ne_url_of_gap hgap hkind) with h | ⟨-, hsign, -⟩
  · exact h
  · rw [beginsWithAny_of_isGap hgap (by decide)] at hsign
    contradiction

/-- A token directly in front of another one ends there whatever follows that one. -/
theorem Ends.of_adjacent {next : Token} (h : Ends token (next.text ++ rest)) (hnext : Ends next rest)
    (hnext' : Ends next rest') : Ends token (next.text ++ rest') := by
  have hfront : ∀ p : Char → Bool,
      beginsWithAny p (next.text ++ rest') = beginsWithAny p (next.text ++ rest) := by
    intro p
    cases htext : next.text with
    | nil => exact absurd htext hnext.text_ne_nil
    | cons => rfl
  have hurl : token.kind = .function → token.text = urlName ++ ['('] →
      next.text ++ rest' = [] ∨ beginsWithAny isQuote (next.text ++ rest') := by
    intro hkind htext
    rw [hfront]
    exact (h.behind_url hkind htext).imp_left fun hnil => by
      simp [hnext.text_ne_nil] at hnil
  rcases h.of_joinsLess (.of_ends hnext hnext') hurl with h | ⟨-, hsign, hsign'⟩
  · exact h
  · rw [hfront, hsign] at hsign'
    contradiction

/-! ## The text of a token -/

/-- A token also ends at the end of a text. -/
theorem Ends.alone (h : Ends token rest) : Ends token [] ∨ IsCutShort token :=
  (h.of_joinsLess (.of_apart rfl) fun _ _ => .inl rfl).imp_right And.left

theorem isUnit_exponentLetter {e : Char} (he : e = 'e' ∨ e = 'E') : IsUnit [e] := by
  rcases he with rfl | rfl
  · exact .inr ⟨by simp, by simp⟩
  · exact .inr ⟨by simp, by simp⟩

/-- A number that is cut short is a dimension on its own. -/
theorem IsCutShort.ends_dimension (h : IsCutShort token) : Ends ⟨.dimension, token.text⟩ [] := by
  obtain ⟨mantissa, e, rfl, hmantissa, he⟩ := h
  have hfront : beginsWithAny isMantissaChar ([] ++ ([e] ++ [])) = false :=
    isMantissaChar_of_exponentLetter he
  have hends : EndsNumeric ⟨.dimension, mantissa ++ [] ++ [e]⟩ [] :=
    .dimension (hmantissa.of_apart hfront) (.inl rfl) (isUnit_exponentLetter he) (.inr rfl)
      fun _ _ => ⟨rfl, rfl⟩
  rw [List.append_nil] at hends
  exact .numeric (scanNumeric?_of_ends hends)

/-- Tokens of the same text that may end at the end of the source are the same. -/
theorem Ends.unique {other : Token} (h : Ends token []) (h' : Ends other [])
    (htext : token.text = other.text) : token = other := by
  have hscan := scan?_of_ends h
  rw [htext, scan?_of_ends h'] at hscan
  exact (Prod.ext_iff.1 (Option.some.inj hscan)).1.symm

/-- Tokens with one text are one token, or a number that was cut short and a dimension. -/
theorem Ends.eq_or_cutShort {other : Token} (h : Ends token rest) (h' : Ends other rest')
    (htext : token.text = other.text) :
    token = other ∨ IsCutShort token ∧ other = ⟨.dimension, token.text⟩ ∨
      IsCutShort other ∧ token = ⟨.dimension, other.text⟩ := by
  rcases h.alone with h | h <;> rcases h'.alone with h' | h'
  · exact .inl (h.unique h' htext)
  · exact .inr (.inr ⟨h', h.unique h'.ends_dimension htext⟩)
  · exact .inr (.inl ⟨h, h'.unique h.ends_dimension htext.symm⟩)
  · obtain ⟨mantissa, e, rfl, -⟩ := h
    obtain ⟨mantissa', e', rfl, -⟩ := h'
    exact .inl (congrArg _ htext)

end Joins

end AtomicCss.Token
