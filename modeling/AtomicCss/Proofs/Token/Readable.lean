import AtomicCss.Proofs.Token.Boundary
/-!
# Texts that can be read

`Readable` describes texts by their characters and without any choice of tokens: words, punctuation,
strings, and addresses where a word begins. Whichever tokens the lexer cuts such a text into, it is
never stopped, and it finds every `!important` (`exists_reads_of_readable`). The reason is that a
token leaves a readable text behind (`Readable.advances`).
-/

namespace AtomicCss.Token

/-- What stands in front of an address. -/
def urlOpening : List Char := urlName ++ ['(']

/-- A text of words, punctuation, strings, hashes and addresses in which `!important` stands `marks`
times. Directly behind the characters of a word (`inWord`) no address begins. -/
inductive Readable : Nat → Bool → List Char → Prop
  | nil {inWord : Bool} : Readable 0 inWord []
  | plain {marks : Nat} {inWord : Bool} {c : Char} {rest : List Char}
    (hc : isGap c ∨ c ≠ '-' ∧ (punctuation? c).isSome) (h : Readable marks false rest) :
    Readable marks inWord (c :: rest)
  | word {marks : Nat} {inWord : Bool} {c : Char} {rest : List Char} (hc : isNameChar c)
    (hurl : inWord = false → ¬urlOpening <+: c :: rest) (h : Readable marks true rest) :
    Readable marks inWord (c :: rest)
  | string {marks : Nat} {inWord : Bool} {inner rest : List Char} (hinner : IsInner '"' inner)
    (h : Readable marks false rest) : Readable marks inWord ('"' :: (inner ++ '"' :: rest))
  | hash {marks : Nat} {inWord : Bool} {rest : List Char} (hrest : beginsWithAny isNameChar rest)
    (h : Readable marks true rest) : Readable marks inWord ('#' :: rest)
  | important {marks : Nat} {inWord : Bool} {rest : List Char} (h : Readable marks false rest) :
    Readable (marks + 1) inWord ('!' :: (importantWord ++ rest))
  | address {marks : Nat} {address rest : List Char} (haddress : ∀ c ∈ address, !endsAddress c)
    (h : Readable marks false rest) :
    Readable marks false ('u' :: 'r' :: 'l' :: '(' :: (address ++ ')' :: rest))
  | call {marks : Nat} {rest : List Char} (hrest : beginsWithAny isQuote rest)
    (h : Readable marks false rest) : Readable marks false ('u' :: 'r' :: 'l' :: '(' :: rest)

/-! ## Behind the first characters -/

/-- A text that does not begin with a `u` does not open a url. -/
theorem not_opening_of_begins {p : Char → Bool} {cs : List Char} (h : beginsWithAny p cs = false)
    (hp : p 'u') : ¬urlOpening <+: cs := by
  rintro ⟨rest, rfl⟩
  have hu : p 'u' = false := h
  rw [hp] at hu
  contradiction

theorem not_opening_cons {c : Char} {cs : List Char} (hc : c ≠ 'u') : ¬urlOpening <+: c :: cs := by
  rintro ⟨rest, heq⟩
  exact hc (List.cons.inj heq).1.symm

/-- Of the name characters only the dash is punctuation. -/
theorem not_plain_of_isNameChar {c : Char} (hname : isNameChar c)
    (hc : isGap c ∨ c ≠ '-' ∧ (punctuation? c).isSome) : False := by
  obtain hgap | ⟨hdash, hkind⟩ := hc
  · rw [forall_of_isGap (p := isNameChar) (by decide) c hgap] at hname
    contradiction
  · obtain ⟨kind, hkind⟩ := Option.isSome_iff_exists.1 hkind
    have hall : punctuation.all fun row => row.1 == '-' || !isNameChar row.1 := by
      decide
    have hrow := List.all_eq_true.1 hall _ (mem_punctuation hkind)
    simp [hdash, hname] at hrow

section Front

variable {marks : Nat} {inWord : Bool} {c : Char} {cs rest : List Char}

/-- Where no address begins it does not matter what stands in front of a text. -/
theorem Readable.anywhere (h : Readable marks inWord cs) (hurl : ¬urlOpening <+: cs)
    (other : Bool) : Readable marks other cs := by
  cases h with
  | nil => exact .nil
  | plain hc h => exact .plain hc h
  | word hc _ h => exact .word hc (fun _ => hurl) h
  | string hinner h => exact .string hinner h
  | hash hrest h => exact .hash hrest h
  | important h => exact .important h
  | address _ _ => exact absurd (List.prefix_append urlOpening _) hurl
  | call _ _ => exact absurd (List.prefix_append urlOpening _) hurl

/-- Behind a character of a name the rest of a word is readable. -/
theorem Readable.behind_name (h : Readable marks inWord (c :: cs)) (hc : isNameChar c)
    (hurl : inWord = false → ¬urlOpening <+: c :: cs) : Readable marks true cs := by
  cases h with
  | plain hplain _ => exact (not_plain_of_isNameChar hc hplain).elim
  | word _ _ h => exact h
  | string | hash | important => exact absurd hc (by decide)
  | address _ _ => exact absurd (List.prefix_append urlOpening _) (hurl rfl)
  | call _ _ => exact absurd (List.prefix_append urlOpening _) (hurl rfl)

/-- Behind a single sign the rest is readable as if it came first. -/
theorem Readable.behind_plain (h : Readable marks inWord (c :: cs))
    (hc : c ≠ '-' ∧ (punctuation? c).isSome) : Readable marks false cs := by
  cases h with
  | plain _ h => exact h
  | word hname _ _ => exact (not_plain_of_isNameChar hname (.inr hc)).elim
  | string | hash | important | address | call => exact absurd hc.2 (by decide)

/-- Behind the front of a word the rest of it is readable. -/
theorem Readable.behind_word {name : List Char} (h : Readable marks true (name ++ rest))
    (hname : ∀ c ∈ name, isNameChar c) : Readable marks true rest := by
  induction name with
  | nil => exact h
  | cons c name ih =>
    obtain ⟨hc, hname⟩ := List.forall_mem_cons.1 hname
    exact ih (h.behind_name hc (by simp)) hname

/-- The characters of a number in front of its last one. -/
def isNumeralChar (c : Char) : Bool :=
  isMantissaChar c || c == 'e' || c == 'E'

/-- A character of a numeral goes on with a name or is a single sign. -/
theorem isNumeralChar_cases {c : Char} (h : isNumeralChar c) :
    c ≠ 'u' ∧ (isNameChar c ∨ c ≠ '-' ∧ (punctuation? c).isSome) := by
  obtain ((((h | rfl) | rfl) | rfl) | rfl) | rfl :
      ((((c.isDigit ∨ c = '.') ∨ c = '+') ∨ c = '-') ∨ c = 'e') ∨ c = 'E' := by
    simpa [isNumeralChar, isMantissaChar] using h
  · refine ⟨?_, .inl (by simp [isNameChar, Char.isAlphanum, h])⟩
    rintro rfl
    exact absurd h (by decide)
  all_goals decide

/-- Behind a number a word goes on, since a number ends with a digit or an `e`. -/
theorem Readable.behind_numeral {front : List Char}
    (h : Readable marks inWord (front ++ c :: rest)) (hfront : ∀ d ∈ front, isNumeralChar d)
    (hc : isNumeralChar c ∧ isNameChar c) : Readable marks true rest := by
  induction front generalizing inWord with
  | nil =>
    have hne := (isNumeralChar_cases hc.1).1
    exact h.behind_name hc.2 fun _ => not_opening_cons hne
  | cons d front ih =>
    obtain ⟨hd, hfront⟩ := List.forall_mem_cons.1 hfront
    obtain ⟨hne, hname | hplain⟩ := isNumeralChar_cases hd
    · exact ih (h.behind_name hname fun _ => not_opening_cons hne) hfront
    · exact ih (h.behind_plain hplain) hfront

end Front

/-! ## The ends of numbers -/

/-- A number up to its last character, which is a digit or the `e` of an exponent that was cut
short. -/
def IsNumeralText (cs : List Char) : Prop :=
  ∃ front c, cs = front ++ [c] ∧ (∀ d ∈ front, isNumeralChar d) ∧ isNumeralChar c ∧ isNameChar c

theorem isNumeralChar_of_isMantissaChar {c : Char} (h : isMantissaChar c) : isNumeralChar c := by
  simp [isNumeralChar, h]

/-- Characters of numerals in front of a numeral make up a numeral text. -/
theorem IsNumeralText.append {a b : List Char} (ha : ∀ c ∈ a, isNumeralChar c)
    (hb : IsNumeralText b) : IsNumeralText (a ++ b) := by
  obtain ⟨front, c, rfl, hfront, hc⟩ := hb
  exact ⟨a ++ front, c, by simp, fun d hd => (List.mem_append.1 hd).elim (ha d) (hfront d), hc⟩

theorem isNumeralText_of_digits {digits : List Char} (hne : digits ≠ [])
    (h : ∀ c ∈ digits, c.isDigit) : IsNumeralText digits := by
  have hlast := h _ (List.getLast_mem hne)
  refine ⟨_, _, (List.dropLast_concat_getLast hne).symm, fun c hc => ?_, ?_, ?_⟩
  · exact isNumeralChar_of_isMantissaChar
      (isMantissaChar_of_isDigit (h c (List.dropLast_subset _ hc)))
  · exact isNumeralChar_of_isMantissaChar (isMantissaChar_of_isDigit hlast)
  · simp [isNameChar, Char.isAlphanum, hlast]

/-- A mantissa has only characters of numerals. -/
theorem EndsMantissa.isNumeralChar {mantissa rest : List Char} (h : EndsMantissa mantissa rest) :
    ∀ c ∈ mantissa, isNumeralChar c :=
  fun c hc => isNumeralChar_of_isMantissaChar (h.isMantissaChar c hc)

/-- A mantissa ends with a digit. -/
theorem EndsMantissa.isNumeralText {mantissa rest : List Char} (h : EndsMantissa mantissa rest) :
    IsNumeralText mantissa := by
  have hchars := h.isNumeralChar
  cases h with
  | whole _ hne hdigits _ =>
    rw [List.forall_mem_append] at hchars
    exact .append hchars.1 (isNumeralText_of_digits hne hdigits)
  | @point sign whole fraction _ _ _ hne hfraction _ =>
    have hsplit : sign ++ (whole ++ '.' :: fraction) = (sign ++ whole ++ ['.']) ++ fraction := by
      simp
    rw [hsplit] at hchars ⊢
    rw [List.forall_mem_append] at hchars
    exact .append hchars.1 (isNumeralText_of_digits hne hfraction)

theorem isNumeralText_of_isExponent {exponent : List Char} (h : IsExponent exponent) :
    IsNumeralText exponent := by
  obtain ⟨he, hsign, hd, htail⟩ := h
  rename_i e d sign tail
  have hfront : ∀ c ∈ e :: sign, isNumeralChar c := by
    obtain rfl | rfl := he <;> obtain rfl | rfl | rfl := hsign <;>
      exact List.all_eq_true.1 (by decide)
  exact .append (a := e :: sign) hfront
    (isNumeralText_of_digits (by simp) (List.forall_mem_cons.2 ⟨hd, htail⟩))

/-- A number and its unit, which takes all letters behind it if it is no percent sign. -/
theorem EndsNumeric.exists_isNumeralText {token : Token} {rest : List Char}
    (h : EndsNumeric token rest) :
    ∃ numeral unit, token.text = numeral ++ unit ∧ IsNumeralText numeral ∧
      (unit = ['%'] ∨ (∀ c ∈ unit, c.isAlpha) ∧ beginsWithAny Char.isAlpha rest = false) := by
  have happend : ∀ {mantissa exponent left : List Char}, EndsMantissa mantissa left →
      exponent = [] ∨ IsExponent exponent → IsNumeralText (mantissa ++ exponent) := by
    rintro mantissa exponent left hmantissa (rfl | hexponent)
    · rw [List.append_nil]
      exact hmantissa.isNumeralText
    · exact .append hmantissa.isNumeralChar (isNumeralText_of_isExponent hexponent)
  cases h with
  | @cutShort mantissa _ e hmantissa he hsign _ =>
    have hletter : isNumeralChar e ∧ isNameChar e := by
      obtain rfl | rfl := he <;> decide
    have hrest := isAlpha_of_isUnitChar (isUnitChar_of_isSign hsign)
    exact ⟨mantissa ++ [e], [], by simp, ⟨mantissa, e, rfl, hmantissa.isNumeralChar, hletter⟩,
      .inr ⟨by simp, hrest⟩⟩
  | number hmantissa hexponent hrest =>
    exact ⟨_, [], by simp, happend hmantissa (hexponent.imp_right And.left),
      .inr ⟨by simp, isAlpha_of_isUnitChar hrest⟩⟩
  | @dimension mantissa exponent unit _ hmantissa hexponent hunit hrest _ =>
    refine ⟨mantissa ++ exponent, unit, rfl, happend hmantissa hexponent, ?_⟩
    obtain hpercent | ⟨-, halpha⟩ := hunit
    · exact .inl hpercent
    · refine .inr ⟨halpha, hrest.resolve_left fun hpercent => ?_⟩
      exact absurd (halpha '%' (by simp [hpercent])) (by decide)

/-! ## One token -/

/-- The number of marks that a token is. -/
def marks (token : Token) : Nat :=
  if token.kind = .important then 1 else 0

/-- Numeric tokens have no marks. -/
theorem marks_of_scanNumeric? {cs rest : List Char} {token : Token}
    (h : scanNumeric? cs = some (token, rest)) : token.marks = 0 := by
  obtain hkind | hkind := scanNumeric?_kind h <;> simp [marks, hkind]

/-- Single signs have no marks. -/
theorem marks_punctuation {c : Char} {kind : Kind} (h : punctuation? c = some kind) :
    marks ⟨kind, [c]⟩ = 0 := by
  refine if_neg ?_
  rintro rfl
  exact absurd (isPunctuation_kind h) Bool.false_ne_true

/-- That a token stands at the front of a text, behind which the text is readable. -/
def Advances (marks : Nat) (cs : List Char) : Prop :=
  ∃ token rest more, cs = token.text ++ rest ∧ Ends token rest ∧ Readable more false rest ∧
    marks = token.marks + more

section Advance

variable {marks : Nat} {cs : List Char}

/-- The lexer gets past a number. -/
theorem advances_of_startsNumber (h : Readable marks false cs) (hnumber : startsNumber cs) :
    Advances marks cs := by
  cases hscan : scanNumeric? cs with
  | none =>
    rw [scanNumeric?_eq_none_iff.1 hscan] at hnumber
    contradiction
  | some result =>
    obtain ⟨token, rest⟩ := result
    have hsplit := (splits_scanNumeric? cs token rest hscan).1
    have hends : Ends token rest := .numeric (by rwa [hsplit])
    refine ⟨token, rest, marks, hsplit.symm, hends, ?_, by simp [marks_of_scanNumeric? hscan]⟩
    -- Reading goes on behind the number, and then behind its unit, a word or a percent sign.
    obtain ⟨numeral, unit, htext, ⟨front, c, rfl, hfront, hc⟩, hunit⟩ :=
      (ends_of_scanNumeric? hscan).exists_isNumeralText
    rw [← hsplit, htext, List.append_assoc, List.append_assoc] at h
    have hword : Readable marks true (unit ++ rest) := h.behind_numeral hfront hc
    obtain rfl | ⟨halpha, hrest⟩ := hunit
    · exact hword.behind_plain (by decide)
    · refine (hword.behind_word fun c hc => ?_).anywhere (not_opening_of_begins hrest rfl) false
      simp [isNameChar, Char.isAlphanum, halpha c hc]

/-- The lexer gets past a name that opens no url. -/
theorem advances_of_spanName? {name left : List Char} (h : Readable marks false cs)
    (hurl : ¬urlOpening <+: cs) (hspan : spanName? cs = some (name, left)) :
    Advances marks cs := by
  obtain ⟨rfl, hname, hleft⟩ := spanName?_eq_some_iff.1 hspan
  have hword : Readable marks true left := (h.anywhere hurl true).behind_word hname.isNameChar
  have hrest : Readable marks false left := hword.anywhere (not_opening_of_begins hleft rfl) false
  by_cases hcall : left.head? = some '(' → name.take 2 = ['-', '-']
  · exact ⟨⟨.ident, name⟩, left, marks, rfl, .ident hname hleft hcall, hrest, by simp [Token.marks]⟩
  · -- The name is called: the parenthesis belongs to the token.
    obtain ⟨hhead, hdashes⟩ := Classical.not_imp.1 hcall
    cases left with
    | nil => simp at hhead
    | cons c left =>
      obtain rfl : c = '(' := by simpa using hhead
      have hne : name ≠ urlName := by
        rintro rfl
        exact hurl ⟨left, by simp [urlOpening]⟩
      exact ⟨⟨.function, name ++ ['(']⟩, left, marks, by simp, .function hname hne hdashes,
        hrest.behind_plain (by decide), by simp [Token.marks]⟩

/-- A digit begins a number, and a letter a name. -/
theorem eq_dash_of_isNameChar {c : Char} {rest : List Char} (hc : isNameChar c)
    (hnumber : startsNumber (c :: rest) = false) (hspan : spanName? (c :: rest) = none) :
    c = '-' := by
  by_contra hdash
  have hstart : isNameStart c = false := by
    by_contra hstart
    have hname : IsName (c :: rest.takeWhile isNameChar) :=
      .plain (by simpa using hstart) forall_mem_takeWhile
    have hsplit : c :: rest = c :: rest.takeWhile isNameChar ++ rest.dropWhile isNameChar := by
      simp
    have hsome := spanName?_eq_some_iff.2 ⟨hsplit, hname, beginsWithAny_dropWhile⟩
    rw [hspan] at hsome
    contradiction
  -- What continues a name without beginning one is a dash or a digit.
  have hdigit : c.isDigit := by
    simp only [isNameStart, Bool.or_eq_false_iff, beq_eq_false_iff_ne] at hstart
    simpa [isNameChar, Char.isAlphanum, hstart, hdash] using hc
  have hsign : spanSign (c :: rest) = ([], c :: rest) := by
    refine spanSign_cons ⟨?_, hdash⟩
    rintro rfl
    exact absurd hdigit (by decide)
  rw [startsNumber, hsign, startsUnsigned_of_isDigit hdigit] at hnumber
  contradiction

/-- A mark is a token of its own, or it begins a number. -/
theorem advances_of_punctuation {c : Char} {rest : List Char}
    (hwhole : Readable marks false (c :: rest)) (hdash : c ≠ '-') (hc : (punctuation? c).isSome)
    (h : Readable marks false rest) : Advances marks (c :: rest) := by
  obtain ⟨kind, hkind⟩ := Option.isSome_iff_exists.1 hc
  cases hnumber : startsNumber (c :: rest) with
  | true => exact advances_of_startsNumber hwhole hnumber
  | false =>
    have hname : spanName? (c :: rest) = none := spanName?_cons hdash (punctuation_apart hkind).1
    exact ⟨⟨kind, [c]⟩, rest, marks, rfl, .punctuation hkind hnumber hname, h,
      by simp [marks_punctuation hkind]⟩

/-- A character of a word begins a number or a name, or it is a dash on its own. -/
theorem advances_of_isNameChar {c : Char} {rest : List Char}
    (hwhole : Readable marks false (c :: rest)) (hc : isNameChar c)
    (hurl : ¬urlOpening <+: c :: rest) (h : Readable marks true rest) :
    Advances marks (c :: rest) := by
  cases hnumber : startsNumber (c :: rest) with
  | true => exact advances_of_startsNumber hwhole hnumber
  | false =>
    cases hspan : spanName? (c :: rest) with
    | some result => exact advances_of_spanName? hwhole hurl hspan
    | none =>
      obtain rfl := eq_dash_of_isNameChar hc hnumber hspan
      have hrest := (spanName?_dash_eq_none_iff.1 hspan).1
      exact ⟨⟨.minus, ['-']⟩, rest, marks, rfl, .punctuation rfl hnumber hspan,
        h.anywhere (not_opening_of_begins hrest rfl) false, by simp [Token.marks]⟩

/-- The lexer gets past a hash. -/
theorem advances_of_hash {rest : List Char} (hrest : beginsWithAny isNameChar rest)
    (h : Readable marks true rest) : Advances marks ('#' :: rest) := by
  have hsplit := (List.takeWhile_append_dropWhile (p := isNameChar) (l := rest)).symm
  have hname : rest.takeWhile isNameChar ≠ [] := by
    cases rest with
    | nil => contradiction
    | cons c rest => simp [List.takeWhile_cons_of_pos (p := isNameChar) hrest]
  have hend : beginsWithAny isNameChar (rest.dropWhile isNameChar) = false :=
    beginsWithAny_dropWhile
  rw [hsplit] at h
  exact ⟨_, _, marks, by simp, .hash hname forall_mem_takeWhile hend,
    (h.behind_word forall_mem_takeWhile).anywhere (not_opening_of_begins hend rfl) false,
    by simp [Token.marks]⟩

/-- The lexer gets past whatever stands in front of a readable text. -/
theorem Readable.advances (h : Readable marks false cs) (hne : cs ≠ [])
    (hgap : beginsWithAny isGap cs = false) : Advances marks cs := by
  have hwhole := h
  cases h with
  | nil => contradiction
  | @plain marks _ c rest hc h =>
    obtain hc | ⟨hdash, hc⟩ := hc
    · rw [beginsWithAny_cons, hc] at hgap
      contradiction
    · exact advances_of_punctuation hwhole hdash hc h
  | word hc hurl h => exact advances_of_isNameChar hwhole hc (hurl rfl) h
  | @string marks _ inner rest hinner h =>
    exact ⟨_, rest, marks, by simp, .doubleQuoted hinner, h, by simp [Token.marks]⟩
  | hash hrest h => exact advances_of_hash hrest h
  | @important marks _ rest h =>
    exact ⟨_, rest, marks, by simp, .important (List.forall_mem_nil (isInnerBlank ·)), h,
      by simp [Token.marks, Nat.add_comm]⟩
  | @address marks address rest haddress h =>
    exact ⟨_, rest, marks, by simp [urlName], .url haddress, h, by simp [Token.marks]⟩
  | @call marks rest hrest h =>
    exact ⟨_, rest, marks, by simp [urlName], .urlFunction (.inr hrest), h, by simp [Token.marks]⟩

end Advance

/-! ## Whole texts -/

/-- The number of marks among lexemes. -/
def marksOf (lexemes : List Lexeme) : Nat :=
  (lexemes.map (·.token.marks)).sum

/-- A blank in front of a text changes no token. -/
theorem Reads.gap_cons {c : Char} {cs : List Char} {lexemes : List Lexeme} (hc : isGap c)
    (h : Reads cs lexemes) :
    ∃ others, Reads (c :: cs) others ∧ marksOf others = marksOf lexemes := by
  cases h with
  | nil hblanks => exact ⟨[], .nil (List.forall_mem_cons.2 ⟨hc, hblanks⟩), rfl⟩
  | @cons gap rest token lexemes hgap hends hrest =>
    exact ⟨⟨c :: gap, token⟩ :: lexemes,
      .cons (List.forall_mem_cons.2 ⟨hc, hgap⟩) hends hrest, rfl⟩

/-- A readable text is read as tokens, with as many marks as it has. -/
theorem exists_reads_of_readable {marks : Nat} {cs : List Char} (h : Readable marks false cs) :
    ∃ lexemes, Reads cs lexemes ∧ marksOf lexemes = marks := by
  -- Every token takes a character, so that the texts behind them get shorter.
  induction hlength : cs.length using Nat.strong_induction_on generalizing marks cs with
  | _ length ih =>
    subst hlength
    cases cs with
    | nil =>
      cases h
      exact ⟨[], .nil (by simp), rfl⟩
    | cons c cs =>
      cases hgap : isGap c with
      | true =>
        have hrest : Readable marks false cs := by
          cases h with
          | plain _ h => exact h
          | word hc _ _ => exact (not_plain_of_isNameChar hc (.inl hgap)).elim
          | string | hash | important | address | call => exact absurd hgap (by decide)
        obtain ⟨lexemes, hreads, hmarks⟩ := ih cs.length (by simp) hrest rfl
        obtain ⟨others, hothers, hsame⟩ := hreads.gap_cons hgap
        exact ⟨others, hothers, hsame.trans hmarks⟩
      | false =>
        obtain ⟨token, rest, more, hcs, hends, hrest, rfl⟩ := h.advances (by simp) hgap
        have hshort : rest.length < (c :: cs).length := by
          have hpos := List.length_pos_iff.2 hends.text_ne_nil
          rw [hcs, List.length_append]
          omega
        obtain ⟨lexemes, hreads, hmarks⟩ := ih rest.length hshort hrest rfl
        refine ⟨⟨[], token⟩ :: lexemes, ?_, by simp [marksOf, ← hmarks]⟩
        rw [hcs]
        exact .cons (List.forall_mem_nil (isGap ·)) hends hreads

end AtomicCss.Token
