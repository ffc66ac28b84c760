import AtomicCss.Proofs.Token.Readable
import AtomicCss.Proofs.Value.Contained
import AtomicCss.Proofs.Value.Respelled
/-!
# Marks in printed text

What is printed for lexemes can be read, and `!important` stands in it as often as in the lexemes
(`readable_printed`). Which tokens it is read as does not matter here, so that numbers may grow
together: of what is printed only the first characters count, and those are of the same kind as the
first characters of what was read (`begins_printed`).
-/

namespace AtomicCss

open Token (Ends Reads Readable IsName beginsWithAny isNameChar isQuote punctuation? urlName
  urlOpening not_opening_cons not_opening_of_begins)

/-! ## What printed text begins with -/

/-- Characters with which neither a number begins nor a token in front of which blanks are dropped,
whatever the case of letters and the kind of quotes. -/
structure Token.IsFrontClass (p : Char → Bool) : Prop where
  lower : ∀ c, p c.toLower = p c
  quote : p '"' = p '\''
  digit : ∀ c, c.isDigit → p c = false
  others : [' ', '.', '-', 'i', 'N', ')', ',', '/', '!'].all (!p ·)

/-- The letters of `url`. -/
def isUrlLetter (c : Char) : Bool :=
  urlName.contains c.toLower

theorem isAlpha_of_isUrlLetter {c : Char} (h : isUrlLetter c) : c.isAlpha := by
  have hall := List.all_eq_true.1 (show urlName.all Char.isAlpha by decide) _
    (List.contains_iff_mem.1 h)
  rwa [Char.isAlpha_toLower_eq_isAlpha] at hall

theorem Token.isFrontClass_isUrlLetter : IsFrontClass isUrlLetter where
  lower c := by simp [isUrlLetter]
  quote := rfl
  digit c hc := by
    by_contra hletter
    have halpha := isAlpha_of_isUrlLetter (by simpa using hletter)
    rw [isAlpha_iff_toNat] at halpha
    have hrange : 48 ≤ c.toNat ∧ c.toNat ≤ 57 := Char.isDigit_iff_toNat.1 hc
    omega
  others := by decide

theorem Token.isFrontClass_paren : IsFrontClass (· == '(') where
  lower _ := toLower_beq (by decide)
  quote := rfl
  digit c hc := by
    refine beq_eq_false_iff_ne.2 ?_
    rintro rfl
    exact absurd hc (by decide)
  others := by decide

section Front

variable {setting : Setting} {groups : List Bool} {p : Char → Bool} {token : Token}
  {rest text tail : List Char} {lexemes : List Lexeme}

theorem Token.IsFrontClass.eq_false (hp : Token.IsFrontClass p) {c : Char}
    (hc : c ∈ [' ', '.', '-', 'i', 'N', ')', ',', '/', '!']) : p c = false := by
  simpa using List.all_eq_true.1 hp.others c hc

/-- A number begins with nothing of a class that is kept from the front. -/
theorem begins_formatNumber (hp : Token.IsFrontClass p) (x : Binary64) (tail : List Char) :
    beginsWithAny p (formatNumber x ++ tail) = false := by
  -- A numeral begins with a digit, a point or a dash, and each of the three words with its letter.
  cases hfinite : x.isFinite with
  | true =>
    obtain ⟨n, hn⟩ := exists_numeral_formatNumber hfinite
    rw [hn]
    have hfront := begins_spell n tail
    cases hcs : n.spell ++ tail with
    | nil => rfl
    | cons c cs =>
      rw [hcs, Token.beginsWithAny_cons] at hfront
      rw [Token.beginsWithAny_cons]
      obtain (hdigit | rfl) | rfl : (c.isDigit ∨ c = '.') ∨ c = '-' := by
        simpa [beginsNumeral] using hfront
      · exact hp.digit c hdigit
      · exact hp.eq_false (by simp)
      · exact hp.eq_false (by simp)
  | false =>
    have hi := hp.eq_false (c := 'i') (by simp)
    have hminus := hp.eq_false (c := '-') (by simp)
    have hn := hp.eq_false (c := 'N') (by simp)
    have hword := formatNumber_of_not_finite hfinite
    obtain h | h | h : formatNumber x = "inf".toList ∨ formatNumber x = "-inf".toList ∨
        formatNumber x = "NaN".toList := by
      simpa using hword
    · rwa [h]
    · rwa [h]
    · rwa [h]

/-- What is printed for a number begins with nothing of a class that is kept from the front. -/
theorem begins_numeric (hp : Token.IsFrontClass p)
    (h : Token.scanNumeric? (token.text ++ rest) = some (token, rest))
    (hprint : setting.token groups token = .ok text) (tail : List Char) :
    beginsWithAny p (text ++ tail) = false := by
  obtain ⟨source, rfl, -⟩ | ⟨numeral, unit, rfl, -⟩ := Token.scanNumeric?_cases h
  · obtain ⟨x, -, rfl⟩ := Setting.token_number_iff.1 hprint
    exact begins_formatNumber hp x tail
  · have hdimension : setting.dimension (groups.any id) (numeral ++ unit) = .ok text := hprint
    obtain ⟨rfl, -⟩ | ⟨x, other, rfl, -⟩ := Setting.dimension_cases hdimension
    · exact hp.digit '0' rfl
    · rw [withUnit, List.append_assoc]
      exact begins_formatNumber hp x _

/-- Where blanks were dropped, a closing token stands. -/
theorem begins_dropped {token' : Token} {inMath : Bool} (hp : Token.IsFrontClass p)
    (hdrops : token.dropsBlanks = false) (hends : Ends token' rest)
    (hdropped : separator token token' true inMath = []) :
    beginsWithAny p (token'.text ++ rest) = false := by
  obtain hbefore | himportant | hclosing := separator_eq_nil hdropped
  · have hdrops' : token.dropsBlanks := by
      simpa [Token.dropsBlanks, or_assoc] using hbefore
    rw [hdrops'] at hdrops
    contradiction
  · obtain ⟨word, htext⟩ := hends.text_of_important himportant
    rw [htext]
    exact hp.eq_false (by simp)
  · obtain ⟨c, htoken, -, hc⟩ := hends.closing hclosing
    have hmem : c ∈ [' ', '.', '-', 'i', 'N', ')', ',', '/', '!'] := by
      obtain rfl | rfl | rfl := hc <;> simp
    rw [htoken]
    exact hp.eq_false hmem

/-- What is printed behind a token begins with no character of a class if what stood there did
not. -/
theorem begins_printed (hp : Token.IsFrontClass p) (hdrops : token.dropsBlanks = false)
    (hreads : Reads rest lexemes) (hrest : beginsWithAny p rest = false)
    (hprint : setting.printAfter groups (some token) lexemes = .ok tail) :
    beginsWithAny p tail = false := by
  cases hreads with
  | nil =>
    obtain ⟨-, rfl⟩ := Setting.printAfter_nil_iff.1 hprint
    rfl
  | @cons gap rest' token' lexemes' hgap hends _ =>
    obtain ⟨text, tail', htoken, -, rfl⟩ := Setting.printAfter_cons_iff.1 hprint
    obtain hspace | hspace := Lexeme.space_cases (groups.headD false) (some token) ⟨gap, token'⟩
    · rw [hspace, List.nil_append]
      -- Only numbers are printed with other characters in front than they had.
      cases hnumeric : token'.isNumeric with
      | true => exact begins_numeric hp (hends.scanNumeric?_of_isNumeric hnumeric) htoken tail'
      | false =>
        rw [Setting.begins_token hp.lower hp.quote hends hnumeric htoken tail']
        cases gap with
        | nil => exact hrest
        | cons c gap => exact begins_dropped hp hdrops hends hspace
    · rw [hspace]
      exact hp.eq_false (by simp)

end Front

/-! ## Reading what is printed for a token -/

section Readable

variable {marks : Nat} {inWord : Bool} {name tail : List Char}

/-- The rest of a word in front of a readable text is readable. -/
theorem readable_word (hname : ∀ c ∈ name, isNameChar c) (h : Readable marks true tail) :
    Readable marks true (name ++ tail) := by
  induction name with
  | nil => exact h
  | cons c name ih =>
    obtain ⟨hc, hname⟩ := List.forall_mem_cons.1 hname
    exact .word hc (by simp) (ih hname)

/-- Characters of numbers may stand anywhere. -/
theorem readable_mantissa {cs : List Char} (hcs : ∀ c ∈ cs, Token.isMantissaChar c)
    (h : ∀ inWord, Readable marks inWord tail) (inWord : Bool) :
    Readable marks inWord (cs ++ tail) := by
  induction cs generalizing inWord with
  | nil => exact h inWord
  | cons c cs ih =>
    obtain ⟨hc, hcs⟩ := List.forall_mem_cons.1 hcs
    obtain ⟨hne, hname | hplain⟩ :=
      Token.isNumeralChar_cases (Token.isNumeralChar_of_isMantissaChar hc)
    · exact .word hname (fun _ => not_opening_cons hne) (ih hcs true)
    · exact .plain (.inr hplain) (ih hcs false)

/-- A number in front of a readable text is readable. -/
theorem readable_formatNumber (x : Binary64) (h : ∀ inWord, Readable marks inWord tail)
    (inWord : Bool) : Readable marks inWord (formatNumber x ++ tail) := by
  cases hfinite : x.isFinite with
  | true =>
    obtain ⟨n, hn⟩ := exists_numeral_formatNumber hfinite
    rw [hn]
    exact readable_mantissa Token.isMantissaChar_of_mem_spell h inWord
  | false =>
    have hwords : ∀ text ∈ ["inf".toList, "-inf".toList, "NaN".toList], text.all isNameChar := by
      decide
    have hword := List.all_eq_true.1 (hwords _ (formatNumber_of_not_finite hfinite))
    have hurl : beginsWithAny isUrlLetter (formatNumber x ++ tail) = false :=
      begins_formatNumber Token.isFrontClass_isUrlLetter x tail
    exact (readable_word hword (h true)).anywhere (not_opening_of_begins hurl rfl) inWord

/-- No known unit opens a url. -/
theorem Dimension.not_opening_of_isKnown {unit : String} (hknown : isKnown unit)
    (tail : List Char) : ¬urlOpening <+: unit.toList ++ tail := by
  have hall : ∀ unit ∈ lengths ++ angles ++ others,
      unit.toList ≠ [] ∧ unit.toList.head? ≠ some 'u' := by
    decide
  obtain ⟨hne, hhead⟩ := hall unit (mem_of_isKnown hknown)
  cases hcs : unit.toList with
  | nil => exact absurd hcs hne
  | cons c cs =>
    refine not_opening_cons ?_
    rintro rfl
    rw [hcs] at hhead
    exact hhead rfl

/-- A known unit may stand anywhere, and a percent sign in front of anything. -/
theorem readable_unit {unit : String} (hknown : Dimension.isKnown unit)
    (h : Readable marks false tail)
    (htail : unit ≠ "%" → beginsWithAny isUrlLetter tail = false) (inWord : Bool) :
    Readable marks inWord (unit.toList ++ tail) := by
  obtain hpercent | ⟨-, halpha⟩ := Dimension.isUnit_of_isKnown hknown
  · rw [hpercent]
    exact .plain (.inr (by decide)) h
  · have hpercent : unit ≠ "%" := by
      rintro rfl
      exact absurd (halpha '%' (by simp)) (by decide)
    have hword := h.anywhere (not_opening_of_begins (htail hpercent) rfl) true
    refine (readable_word (fun c hc => ?_) hword).anywhere
      (Dimension.not_opening_of_isKnown hknown tail) inWord
    simp [isNameChar, Char.isAlphanum, halpha c hc]

/-- Words in front of a text in which no address begins. -/
theorem not_opening_name (hname : ∀ c ∈ name, isNameChar c)
    (htail : beginsWithAny isUrlLetter tail = false)
    (hcall : tail.head? = some '(' → name ≠ urlName) : ¬urlOpening <+: name ++ tail := by
  have hparen : isNameChar '(' = false := by decide
  rintro ⟨rest, heq⟩
  -- The name ends inside of `url(` or goes on behind its letters.
  match name with
  | [] =>
    rw [List.nil_append] at heq
    subst heq
    exact absurd htail (show isUrlLetter 'u' ≠ false by decide)
  | [a] =>
    obtain ⟨-, rfl⟩ := List.cons.inj heq
    exact absurd htail (show isUrlLetter 'r' ≠ false by decide)
  | [a, b] =>
    obtain ⟨-, -, rfl⟩ := by simpa [urlOpening, urlName] using heq
    exact absurd htail (show isUrlLetter 'l' ≠ false by decide)
  | [a, b, c] =>
    obtain ⟨rfl, rfl, rfl, rfl⟩ := by simpa [urlOpening, urlName] using heq
    exact hcall rfl rfl
  | a :: b :: c :: d :: more =>
    obtain ⟨-, -, -, rfl, -⟩ := by simpa [urlOpening, urlName] using heq
    have hd := hname '(' (by simp)
    rw [hparen] at hd
    contradiction

end Readable

section Printed

variable {setting : Setting} {groups : List Bool} {token : Token} {marks : Nat}
  {rest text tail : List Char} {lexemes : List Lexeme}

theorem not_isUrlLetter_of_isAlpha (h : beginsWithAny Char.isAlpha rest = false) :
    beginsWithAny isUrlLetter rest = false :=
  Token.beginsWithAny_mono h fun _ hc => isAlpha_of_isUrlLetter hc

/-- What is printed for a number is readable in front of a readable text. -/
theorem readable_numeric (h : Token.scanNumeric? (token.text ++ rest) = some (token, rest))
    (hprint : setting.token groups token = .ok text)
    (hletters : beginsWithAny isUrlLetter rest = false → beginsWithAny isUrlLetter tail = false)
    (htail : Readable marks false tail) (inWord : Bool) :
    Readable marks inWord (text ++ tail) := by
  have hany : beginsWithAny Char.isAlpha rest = false → ∀ inWord, Readable marks inWord tail :=
    fun halpha => htail.anywhere
      (not_opening_of_begins (hletters (not_isUrlLetter_of_isAlpha halpha)) rfl)
  obtain ⟨source, rfl, hrest⟩ | ⟨numeral, unit, rfl, hsplit, -, hrest⟩ := Token.scanNumeric?_cases h
  · obtain ⟨x, -, rfl⟩ := Setting.token_number_iff.1 hprint
    exact readable_formatNumber x (hany (Token.isAlpha_of_isUnitChar hrest)) inWord
  · have hdimension : setting.dimension (groups.any id) (numeral ++ unit) = .ok text := hprint
    obtain ⟨rfl, hunit⟩ | ⟨x, other, rfl, hknown, hpercent⟩ := Setting.dimension_cases hdimension
    · have hzero : ∀ c ∈ ['0'], Token.isMantissaChar c := by simp [Token.isMantissaChar]
      rw [hsplit] at hunit
      exact readable_mantissa hzero (hany (hrest.resolve_left hunit)) inWord
    · rw [hsplit] at hpercent
      rw [withUnit, List.append_assoc]
      refine readable_formatNumber x (readable_unit hknown htail fun hne => ?_) inWord
      have hunit : unit ≠ ['%'] := fun h => hne (hpercent h)
      exact hletters (not_isUrlLetter_of_isAlpha (hrest.resolve_left hunit))

/-- A function in front of a readable text is readable. -/
theorem readable_function {name : List Char} (hname : IsName name) (hurl : name ≠ urlName)
    (hplain : Token.hasPlainUrl ⟨.function, name ++ ['(']⟩) (htail : Readable marks false tail) :
    Readable marks false (lowercase (name ++ ['(']) ++ tail) := by
  have happend : lowercase (name ++ ['(']) = lowercase name ++ ['('] := List.map_append
  -- The name was not `url` in other letters, so it is not `url` in lower case.
  have hlower : lowercase name ≠ urlName := by
    intro heq
    have hsame : name ++ ['('] = urlName ++ ['('] := by
      simpa [Token.hasPlainUrl, happend, heq] using hplain
    exact hurl (List.append_cancel_right hsame)
  have hchars := (isName_lowercase hname).isNameChar
  rw [happend, List.append_assoc]
  exact (readable_word hchars (.plain (.inr (by decide)) htail)).anywhere
    (not_opening_name hchars rfl fun _ => hlower) false

/-- The string that stands behind the function `url(` is printed there. -/
theorem begins_behind_url (hrest : rest = [] ∨ beginsWithAny isQuote rest)
    (hreads : Reads rest lexemes)
    (hmore : setting.printAfter (groupsAfter groups ⟨.function, urlName ++ ['(']⟩)
      (some ⟨.function, urlName ++ ['(']⟩) lexemes = .ok tail) :
    beginsWithAny isQuote tail := by
  cases hreads with
  | nil => simp [Setting.printAfter, groupsAfter] at hmore
  | @cons gap rest' token' lexemes' hgap hends' _ =>
    have hquote := hrest.resolve_left (by simp [hends'.text_ne_nil])
    obtain ⟨text', tail', htoken', -, rfl⟩ := Setting.printAfter_cons_iff.1 hmore
    have hspace : ∀ inMath, Lexeme.space inMath (some ⟨.function, urlName ++ ['(']⟩)
        ⟨gap, token'⟩ = [] := by
      simp [Lexeme.space, separator, Token.opens]
    rw [hspace, List.nil_append]
    obtain rfl := Token.gap_eq_nil (by decide) hgap hquote
    rw [List.nil_append] at hquote
    have hnumeric : token'.isNumeric = false := by
      obtain ⟨_, rfl, -⟩ | ⟨_, rfl, -⟩ := hends'.string_of_quote hquote <;> rfl
    have hlower : ∀ c, isQuote c.toLower = isQuote c := fun c => by
      rw [isQuote, isQuote, toLower_beq (by decide), toLower_beq (by decide)]
    rwa [Setting.begins_token hlower rfl hends' hnumeric htoken' tail']

/-- A word in front of which no call is made by what is printed behind it. -/
theorem readable_ident {name : List Char} (hname : IsName name)
    (hcall : rest.head? = some '(' → name.take 2 = ['-', '-'])
    (hparen : beginsWithAny (· == '(') rest = false → beginsWithAny (· == '(') tail = false)
    (hletters : beginsWithAny isUrlLetter tail = false) (htail : Readable marks true tail) :
    Readable marks false (name ++ tail) := by
  refine (readable_word hname.isNameChar htail).anywhere
    (not_opening_name hname.isNameChar hletters fun hhead hurl => ?_) false
  -- Only a name with two dashes in front is followed by a parenthesis.
  subst hurl
  have hrest : beginsWithAny (· == '(') rest = false := by
    by_contra hrest
    exact absurd (hcall (Token.head?_eq_some_iff.2 (by simpa using hrest))) (by decide)
  rw [Token.head?_eq_some_iff, hparen hrest] at hhead
  contradiction

/-- A hash in front of a readable text is readable. -/
theorem readable_hash {name : List Char} (hne : name ≠ []) (hname : ∀ c ∈ name, isNameChar c)
    (htail : Readable marks true tail) : Readable marks false ('#' :: name ++ tail) := by
  refine .hash ?_ (readable_word hname htail)
  cases name with
  | nil => exact absurd rfl hne
  | cons c name => exact hname c (by simp)

/-- A dash may stand where a word goes on, and another mark anywhere. -/
theorem readable_punctuation {c : Char} {kind : Token.Kind} (hkind : punctuation? c = some kind)
    (hdash : Token.spanName? (c :: rest) = none)
    (hword : c = '-' → beginsWithAny Char.isAlpha rest = false → Readable marks true tail)
    (htail : Readable marks false tail) : Readable marks false (c :: tail) := by
  by_cases hc : c = '-'
  · subst hc
    have halpha := Token.isAlpha_of_spanName?_dash hdash
    exact .word rfl (fun _ => not_opening_cons (by decide)) (hword rfl halpha)
  · exact .plain (.inr ⟨hc, by rw [hkind]; rfl⟩) htail

/-- What is printed for a token can be read in front of what is printed behind it. -/
theorem readable_token (hends : Ends token rest) (hplain : token.hasPlainUrl)
    (hprint : setting.token groups token = .ok text) (hreads : Reads rest lexemes)
    (hmore : setting.printAfter (groupsAfter groups token) (some token) lexemes = .ok tail)
    (htail : Readable marks false tail) :
    Readable (marks + token.marks) false (text ++ tail) := by
  have hbegins : ∀ {p : Char → Bool}, Token.IsFrontClass p → token.dropsBlanks = false →
      beginsWithAny p rest = false → beginsWithAny p tail = false := fun hp hdrops hrest =>
    begins_printed hp hdrops hreads hrest hmore
  -- Where no letter of `url` follows, a word may stand in front.
  have hword : token.dropsBlanks = false → beginsWithAny Char.isAlpha rest = false →
      Readable marks true tail ∧ beginsWithAny isUrlLetter tail = false := by
    intro hdrops halpha
    have hletters :=
      hbegins Token.isFrontClass_isUrlLetter hdrops (not_isUrlLetter_of_isAlpha halpha)
    exact ⟨htail.anywhere (not_opening_of_begins hletters rfl) true, hletters⟩
  cases hends with
  | numeric h =>
    have hdrops : token.dropsBlanks = false := by
      obtain hkind | hkind := Token.scanNumeric?_kind h <;>
        simp [Token.dropsBlanks, Token.opens, hkind]
    rw [Token.marks_of_scanNumeric? h]
    exact readable_numeric h hprint (hbegins Token.isFrontClass_isUrlLetter hdrops) htail false
  | ident hname hrest hcall =>
    obtain rfl := Except.ok.inj hprint
    obtain ⟨hmore, hletters⟩ := hword rfl (Token.isAlpha_of_isNameChar hrest)
    exact readable_ident hname hcall (hbegins Token.isFrontClass_paren rfl) hletters hmore
  | function hname hurl _ =>
    obtain rfl := Except.ok.inj hprint
    exact readable_function hname hurl hplain htail
  | urlFunction hrest =>
    obtain rfl := Except.ok.inj hprint
    exact .call (begins_behind_url hrest hreads hmore) htail
  | @url address _ haddress =>
    obtain rfl := Except.ok.inj hprint
    simp only [List.append_assoc, List.cons_append, List.nil_append]
    exact .address haddress htail
  | @doubleQuoted inner _ hinner =>
    obtain rfl := Except.ok.inj hprint
    simp only [List.append_assoc, List.cons_append, List.nil_append]
    exact .string hinner htail
  | @singleQuoted inner _ hinner =>
    obtain rfl := Except.ok.inj hprint
    rw [requote_quoted]
    simp only [List.append_assoc, List.cons_append, List.nil_append]
    exact .string (isInner_requoteInner hinner) htail
  | hash hne hname hrest =>
    obtain rfl := Except.ok.inj hprint
    exact readable_hash hne hname (hword rfl (Token.isAlpha_of_isNameChar hrest)).1
  | important =>
    obtain rfl := Except.ok.inj hprint
    exact .important htail
  | @punctuation c kind _ hkind _ hdash =>
    obtain ⟨rfl, -⟩ := Setting.token_punctuation hkind hprint
    rw [Token.marks_punctuation hkind]
    refine readable_punctuation hkind hdash ?_ htail
    rintro rfl halpha
    obtain rfl := Option.some.inj hkind
    exact (hword rfl halpha).1

/-- What is printed for lexemes can be read, and it has the marks of the lexemes. -/
theorem readable_printed {cs : List Char} (hreads : Reads cs lexemes)
    (hplain : ∀ lexeme ∈ lexemes, lexeme.token.hasPlainUrl) {before : Option Token}
    (hprint : setting.printAfter groups before lexemes = .ok text) :
    Readable (Token.marksOf lexemes) false text := by
  induction hreads generalizing groups before text with
  | nil =>
    obtain ⟨-, rfl⟩ := Setting.printAfter_nil_iff.1 hprint
    exact .nil
  | @cons gap rest token lexemes hgap hends hreads ih =>
    obtain ⟨printed, tail, htoken, hmore, rfl⟩ := Setting.printAfter_cons_iff.1 hprint
    rw [List.forall_mem_cons] at hplain
    have htail := readable_token hends hplain.1 htoken hreads hmore (ih hplain.2 hmore)
    have hmarks : Token.marksOf (⟨gap, token⟩ :: lexemes) =
        Token.marksOf lexemes + token.marks := by
      simp [Token.marksOf, Nat.add_comm]
    rw [hmarks]
    -- A blank in front of the token leaves the text readable.
    obtain hspace | hspace := Lexeme.space_cases (groups.headD false) before ⟨gap, token⟩
    · rwa [hspace]
    · rw [hspace]
      exact .plain (.inl rfl) htail

end Printed

/-! ## Normalized values -/

/-- Whether a text is read as tokens without an `!important`. -/
def isUnmarked (text : String) : Bool :=
  (Token.lex text.toList).toOption.any fun lexemes =>
    lexemes.all fun lexeme => lexeme.token.kind != .important

/-- The lexemes that an authored text is read as; a number has none. -/
def Scalar.lexemes (property : String) : Scalar → List Lexeme
  | .number _ => []
  | .text s => (Token.lex (sourceOfText property s)).toOption.getD []

section Normalized

variable {setting : Setting} {scalar : Scalar} {text : String} {lexemes : List Lexeme}

/-- There are no marks if no token is `!important`. -/
theorem Token.marksOf_eq_zero_iff :
    marksOf lexemes = 0 ↔ ∀ lexeme ∈ lexemes, lexeme.token.kind ≠ .important := by
  simp [marksOf, marks, List.sum_eq_zero_iff]

/-- A text is unmarked if it is read without `!important`. -/
theorem isUnmarked_of_reads (h : Reads text.toList lexemes) :
    isUnmarked text ↔ Token.marksOf lexemes = 0 := by
  rw [isUnmarked, Token.lex_of_reads h, Token.marksOf_eq_zero_iff]
  simp [Except.toOption]

/-- A printed text is marked if the lexemes that it is printed from are. -/
theorem isUnmarked_of_print {source printed : List Char} (hreads : Reads source lexemes)
    (hplain : ∀ lexeme ∈ lexemes, lexeme.token.hasPlainUrl)
    (hprint : setting.print lexemes = .ok printed) :
    isUnmarked (String.ofList printed) ↔ Token.marksOf lexemes = 0 := by
  obtain ⟨others, hothers, hmarks⟩ :=
    Token.exists_reads_of_readable (readable_printed hreads hplain hprint)
  rw [← String.toList_ofList (l := printed)] at hothers
  rw [isUnmarked_of_reads hothers, hmarks]

theorem kind_tokenOfNumber (property : String) (x : Binary64) :
    (tokenOfNumber property x).kind = .doubleQuoted ∨
      (tokenOfNumber property x).kind = .dimension := by
  unfold tokenOfNumber
  split
  · exact .inl rfl
  · split <;> exact .inr rfl

/-- The normalized text of what was authored without a function `url(` in other letters can be read,
and is marked if what was authored is. -/
theorem isUnmarked_iff_of_normalizeScalar (h : setting.normalizeScalar scalar = .ok text)
    (hplain : ∀ lexeme ∈ scalar.lexemes setting.property, lexeme.token.hasPlainUrl) :
    isUnmarked text ↔
      ∀ lexeme ∈ scalar.lexemes setting.property, lexeme.token.kind ≠ .important := by
  rw [← Token.marksOf_eq_zero_iff]
  obtain ⟨source, hsource, hnormal⟩ | ⟨x, rfl, -, rfl⟩ := Setting.normalizeScalar_cases h
  · obtain ⟨lexemes, printed, -, hreads, hprint, -, rfl⟩ :=
      Setting.normalizeSource_eq_ok_iff.1 hnormal
    cases scalar with
    | text text =>
      obtain rfl := Option.some.inj hsource
      have hlexemes : Scalar.lexemes setting.property (.text text) = lexemes := by
        rw [Scalar.lexemes, Token.lex_of_reads hreads]
        rfl
      rw [hlexemes] at hplain ⊢
      exact isUnmarked_of_print hreads hplain hprint
    | number x =>
      have hx := Setting.isFinite_of_normalizeScalar h
      obtain rfl := Setting.reads_source? hx hsource hreads
      rw [isUnmarked_of_print hreads ?_ hprint]
      · obtain hkind | hkind := kind_tokenOfNumber setting.property x <;>
          simp [Token.marksOf, Token.marks, hkind, Scalar.lexemes]
      · obtain hkind | hkind := kind_tokenOfNumber setting.property x <;>
          simp [Token.hasPlainUrl, hkind]
  · obtain ⟨n, hn⟩ := exists_numeral_formatNumber (Setting.isFinite_of_normalizeScalar h)
    have hreads := reads_spell n
    rw [← hn, ← String.toList_ofList (l := formatNumber x)] at hreads
    rw [isUnmarked_of_reads hreads]
    simp [Token.marksOf, Token.marks, Scalar.lexemes]

end Normalized

end AtomicCss
