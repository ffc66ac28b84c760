import AtomicCss.Proofs.Text.Lowercase
import AtomicCss.Proofs.Value.Printed
/-!
# Printed text is read as the tokens that were printed

What is printed for lexemes is a list of lexemes again (`Setting.printedAfter`). Their text is read as
them (`reads_printed`) as soon as no token takes a character of the token that is printed directly
behind it (`Lexeme.standApart`): blanks are dropped only beside parentheses, commas, slashes and
exclamation marks, which end every token.
-/

namespace AtomicCss

open Token (Ends Reads IsName IsInner IsUnit beginsWithAny isNameChar isNameStart isUnitChar isQuote
  startsUnsigned startsNumber spanName? punctuation? urlName)

/-! ## What is printed, as lexemes -/

/-- The kind of what is printed for a token: strings are in double quotes, and a zero may have lost
its unit. -/
def Token.Kind.printed (kind : Token.Kind) (text : List Char) : Token.Kind :=
  match kind with
  | .singleQuoted => .doubleQuoted
  | .dimension => if text = ['0'] then .number else .dimension
  | kind => kind

/-- What is printed for lexemes behind the token `before`, inside the given groups. -/
def Setting.printedAfter (setting : Setting) :
    List Bool → Option Token → List Lexeme → Except Fault (List Lexeme)
  | groups, _, [] => if groups.isEmpty then .ok [] else .error .unclosedFunction
  | groups, before, lexeme :: rest => do
    let text ← setting.token groups lexeme.token
    let tail ← setting.printedAfter (groupsAfter groups lexeme.token) (some lexeme.token) rest
    return ⟨lexeme.space (groups.headD false) before, ⟨lexeme.token.kind.printed text, text⟩⟩ :: tail

section PrintedAfter

variable {setting : Setting} {groups : List Bool} {before : Option Token} {lexeme : Lexeme}
  {lexemes rest printed : List Lexeme} {text : List Char}

theorem Setting.printedAfter_nil_iff :
    setting.printedAfter groups before [] = .ok printed ↔ groups = [] ∧ printed = [] := by
  cases groups <;> simp [printedAfter, eq_comm]

/-- What is printed is the lexeme in front and what is printed for those behind it. -/
theorem Setting.printedAfter_cons_iff :
    setting.printedAfter groups before (lexeme :: rest) = .ok printed ↔
      ∃ text tail, setting.token groups lexeme.token = .ok text ∧
        setting.printedAfter (groupsAfter groups lexeme.token) (some lexeme.token) rest = .ok tail ∧
        printed = ⟨lexeme.space (groups.headD false) before,
          ⟨lexeme.token.kind.printed text, text⟩⟩ :: tail := by
  rw [printedAfter]
  cases htoken : setting.token groups lexeme.token with
  | error => simp [bind, Except.bind]
  | ok text =>
    cases htail : setting.printedAfter (groupsAfter groups lexeme.token) (some lexeme.token) rest with
    | error => simp [bind, Except.bind]
    | ok tail => simp [bind, Except.bind, pure, Except.pure, eq_comm]

/-- The printed text is that of the printed lexemes. -/
theorem Setting.printAfter_eq_ok_iff :
    setting.printAfter groups before lexemes = .ok text ↔
      ∃ printed, setting.printedAfter groups before lexemes = .ok printed ∧
        text = Lexeme.spell printed := by
  induction lexemes generalizing groups before text with
  | nil =>
    rw [printAfter, printedAfter]
    split <;> simp [Lexeme.spell, eq_comm]
  | cons lexeme rest ih =>
    rw [printAfter_cons_iff]
    simp only [printedAfter_cons_iff, ih]
    constructor
    · rintro ⟨token, tail, htoken, ⟨printed, hprinted, rfl⟩, rfl⟩
      exact ⟨_, ⟨token, printed, htoken, hprinted, rfl⟩, by rw [Lexeme.spell_cons]⟩
    · rintro ⟨_, ⟨token, printed, htoken, hprinted, rfl⟩, rfl⟩
      exact ⟨token, _, htoken, ⟨printed, hprinted, rfl⟩, by rw [Lexeme.spell_cons]⟩

end PrintedAfter

/-! ## Tokens that end where they are printed -/

/-- The form of a printed token. -/
inductive Token.IsPrinted : Token → Prop
  | number (n : Decimal.Numeral) : IsPrinted ⟨.number, n.spell⟩
  | dimension (n : Decimal.Numeral) {unit : List Char} (hunit : IsUnit unit)
    (hlone : unit ≠ ['e'] ∧ unit ≠ ['E']) : IsPrinted ⟨.dimension, n.spell ++ unit⟩
  | ident {name : List Char} (hname : IsName name) : IsPrinted ⟨.ident, name⟩
  | function {name : List Char} (hname : IsName name) (hdashes : name.take 2 ≠ ['-', '-']) :
    IsPrinted ⟨.function, name ++ ['(']⟩
  | url {address : List Char} (haddress : ∀ c ∈ address, !endsAddress c) :
    IsPrinted ⟨.url, urlName ++ '(' :: address ++ [')']⟩
  | string {inner : List Char} (hinner : IsInner '"' inner) :
    IsPrinted ⟨.doubleQuoted, '"' :: inner ++ ['"']⟩
  | hash {name : List Char} (hne : name ≠ []) (hname : ∀ c ∈ name, isNameChar c) :
    IsPrinted ⟨.hash, '#' :: name⟩
  | important : IsPrinted ⟨.important, '!' :: importantWord⟩
  | punctuation {c : Char} {kind : Kind} (hkind : punctuation? c = some kind) :
    IsPrinted ⟨kind, [c]⟩

/-- That a printed token ends in front of a text. -/
def Token.EndsAt (token : Token) (rest : List Char) : Prop :=
  match token.kind with
  | .number => startsUnsigned rest = false ∧ beginsWithAny isUnitChar rest = false
  | .dimension => token.text.getLast? = some '%' ∨ beginsWithAny Char.isAlpha rest = false
  | .ident => beginsWithAny isNameChar rest = false ∧
      (rest.head? = some '(' → token.text.take 2 = ['-', '-'])
  | .hash => beginsWithAny isNameChar rest = false
  | .function => token.text = urlName ++ ['('] → beginsWithAny isQuote rest
  | .plus => startsUnsigned rest = false
  | .minus => startsUnsigned rest = false ∧ spanName? ('-' :: rest) = none
  | .delim => token.text = ['.'] → beginsWithAny Char.isDigit rest = false
  | _ => True

/-- A single sign ends where nothing behind it could be taken for a part of it. -/
theorem Token.ends_of_punctuation {c : Char} {kind : Kind} {rest : List Char}
    (hkind : punctuation? c = some kind) (hends : EndsAt ⟨kind, [c]⟩ rest) :
    Ends ⟨kind, [c]⟩ rest := by
  cases hmantissa : isMantissaChar c with
  | false =>
    refine .punctuation hkind (startsNumber_cons hmantissa) (spanName?_cons ?_ ?_)
    · rintro rfl
      exact absurd hmantissa (by decide)
    · exact (punctuation_apart hkind).1
  | true =>
    obtain ⟨rfl, rfl⟩ | ⟨rfl, rfl⟩ | ⟨rfl, rfl⟩ := mantissa_of_punctuation? hkind hmantissa
    · exact .punctuation hkind hends (spanName?_cons (by decide) (by decide))
    · exact .punctuation hkind hends.1 hends.2
    · refine .punctuation hkind ?_ (spanName?_cons (by decide) (by decide))
      exact startsUnsigned_point.trans (hends rfl)

/-- What is printed for a token is read as one, where nothing behind it could be taken for a part of
it. -/
theorem Token.IsPrinted.ends {token : Token} {rest : List Char} (h : token.IsPrinted)
    (hends : token.EndsAt rest) : Ends token rest := by
  cases h with
  | number n =>
    obtain ⟨hnumber, hunit⟩ := hends
    exact .numeric (scanNumeric?_spell hnumber hunit)
  | @dimension n unit hunit hlone =>
    refine .numeric ?_
    rw [List.append_assoc]
    refine scanNumeric?_spell_unit hunit hlone (hends.imp_left fun hlast => ?_)
    obtain rfl | ⟨hne, halpha⟩ := hunit
    · rfl
    · have hpercent : '%' ∈ unit := by
        rw [List.getLast?_append, List.getLast?_eq_some_getLast hne, Option.some_or] at hlast
        exact Option.some.inj hlast ▸ List.getLast_mem hne
      exact absurd (halpha _ hpercent) (by decide)
  | ident hname => exact .ident hname hends.1 hends.2
  | @function name hname hdashes =>
    by_cases hurl : name = urlName
    · subst hurl
      exact .urlFunction (.inr (hends rfl))
    · exact .function hname hurl hdashes
  | url haddress => exact .url haddress
  | string hinner => exact .doubleQuoted hinner
  | hash hne hname => exact .hash hne hname hends
  | important => exact .important (fun _ h => absurd h List.not_mem_nil)
  | punctuation hkind => exact ends_of_punctuation hkind hends

/-! ## From a token to what is printed for it -/

/-- Whether a token is a number or a dimension. -/
def Token.isNumeric (token : Token) : Bool :=
  token.kind == .number || token.kind == .dimension

theorem Token.isNumeric_of_scanNumeric? {cs rest : List Char} {token : Token}
    (h : scanNumeric? cs = some (token, rest)) : token.isNumeric := by
  obtain hkind | hkind := scanNumeric?_kind h <;> simp [isNumeric, hkind]

/-- Only the scanner of numbers gives numbers and dimensions. -/
theorem Token.Ends.scanNumeric?_of_isNumeric {token : Token} {rest : List Char} (h : Ends token rest)
    (hnumeric : token.isNumeric) : Token.scanNumeric? (token.text ++ rest) = some (token, rest) := by
  cases h with
  | numeric h => exact h
  | @punctuation c kind _ hchar _ _ =>
    have hmark := Token.isPunctuation_kind hchar
    cases kind <;> contradiction
  | _ => contradiction

section Printed

variable {setting : Setting} {groups : List Bool} {token : Token} {rest text : List Char}

/-- A single sign is printed as it is. -/
theorem Setting.token_punctuation {c : Char} {kind : Token.Kind} (hkind : punctuation? c = some kind)
    (hprint : setting.token groups ⟨kind, [c]⟩ = .ok text) :
    text = [c] ∧ kind.printed text = kind := by
  have hpunctuation := Token.isPunctuation_kind hkind
  cases kind with
  | rightParen =>
    cases groups with
    | nil => simp [Setting.token] at hprint
    | cons => exact ⟨(Except.ok.inj hprint).symm, rfl⟩
  | leftParen | comma | slash | plus | minus | star | colon | delim =>
    exact ⟨(Except.ok.inj hprint).symm, rfl⟩
  | _ => exact absurd hpunctuation Bool.false_ne_true

theorem take_lowercase {name : List Char} (h : (lowercase name).take 2 = ['-', '-']) :
    name.take 2 = ['-', '-'] := by
  match name with
  | [] | [_] => simp [lowercase] at h
  | c :: d :: tail =>
    simpa [lowercase, toLower_eq_iff (show '-'.isAlpha = false by decide)] using h

/-- Tokens other than numbers are printed in a form that can be read again. -/
theorem Token.isPrinted_of_ends (hends : Ends token rest) (hnumeric : token.isNumeric = false)
    (hprint : setting.token groups token = .ok text) :
    IsPrinted ⟨token.kind.printed text, text⟩ := by
  cases hends with
  | numeric h =>
    rw [isNumeric_of_scanNumeric? h] at hnumeric
    contradiction
  | ident hname =>
    obtain rfl := Except.ok.inj hprint
    exact .ident hname
  | @function name _ hname hurl hdashes =>
    obtain rfl := Except.ok.inj hprint
    have happend : lowercase (name ++ ['(']) = lowercase name ++ ['('] := List.map_append
    change IsPrinted ⟨.function, lowercase (name ++ ['('])⟩
    rw [happend]
    exact .function (isName_lowercase hname) fun h => hdashes (take_lowercase h)
  | urlFunction =>
    obtain rfl := Except.ok.inj hprint
    exact .function isName_urlName (by decide)
  | url haddress =>
    obtain rfl := Except.ok.inj hprint
    exact .url haddress
  | doubleQuoted hinner =>
    obtain rfl := Except.ok.inj hprint
    exact .string hinner
  | @singleQuoted inner _ hinner =>
    obtain rfl := Except.ok.inj hprint
    rw [requote_quoted]
    exact .string (isInner_requoteInner hinner)
  | hash hne hname =>
    obtain rfl := Except.ok.inj hprint
    exact .hash hne hname
  | important =>
    obtain rfl := Except.ok.inj hprint
    exact .important
  | punctuation hkind =>
    obtain ⟨rfl, hprinted⟩ := Setting.token_punctuation hkind hprint
    rw [hprinted]
    exact .punctuation hkind

/-- What is printed for a token that is no number begins like the token, up to the case of letters
and the kind of quotes. -/
theorem Setting.begins_token {p : Char → Bool} (hlower : ∀ c, p c.toLower = p c)
    (hquote : p '"' = p '\'') (hends : Ends token rest) (hnumeric : token.isNumeric = false)
    (hprint : setting.token groups token = .ok text) (tail : List Char) :
    beginsWithAny p (text ++ tail) = beginsWithAny p (token.text ++ rest) := by
  have hne := hends.text_ne_nil
  have hsame : ∀ cs : List Char, cs ≠ [] →
      beginsWithAny p (cs ++ tail) = beginsWithAny p (cs ++ rest) := by
    intro cs hcs
    cases cs with
    | nil => exact absurd rfl hcs
    | cons c cs => rfl
  -- All other tokens than these are copied.
  cases hends with
  | numeric h =>
    rw [Token.isNumeric_of_scanNumeric? h] at hnumeric
    contradiction
  | @function name _ hname hurl hdashes =>
    obtain rfl := Except.ok.inj hprint
    cases name with
    | nil => simp [lowercase]
    | cons c cs => simp [lowercase, hlower]
  | singleQuoted hinner =>
    obtain rfl := Except.ok.inj hprint
    exact hquote
  | important hblanks =>
    obtain rfl := Except.ok.inj hprint
    rfl
  | punctuation hkind =>
    obtain ⟨rfl, -⟩ := Setting.token_punctuation hkind hprint
    rfl
  | urlFunction =>
    obtain rfl := Except.ok.inj hprint
    rfl
  | _ =>
    obtain rfl := Except.ok.inj hprint
    exact hsame _ hne

end Printed

/-! ## What may stand directly behind a printed token -/

/-- Whether a printed token takes a character that is printed directly behind it. -/
def Token.takes (token : Token) (c : Char) : Bool :=
  match token.kind with
  | .ident | .hash => isNameChar c
  | .number => c.isDigit || c == '.' || c == '%'
  | .plus | .minus => c.isDigit || c == '.'
  | .delim => token.text == ['.'] && c.isDigit
  | _ => false

/-- Whether a printed lexeme stands apart from the token in front of it: it is not taken by that
token, and it is a string if that token is `url(`. -/
def Lexeme.standsApart (before : Token) (lexeme : Lexeme) : Bool :=
  !(lexeme.gap.isEmpty && beginsWithAny before.takes lexeme.token.text) &&
    (before.text != urlName ++ ['('] || lexeme.token.kind == .doubleQuoted)

/-- Whether all printed lexemes stand apart. -/
def Lexeme.standApart : List Lexeme → Bool
  | before :: lexeme :: rest => lexeme.standsApart before.token && standApart (lexeme :: rest)
  | _ => true

theorem Lexeme.standApart_cons_iff {before : Lexeme} {rest : List Lexeme} :
    standApart (before :: rest) ↔
      (∀ lexeme ∈ rest.head?, lexeme.standsApart before.token) ∧ standApart rest := by
  cases rest with
  | nil => simp [standApart]
  | cons lexeme rest => simp [standApart]

/-- The characters that may continue a token. -/
def continuesToken (c : Char) : Bool :=
  isNameChar c || c == '(' || c == '.' || c == '%'

/-- Where no token is continued every token ends, but for `url(`. -/
theorem Token.endsAt_of_boundary {token : Token} {rest : List Char}
    (hurl : token.kind = .function → token.text = urlName ++ ['('] → beginsWithAny isQuote rest)
    (h : beginsWithAny continuesToken rest = false) : token.EndsAt rest := by
  have hname : beginsWithAny isNameChar rest = false :=
    beginsWithAny_mono h fun c hc => by simp [continuesToken, hc]
  have halpha := isAlpha_of_isNameChar hname
  have hunit : beginsWithAny isUnitChar rest = false := by
    refine beginsWithAny_mono h fun c hc => ?_
    obtain hc | rfl : c.isAlpha ∨ c = '%' := by simpa [isUnitChar] using hc
    · simp [continuesToken, isNameChar, Char.isAlphanum, hc]
    · rfl
  have hnumber : startsUnsigned rest = false := by
    refine startsUnsigned_eq_false (beginsWithAny_mono h fun c hc => ?_)
    obtain hc | rfl : c.isDigit ∨ c = '.' := by simpa using hc
    · simp [continuesToken, isNameChar, Char.isAlphanum, hc]
    · rfl
  have hdigit : beginsWithAny Char.isDigit rest = false :=
    beginsWithAny_mono hname fun c hc => by simp [isNameChar, Char.isAlphanum, hc]
  have hparen : rest.head? ≠ some '(' := head?_ne_of_apart h rfl
  -- Each kind asks for some of these facts.
  unfold EndsAt
  split
  · exact ⟨hnumber, hunit⟩
  · exact .inr halpha
  · exact ⟨hname, fun h => absurd h hparen⟩
  · exact hname
  · exact hurl ‹_›
  · exact hnumber
  · exact ⟨hnumber, spanName?_dash_of_apart hname⟩
  · exact fun _ => hdigit
  · trivial

/-- Only a name with two dashes in front stands behind a dash that is a token of its own. -/
theorem Token.IsName.take_of_dash {name rest : List Char} (h : IsName name)
    (hdash : spanName? ('-' :: (name ++ rest)) = none) : name.take 2 = ['-', '-'] := by
  obtain ⟨hstart, htail⟩ := spanName?_dash_eq_none_iff.1 hdash
  cases h with
  | @plain c tail hc _ =>
    rw [List.cons_append, beginsWithAny_cons, hc] at hstart
    contradiction
  | @dash c tail hc _ =>
    have hnot : isNameStart c = false := htail _ rfl
    rw [hc] at hnot
    contradiction
  | dashes => rfl

/-- What stands behind a minus makes no name of it. -/
theorem Token.Ends.spanName?_of_minus {rest : List Char} (h : Ends ⟨.minus, ['-']⟩ rest) :
    spanName? ('-' :: rest) = none := by
  cases h with
  | numeric h => obtain h | h := scanNumeric?_kind h <;> contradiction
  | punctuation _ _ hname => exact hname

/-- The numbers and the dimensions that are printed begin with a digit, a point or a sign. -/
def beginsNumeral (c : Char) : Bool :=
  c.isDigit || c == '.' || c == '-'

theorem begins_spell (n : Decimal.Numeral) (rest : List Char) :
    beginsWithAny beginsNumeral (n.spell ++ rest) := by
  have hfront := n.beginsWithAny_unsigned rest
  cases hneg : n.negative with
  | true => simp [Decimal.Numeral.spell, hneg, beginsNumeral]
  | false =>
    simp only [Decimal.Numeral.spell, hneg, Bool.false_eq_true, if_false, List.nil_append]
    cases hcs : n.whole ++ Decimal.Numeral.point n.fraction ++ rest with
    | nil => simp [hcs] at hfront
    | cons c cs =>
      rw [hcs, Token.beginsWithAny_cons] at hfront
      rw [Token.beginsWithAny_cons, beginsNumeral, hfront, Bool.true_or]

/-- A dash in front of a numeral begins no name. -/
theorem spanName?_dash_spell (n : Decimal.Numeral) (rest : List Char) :
    spanName? ('-' :: (n.spell ++ rest)) = none := by
  have happart : ∀ c, isNameStart c → (c.isDigit || c == '.') = false := by
    intro c hc
    have hmantissa := Token.isMantissaChar_of_isNameStart hc
    simp only [Token.isMantissaChar, Bool.or_eq_false_iff] at hmantissa
    simp [hmantissa.1.1]
  have hfront := n.beginsWithAny_unsigned rest
  have hstart := Token.beginsWithAny_eq_false hfront happart
  refine Token.spanName?_dash_eq_none_iff.2 ?_
  cases hneg : n.negative with
  | true =>
    simp only [Decimal.Numeral.spell, hneg, if_true, List.cons_append, List.nil_append]
    refine ⟨rfl, fun tail htail => ?_⟩
    obtain rfl := (List.cons.inj htail).2
    exact hstart
  | false =>
    simp only [Decimal.Numeral.spell, hneg, Bool.false_eq_true, if_false, List.nil_append]
    refine ⟨hstart, fun tail htail => ?_⟩
    rw [htail] at hfront
    exact absurd hfront Bool.false_ne_true

theorem toLower_beq {c d : Char} (hd : d.isAlpha = false) : (c.toLower == d) = (c == d) := by
  rw [Bool.eq_iff_iff, beq_iff_eq, beq_iff_eq, toLower_eq_iff hd]

theorem isUnitChar_toLower (c : Char) : isUnitChar c.toLower = isUnitChar c := by
  rw [isUnitChar, isUnitChar, Char.isAlpha_toLower_eq_isAlpha, toLower_beq (by decide)]

section Adjacent

variable {setting : Setting} {groups groups' : List Bool} {token token' : Token}
  {rest text text' tail : List Char}

/-- A dash in front of a token begins no name if it did not before the token was printed. -/
theorem spanName?_dash_printed (hends : Ends token rest) (hnumeric : token.isNumeric = false)
    (hprint : setting.token groups token = .ok text)
    (hprinted : Ends ⟨token.kind.printed text, text⟩ tail)
    (hdash : spanName? ('-' :: (token.text ++ rest)) = none) :
    spanName? ('-' :: (text ++ tail)) = none := by
  -- The first character begins a name just as before; a second dash has to be looked at.
  have hstart := (Token.spanName?_dash_eq_none_iff.1 hdash).1
  rw [← Setting.begins_token isNameStart_toLower rfl hends hnumeric hprint tail] at hstart
  refine Token.spanName?_dash_eq_none_iff.2 ⟨hstart, fun more hmore => ?_⟩
  cases hends with
  | numeric h =>
    rw [Token.isNumeric_of_scanNumeric? h] at hnumeric
    contradiction
  | @ident name _ hname =>
    -- Two dashes in front of a name may stay behind a dash.
    obtain rfl := Except.ok.inj hprint
    have hname : name = ['-', '-'] ++ name.drop 2 := by
      rw [← hname.take_of_dash hdash, List.take_append_drop]
    rw [hname] at hmore
    obtain rfl := (List.cons.inj hmore).2
    rfl
  | @function name _ hname _ hdashes =>
    rw [List.append_assoc] at hdash
    exact absurd (hname.take_of_dash hdash) hdashes
  | @punctuation c kind _ hkind =>
    obtain ⟨rfl, hkind'⟩ := Setting.token_punctuation hkind hprint
    obtain ⟨rfl, rfl⟩ := List.cons.inj hmore
    obtain rfl := Option.some.inj hkind
    exact (Token.spanName?_dash_eq_none_iff.1 hprinted.spanName?_of_minus).1
  | _ =>
    obtain rfl := Except.ok.inj hprint
    cases hmore

/-- A number that takes nothing more has no number behind it. -/
theorem startsUnsigned_of_takes {token : Token}
    (h : beginsWithAny token.takes rest = false)
    (hkind : token.kind = .number ∨ token.kind = .plus ∨ token.kind = .minus) :
    startsUnsigned rest = false := by
  refine Token.startsUnsigned_eq_false (Token.beginsWithAny_mono h fun c hc => ?_)
  obtain hkind | hkind | hkind := hkind <;> simp_all [Token.takes]

/-- A name that takes nothing more has no character of a name behind it. -/
theorem isNameChar_of_takes {token : Token} (h : beginsWithAny token.takes rest = false)
    (hkind : token.kind = .ident ∨ token.kind = .hash) : beginsWithAny isNameChar rest = false := by
  refine Token.beginsWithAny_mono h fun c hc => ?_
  obtain hkind | hkind := hkind <;> simp [Token.takes, hkind, hc]

/-- A point that takes nothing more has no digit behind it. -/
theorem isDigit_of_takes {token : Token} (h : beginsWithAny token.takes rest = false)
    (hkind : token.kind = .delim) (htext : token.text = ['.']) :
    beginsWithAny Char.isDigit rest = false :=
  Token.beginsWithAny_mono h fun c hc => by simp [Token.takes, hkind, htext, hc]

/-- That no number begins with a printed token, or goes on behind one. -/
def Token.JoinsNoNumber (token : Token) (rest : List Char) : Prop :=
  match token.kind with
  | .number => startsUnsigned rest = false ∧ beginsWithAny (· == '%') rest = false
  | .plus | .minus => startsUnsigned rest = false
  | .delim => token.text = ['.'] → beginsWithAny Char.isDigit rest = false
  | _ => True

/-- A token that takes nothing more makes no number with what stands behind it. -/
theorem joinsNoNumber_of_takes {token : Token} (h : beginsWithAny token.takes rest = false) :
    token.JoinsNoNumber rest := by
  unfold Token.JoinsNoNumber
  split
  · rename_i hkind
    refine ⟨startsUnsigned_of_takes h (by simp [hkind]), Token.beginsWithAny_mono h fun c hc => ?_⟩
    simp [Token.takes, hkind, hc]
  · rename_i hkind
    exact startsUnsigned_of_takes h (by simp [hkind])
  · rename_i hkind
    exact startsUnsigned_of_takes h (by simp [hkind])
  · rename_i hkind
    exact isDigit_of_takes h hkind
  · trivial

/-- A single sign may end where it makes neither a number nor a name with what stands behind it. -/
theorem endsAt_of_punctuation {c : Char} {kind : Token.Kind} (hkind : punctuation? c = some kind)
    (hjoins : Token.JoinsNoNumber ⟨kind, [c]⟩ rest)
    (hdash : c = '-' → spanName? ('-' :: rest) = none) : Token.EndsAt ⟨kind, [c]⟩ rest := by
  have hpunctuation := Token.isPunctuation_kind hkind
  cases kind with
  | plus => exact hjoins
  | minus =>
    obtain rfl : c = '-' := by simpa [Token.punctuation] using Token.mem_punctuation hkind
    exact ⟨hjoins, hdash rfl⟩
  | delim => exact hjoins
  | leftParen | rightParen | comma | slash | star | colon => trivial
  | _ => exact absurd hpunctuation Bool.false_ne_true

/-- A numeral directly behind a token that does not take its first character. -/
theorem endsAt_of_numeral {token : Token} {n : Decimal.Numeral}
    (htakes : beginsWithAny token.takes (n.spell ++ rest) = false)
    (hurl : token.kind = .function → token.text = urlName ++ ['('] →
      beginsWithAny isQuote (n.spell ++ rest)) :
    token.EndsAt (n.spell ++ rest) := by
  have hfront := begins_spell n rest
  have hunit : beginsWithAny isUnitChar (n.spell ++ rest) = false := by
    refine Token.beginsWithAny_eq_false hfront fun c hc => ?_
    have hmantissa := Token.isMantissaChar_of_isUnitChar hc
    simp only [Token.isMantissaChar, Bool.or_eq_false_iff] at hmantissa
    simp [beginsNumeral, hmantissa]
  have hparen : (n.spell ++ rest).head? ≠ some '(' := by
    refine Token.head?_ne_of_apart (p := (!beginsNumeral ·)) ?_ rfl
    exact Token.beginsWithAny_eq_false hfront fun c hc => by simpa using hc
  -- Where a numeral begins, units and calls do not; the rest is what the token does not take.
  unfold Token.EndsAt
  split
  · rename_i hkind
    exact ⟨startsUnsigned_of_takes htakes (by simp [hkind]), hunit⟩
  · exact .inr (Token.isAlpha_of_isUnitChar hunit)
  · rename_i hkind
    exact ⟨isNameChar_of_takes htakes (by simp [hkind]), fun h => absurd h hparen⟩
  · rename_i hkind
    exact isNameChar_of_takes htakes (by simp [hkind])
  · exact hurl ‹_›
  · rename_i hkind
    exact startsUnsigned_of_takes htakes (by simp [hkind])
  · rename_i hkind
    exact ⟨startsUnsigned_of_takes htakes (by simp [hkind]), spanName?_dash_spell n rest⟩
  · rename_i hkind
    exact isDigit_of_takes htakes hkind
  · trivial

/-- What is printed for a number or a dimension ends in front of a token that is no number. -/
theorem endsAt_of_numeric (h : Token.scanNumeric? (token.text ++ rest) = some (token, rest))
    (hprint : setting.token groups token = .ok text)
    (halpha : beginsWithAny Char.isAlpha rest = false → beginsWithAny Char.isAlpha tail = false)
    (hunit : beginsWithAny isUnitChar rest = false → beginsWithAny isUnitChar tail = false)
    (hjoins : Token.JoinsNoNumber ⟨token.kind.printed text, text⟩ tail) :
    Token.EndsAt ⟨token.kind.printed text, text⟩ tail := by
  obtain ⟨source, rfl, hrest⟩ | ⟨numeral, unit, rfl, hsplit, -, hrest⟩ := Token.scanNumeric?_cases h
  · exact ⟨hjoins.1, hunit hrest⟩
  · have hdimension : setting.dimension (groups.any id) (numeral ++ unit) = .ok text := hprint
    obtain ⟨rfl, hunit'⟩ | ⟨x, other, rfl, hknown, hpercent⟩ := Setting.dimension_cases hdimension
    · -- A zero without its unit must not get a percent sign.
      rw [hsplit] at hunit'
      have halpha := halpha (hrest.resolve_left hunit')
      obtain ⟨hnumber, hpercent⟩ : startsUnsigned tail = false ∧
          beginsWithAny (· == '%') tail = false := hjoins
      refine ⟨hnumber, ?_⟩
      cases tail with
      | nil => rfl
      | cons c tail =>
        rw [Token.beginsWithAny_cons] at *
        simp [isUnitChar, halpha, hpercent]
    · have hkind : Token.Kind.printed .dimension (withUnit x other) = .dimension :=
        if_neg (withUnit_ne_zero hknown)
      change Token.EndsAt ⟨Token.Kind.printed .dimension (withUnit x other), _⟩ tail
      rw [hkind]
      refine hrest.imp (fun hunit' => ?_) halpha
      rw [hsplit] at hpercent
      simp [withUnit, hpercent hunit']

/-- What is printed for a token ends in front of what is printed for a token that is no number and
stood directly behind it. -/
theorem endsAt_of_adjacent (hends : Ends token (token'.text ++ rest))
    (hprint : setting.token groups token = .ok text) (hends' : Ends token' rest)
    (hnumeric : token'.isNumeric = false) (hprint' : setting.token groups' token' = .ok text')
    (hprinted : Ends ⟨token'.kind.printed text', text'⟩ tail)
    (hjoins : Token.JoinsNoNumber ⟨token.kind.printed text, text⟩ (text' ++ tail))
    (hurl : token.kind = .function → text = urlName ++ ['('] →
      beginsWithAny isQuote (text' ++ tail)) :
    Token.EndsAt ⟨token.kind.printed text, text⟩ (text' ++ tail) := by
  have hclass : ∀ p : Char → Bool, (∀ c, p c.toLower = p c) → p '"' = p '\'' →
      beginsWithAny p (text' ++ tail) = beginsWithAny p (token'.text ++ rest) :=
    fun p hlower hquote => Setting.begins_token hlower hquote hends' hnumeric hprint' tail
  -- What ends a token is a class of characters that the printed text begins with just as before.
  have hname := hclass isNameChar isNameChar_toLower rfl
  have halpha := hclass Char.isAlpha Char.isAlpha_toLower_eq_isAlpha rfl
  have hparen := hclass (· == '(') (fun c => toLower_beq (by decide)) rfl
  have hunit := hclass isUnitChar isUnitChar_toLower rfl
  cases hends with
  | numeric h =>
    exact endsAt_of_numeric h hprint (by rw [halpha]; exact id) (by rw [hunit]; exact id) hjoins
  | ident _ hrest hcall =>
    obtain rfl := Except.ok.inj hprint
    refine ⟨by rwa [hname], fun hhead => hcall ?_⟩
    rw [Token.head?_eq_some_iff] at *
    rwa [← hparen]
  | function => exact hurl rfl
  | urlFunction => exact hurl rfl
  | hash _ _ hrest =>
    obtain rfl := Except.ok.inj hprint
    exact hname.trans hrest
  | @punctuation c kind _ hkind _ hdash =>
    obtain ⟨rfl, hkind'⟩ := Setting.token_punctuation hkind hprint
    simp only [hkind'] at *
    refine endsAt_of_punctuation hkind hjoins ?_
    rintro rfl
    exact spanName?_dash_printed hends' hnumeric hprint' hprinted hdash
  | _ => trivial

end Adjacent

/-! ## Whole texts -/

/-- Something is printed for each token. -/
theorem Token.IsPrinted.text_ne_nil {token : Token} (h : token.IsPrinted) : token.text ≠ [] := by
  cases h with
  | number n => exact n.spell_ne_nil
  | dimension n hunit _ => simp [hunit.ne_nil]
  | ident hname => cases hname <;> simp
  | _ => simp

theorem Token.IsPrinted.begins_of_doubleQuoted {token : Token} (h : token.IsPrinted)
    (rest : List Char) (hkind : token.kind = .doubleQuoted) :
    beginsWithAny isQuote (token.text ++ rest) := by
  cases h with
  | string => rfl
  | punctuation hchar =>
    obtain rfl : _ = Kind.doubleQuoted := hkind
    exact absurd (isPunctuation_kind hchar) Bool.false_ne_true
  | _ => contradiction

/-- What is printed for a number begins with a numeral. -/
theorem Token.IsPrinted.exists_spell {token : Token} (h : token.IsPrinted)
    (hnumeric : token.isNumeric) : ∃ (n : Decimal.Numeral) (more : List Char),
      token.text = n.spell ++ more := by
  cases h with
  | number n => exact ⟨n, [], by simp⟩
  | dimension n => exact ⟨n, _, rfl⟩
  | punctuation hchar =>
    have hkind := isPunctuation_kind hchar
    obtain rfl | rfl : _ = Kind.number ∨ _ = Kind.dimension := by simpa [isNumeric] using hnumeric
    · contradiction
    · contradiction
  | _ => contradiction

theorem Token.Kind.eq_function_of_printed {kind : Kind} {text : List Char}
    (h : kind.printed text = .function) : kind = .function := by
  cases kind
  case dimension =>
    rw [printed] at h
    split at h <;> contradiction
  all_goals first | exact h | contradiction

section Whole

variable {setting : Setting} {groups : List Bool} {token : Token} {rest text : List Char}
  {lexemes printed : List Lexeme}

/-- A number stays one when it is printed. -/
theorem Token.isNumeric_printed {token : Token} (text : List Char) (h : token.isNumeric) :
    isNumeric ⟨token.kind.printed text, text⟩ := by
  obtain ⟨kind, source⟩ := token
  cases kind
  case number => rfl
  case dimension =>
    by_cases htext : text = ['0'] <;> simp [isNumeric, Kind.printed, htext]
  all_goals contradiction

/-- A lexeme that is printed directly behind a token from which it stands apart. -/
theorem Token.IsPrinted.takes_eq_false {before token : Token} (h : token.IsPrinted)
    (hapart : Lexeme.standsApart before ⟨[], token⟩) (rest : List Char) :
    beginsWithAny before.takes (token.text ++ rest) = false := by
  have hne := h.text_ne_nil
  simp only [Lexeme.standsApart, Bool.and_eq_true, Bool.not_eq_true'] at hapart
  cases htext : token.text with
  | nil => exact absurd htext hne
  | cons c cs => simpa [htext] using hapart.1

/-- Where blanks are dropped the token in front ends, or the token behind ends every token. -/
theorem endsAt_of_dropped {token' : Token} {groups' : List Bool} {inMath : Bool}
    {rest' text' tail : List Char} (h : separator token token' true inMath = [])
    (hends' : Ends token' rest') (hprint' : setting.token groups' token' = .ok text')
    (hurl : token.kind = .function → text = urlName ++ ['('] →
      beginsWithAny isQuote (text' ++ tail)) :
    Token.EndsAt ⟨token.kind.printed text, text⟩ (text' ++ tail) := by
  have hboundary : beginsWithAny continuesToken (text' ++ tail) = false →
      Token.EndsAt ⟨token.kind.printed text, text⟩ (text' ++ tail) :=
    Token.endsAt_of_boundary fun hkind => hurl (Token.Kind.eq_function_of_printed hkind)
  -- What opens or separates ends by itself; in front of what closes everything does.
  obtain (hopens | hcomma | hslash) | himportant | hclosing := separator_eq_nil h
  · obtain hkind | hkind : token.kind = .function ∨ token.kind = .leftParen := by
      simpa [Token.opens] using hopens
    · simpa [Token.EndsAt, hkind, Token.Kind.printed] using hurl hkind
    · simp [Token.EndsAt, hkind, Token.Kind.printed]
  · simp [Token.EndsAt, hcomma, Token.Kind.printed]
  · simp [Token.EndsAt, hslash, Token.Kind.printed]
  · have htext : text' = '!' :: Token.importantWord := by
      simpa [Setting.token, himportant] using hprint'.symm
    exact hboundary (by rw [htext]; rfl)
  · obtain ⟨c, htoken, hkind, hc⟩ := hends'.closing hclosing
    rw [htoken] at hprint'
    obtain ⟨rfl, -⟩ := Setting.token_punctuation hkind hprint'
    refine hboundary ?_
    obtain rfl | rfl | rfl := hc <;> rfl

/-- A printed token ends in front of the lexemes that are printed behind it if it ends in front of
one that stood directly behind it and still does. -/
theorem endsAt_of_directly (hreads : Reads rest lexemes)
    (htail : setting.printedAfter (groupsAfter groups token) (some token) lexemes = .ok printed)
    (hurl : token.kind = .function → text = urlName ++ ['('] →
      beginsWithAny isQuote (Lexeme.spell printed))
    (hdirectly : ∀ (token' : Token) (rest' text' : List Char) (tail : List Lexeme),
      rest = token'.text ++ rest' → Ends token' rest' →
      setting.token (groupsAfter groups token) token' = .ok text' →
      printed = ⟨[], ⟨token'.kind.printed text', text'⟩⟩ :: tail →
      Token.EndsAt ⟨token.kind.printed text, text⟩ (text' ++ Lexeme.spell tail)) :
    Token.EndsAt ⟨token.kind.printed text, text⟩ (Lexeme.spell printed) := by
  cases hreads with
  | nil =>
    obtain ⟨hgroups, rfl⟩ := Setting.printedAfter_nil_iff.1 htail
    refine Token.endsAt_of_boundary (fun hkind _ => ?_) rfl
    have hfunction : token.kind = .function := Token.Kind.eq_function_of_printed hkind
    simp [groupsAfter, hfunction] at hgroups
  | @cons gap' rest' token' lexemes' hgap' hends' hreads'' =>
    obtain ⟨text', tail, htoken', htail', rfl⟩ := Setting.printedAfter_cons_iff.1 htail
    rw [Lexeme.spell_cons] at hurl ⊢
    generalize hinMath : (groupsAfter groups token).headD false = inMath at *
    obtain hspace | hspace := Lexeme.space_cases inMath (some token) ⟨gap', token'⟩
    · rw [hspace, List.nil_append] at hurl ⊢
      cases gap' with
      | nil => exact hdirectly token' rest' text' tail rfl hends' htoken' (by rw [hspace])
      | cons c gap =>
        -- There were blanks, and they were dropped.
        have hdropped : separator token token' true inMath = [] := hspace
        exact endsAt_of_dropped hdropped hends' htoken' hurl
    · -- A blank ends every token.
      rw [hspace] at hurl ⊢
      refine Token.endsAt_of_boundary (fun hkind => hurl ?_) rfl
      exact Token.Kind.eq_function_of_printed hkind

/-- Where a string is printed behind a function it stands directly behind it. -/
theorem begins_of_function (hkind : token.kind = .function)
    (htail : setting.printedAfter (groupsAfter groups token) (some token) lexemes = .ok printed)
    (hprinted : ∀ lexeme ∈ printed, lexeme.token.IsPrinted)
    (hstring : ∀ lexeme ∈ printed.head?, lexeme.token.kind = .doubleQuoted) :
    beginsWithAny isQuote (Lexeme.spell printed) := by
  cases lexemes with
  | nil => simp [Setting.printedAfter, groupsAfter, hkind] at htail
  | cons lexeme rest =>
    obtain ⟨text, tail, -, -, rfl⟩ := Setting.printedAfter_cons_iff.1 htail
    have hspace : ∀ inMath, Lexeme.space inMath (some token) lexeme = [] := by
      simp [Lexeme.space, separator, Token.opens, hkind]
    obtain ⟨hhead, -⟩ := List.forall_mem_cons.1 hprinted
    rw [Lexeme.spell_cons, hspace, List.nil_append]
    exact hhead.begins_of_doubleQuoted _ (hstring _ rfl)

/-- A printed token ends in front of the lexemes that are printed behind it. -/
theorem endsAt_of_printed (hends : Ends token rest) (hprint : setting.token groups token = .ok text)
    (hreads : Reads rest lexemes)
    (htail : setting.printedAfter (groupsAfter groups token) (some token) lexemes = .ok printed)
    (hreads' : Reads (Lexeme.spell printed) printed)
    (hprinted : ∀ lexeme ∈ printed, lexeme.token.IsPrinted)
    (hapart : ∀ lexeme ∈ printed.head?, lexeme.standsApart ⟨token.kind.printed text, text⟩) :
    Token.EndsAt ⟨token.kind.printed text, text⟩ (Lexeme.spell printed) := by
  have hurl : token.kind = .function → text = urlName ++ ['('] →
      beginsWithAny isQuote (Lexeme.spell printed) := by
    intro hkind htext
    refine begins_of_function hkind htail hprinted fun lexeme hlexeme => ?_
    have hnext := hapart lexeme hlexeme
    simp only [Lexeme.standsApart, htext, bne_self_eq_false, Bool.false_or, Bool.and_eq_true,
      beq_iff_eq] at hnext
    exact hnext.2
  refine endsAt_of_directly hreads htail hurl ?_
  rintro token' rest' text' tail rfl hends' htoken' rfl
  obtain ⟨hhead, -⟩ := List.forall_mem_cons.1 hprinted
  have htakes := hhead.takes_eq_false (hapart _ rfl) (Lexeme.spell tail)
  rw [Lexeme.spell_cons, List.nil_append] at hurl
  cases hnumeric : token'.isNumeric with
  | true =>
    -- Only a numeral may begin in another way than it did.
    obtain ⟨n, more, hspell⟩ := hhead.exists_spell (Token.isNumeric_printed text' hnumeric)
    simp only at hspell
    rw [hspell, List.append_assoc] at htakes hurl ⊢
    exact endsAt_of_numeral htakes fun hkind => hurl (Token.Kind.eq_function_of_printed hkind)
  | false =>
    have hends'' := ends_of_reads_spell hreads'
    exact endsAt_of_adjacent hends hprint hends' hnumeric htoken' hends''
      (joinsNoNumber_of_takes htakes) hurl

/-- What is printed is read as the tokens that it is printed for. -/
theorem reads_printed {cs : List Char} (hreads : Reads cs lexemes) {groups : List Bool}
    {before : Option Token} {printed : List Lexeme}
    (hprint : setting.printedAfter groups before lexemes = .ok printed)
    (hprinted : ∀ lexeme ∈ printed, lexeme.token.IsPrinted) (hapart : Lexeme.standApart printed) :
    Reads (Lexeme.spell printed) printed := by
  induction hreads generalizing groups before printed with
  | nil =>
    obtain ⟨-, rfl⟩ := Setting.printedAfter_nil_iff.1 hprint
    exact .nil (by simp [Lexeme.spell])
  | @cons gap rest token lexemes hgap hends hreads ih =>
    obtain ⟨text, tail, htoken, htail, rfl⟩ := Setting.printedAfter_cons_iff.1 hprint
    obtain ⟨hhead, hmore⟩ := List.forall_mem_cons.1 hprinted
    obtain ⟨hnext, hapart⟩ := Lexeme.standApart_cons_iff.1 hapart
    -- The lexemes behind are read first, as the token ends in front of their text.
    have hrest := ih htail hmore hapart
    rw [Lexeme.spell_cons]
    exact .cons Lexeme.isGap_of_mem_space
      (hhead.ends (endsAt_of_printed hends htoken hreads htail hrest hmore hnext)) hrest

end Whole

end AtomicCss
