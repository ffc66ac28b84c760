import AtomicCss.Token.Lexer
import Mathlib.Data.List.TakeWhile
import Mathlib.Data.Option.Basic
/-!
# Which tokens a text is read as

`Ends token rest` says what a token looks like and what may follow it: the rest of a text does not
continue the token. Both together decide what is read at the front of a text (`scan?_eq_some_iff`),
and with the gaps between tokens what a whole text is read as (`lex_eq_ok_iff`). Numbers and
dimensions are left to the scanner of numbers.
-/

namespace AtomicCss.Token

/-! ## Fronts of texts -/

/-- Whether a text begins with a character of a class. -/
def beginsWithAny (p : Char → Bool) (cs : List Char) : Bool :=
  cs.head?.any p

section Front

variable {p : Char → Bool} {cs rest : List Char}

@[simp]
theorem beginsWithAny_nil : beginsWithAny p [] = false := rfl

@[simp]
theorem beginsWithAny_cons (c : Char) : beginsWithAny p (c :: cs) = p c := rfl

/-- A class is left out together with every class that it includes. -/
theorem beginsWithAny_mono {q : Char → Bool} (h : beginsWithAny p cs = false)
    (hqp : ∀ c, q c → p c) : beginsWithAny q cs = false := by
  cases cs with
  | nil => rfl
  | cons c cs =>
    by_contra hq
    rw [beginsWithAny_cons, hqp c (by simpa using hq)] at h
    contradiction

/-- What is left behind a run of characters begins with another one. -/
theorem beginsWithAny_dropWhile : beginsWithAny p (cs.dropWhile p) = false := by
  induction cs with
  | nil => rfl
  | cons c cs ih =>
    cases hc : p c with
    | true => rw [List.dropWhile_cons_of_pos hc, ih]
    | false => rw [List.dropWhile_cons_of_neg (by simp [hc]), beginsWithAny_cons, hc]

theorem takeWhile_eq_nil (h : beginsWithAny p cs = false) : cs.takeWhile p = [] := by
  cases cs with
  | nil => rfl
  | cons c cs => exact List.takeWhile_cons_of_neg (by simpa using h)

theorem dropWhile_eq_self (h : beginsWithAny p cs = false) : cs.dropWhile p = cs := by
  cases cs with
  | nil => rfl
  | cons c cs => exact List.dropWhile_cons_of_neg (by simpa using h)

/-- Characters of a class in front of a text that does not begin with one. -/
theorem takeWhile_append_eq (h : ∀ c ∈ cs, p c) (hrest : beginsWithAny p rest = false) :
    (cs ++ rest).takeWhile p = cs := by
  rw [List.takeWhile_append_of_pos h, takeWhile_eq_nil hrest, List.append_nil]

/-- A run of characters up to another one is dropped as a whole. -/
theorem dropWhile_append_eq (h : ∀ c ∈ cs, p c) (hrest : beginsWithAny p rest = false) :
    (cs ++ rest).dropWhile p = rest := by
  rw [List.dropWhile_append_of_pos h, dropWhile_eq_self hrest]

/-- The first character, as something that a text begins with. -/
theorem head?_eq_some_iff {c : Char} : cs.head? = some c ↔ beginsWithAny (· == c) cs := by
  cases cs <;> simp

/-- A text that begins with nothing of a kind does not begin with one of that kind. -/
theorem head?_ne_of_apart {c : Char} (h : beginsWithAny p cs = false) (hc : p c) :
    cs.head? ≠ some c := by
  rintro hhead
  cases cs with
  | nil => contradiction
  | cons d cs =>
    obtain rfl := Option.some.inj hhead
    rw [beginsWithAny_cons, hc] at h
    contradiction

theorem forall_mem_takeWhile : ∀ c ∈ cs.takeWhile p, p c := by
  intro c hc
  exact List.mem_takeWhile_imp hc

end Front

/-! ## Names -/

/-- A name as the lexer reads it: at most two dashes, a letter or underscore, name characters. -/
inductive IsName : List Char → Prop
  | plain {c : Char} {tail : List Char} (hc : isNameStart c) (htail : ∀ d ∈ tail, isNameChar d) :
    IsName (c :: tail)
  | dash {c : Char} {tail : List Char} (hc : isNameStart c) (htail : ∀ d ∈ tail, isNameChar d) :
    IsName ('-' :: c :: tail)
  | dashes {c : Char} {tail : List Char} (hc : isNameStart c) (htail : ∀ d ∈ tail, isNameChar d) :
    IsName ('-' :: '-' :: c :: tail)

theorem isNameChar_of_isNameStart {c : Char} (h : isNameStart c) : isNameChar c := by
  simp only [isNameStart, isNameChar, Char.isAlphanum, Bool.or_eq_true] at *
  rcases h with h | h
  · exact .inl (.inl (.inl h))
  · exact .inl (.inr h)

theorem isAlpha_of_isNameChar {cs : List Char} (h : beginsWithAny isNameChar cs = false) :
    beginsWithAny Char.isAlpha cs = false :=
  beginsWithAny_mono h fun c hc => by simp [isNameChar, Char.isAlphanum, hc]

theorem isNameStart_dash : isNameStart '-' = false := by decide

/-- A name has only characters of names. -/
theorem IsName.isNameChar {name : List Char} (h : IsName name) : ∀ c ∈ name, isNameChar c := by
  have hdash : Token.isNameChar '-' := by decide
  cases h with
  | plain hc htail =>
    simpa [isNameChar_of_isNameStart hc] using htail
  | dash hc htail =>
    simpa [isNameChar_of_isNameStart hc, hdash] using htail
  | dashes hc htail =>
    simpa [isNameChar_of_isNameStart hc, hdash] using htail

/-- A name begins with one of its characters. -/
theorem IsName.begins {name rest : List Char} (h : IsName name) :
    beginsWithAny Token.isNameChar (name ++ rest) := by
  have hchar := h.isNameChar
  cases h <;> exact hchar _ List.mem_cons_self

/-- What is found as a name is one, and takes all characters that follow. -/
theorem isName_of_spanName? {cs name rest : List Char} (h : spanName? cs = some (name, rest)) :
    IsName name ∧ beginsWithAny isNameChar rest = false := by
  -- Two dashes in front, one, or none.
  unfold spanName? at h
  split at h
  · split at h
    · rename_i hc
      obtain ⟨rfl, rfl⟩ := by simpa using h
      exact ⟨.dashes hc forall_mem_takeWhile, beginsWithAny_dropWhile⟩
    · simp at h
  · split at h
    · rename_i hc
      obtain ⟨rfl, rfl⟩ := by simpa using h
      exact ⟨.dash hc forall_mem_takeWhile, beginsWithAny_dropWhile⟩
    · simp at h
  · split at h
    · rename_i hc
      obtain ⟨rfl, rfl⟩ := by simpa using h
      exact ⟨.plain hc forall_mem_takeWhile, beginsWithAny_dropWhile⟩
    · simp at h
  · simp at h

theorem ne_dash_of_isNameStart {c : Char} (hc : isNameStart c) : c ≠ '-' := by
  rintro rfl
  simp [isNameStart_dash] at hc

/-- The names differ in the dashes in front, their characters are spanned the same way. -/
theorem spanName?_append_of_isName {name rest : List Char} (hname : IsName name)
    (hrest : beginsWithAny isNameChar rest = false) :
    spanName? (name ++ rest) = some (name, rest) := by
  cases hname with
  | plain hc htail =>
    have hne := ne_dash_of_isNameStart hc
    rw [List.cons_append, spanName?]
    · simp [hc, takeWhile_append_eq htail hrest, dropWhile_append_eq htail hrest]
    · intro _ _ h _
      exact hne h
    · intro _ _ h _
      exact hne h
  | dash hc htail =>
    have hne := ne_dash_of_isNameStart hc
    rw [List.cons_append, List.cons_append, spanName?]
    · simp [hc, takeWhile_append_eq htail hrest, dropWhile_append_eq htail hrest]
    · intro _ _ h _
      exact hne h
  | dashes hc htail =>
    simp [spanName?, hc, takeWhile_append_eq htail hrest, dropWhile_append_eq htail hrest]

/-- A name is found just if it stands in front and takes all characters that follow. -/
theorem spanName?_eq_some_iff {cs name rest : List Char} :
    spanName? cs = some (name, rest) ↔
      cs = name ++ rest ∧ IsName name ∧ beginsWithAny isNameChar rest = false := by
  constructor
  · intro h
    exact ⟨(spanName?_append h).1.symm, isName_of_spanName? h⟩
  · rintro ⟨rfl, hname, hrest⟩
    exact spanName?_append_of_isName hname hrest

/-- A dash stands in front of a name unless it, or a second dash, is followed by no letter. -/
theorem spanName?_dash_eq_none_iff {cs : List Char} :
    spanName? ('-' :: cs) = none ↔
      beginsWithAny isNameStart cs = false ∧
        ∀ tail, cs = '-' :: tail → beginsWithAny isNameStart tail = false := by
  cases cs with
  | nil => simp [spanName?, isNameStart_dash]
  | cons c tail =>
    by_cases hc : c = '-'
    · subst hc
      cases tail with
      | nil => simp [spanName?, isNameStart_dash]
      | cons d tail => simp [spanName?, isNameStart_dash]
    · simp [spanName?, hc]

/-- A dash begins no name in front of what continues none. -/
theorem spanName?_dash_of_apart {cs : List Char} (h : beginsWithAny isNameChar cs = false) :
    spanName? ('-' :: cs) = none := by
  refine spanName?_dash_eq_none_iff.2
    ⟨beginsWithAny_mono h fun c hc => isNameChar_of_isNameStart hc, ?_⟩
  rintro tail rfl
  have hnot : isNameChar '-' = false := h
  exact absurd hnot (by decide)

/-- No letter stands behind a dash that begins no name. -/
theorem isAlpha_of_spanName?_dash {cs : List Char} (h : spanName? ('-' :: cs) = none) :
    beginsWithAny Char.isAlpha cs = false := by
  refine beginsWithAny_mono (spanName?_dash_eq_none_iff.1 h).1 fun c hc => ?_
  simp [isNameStart, hc]

/-! ## Strings -/

/-- What stands between the quotes of a string. -/
inductive IsInner (quote : Char) : List Char → Prop
  | nil : IsInner quote []
  | escaped {c : Char} {inner : List Char} (hc : c ≠ '\n') (h : IsInner quote inner) :
    IsInner quote ('\\' :: c :: inner)
  | plain {c : Char} {inner : List Char} (hquote : c ≠ quote) (hslash : c ≠ '\\')
    (h : IsInner quote inner) : IsInner quote (c :: inner)

/-- The inside of a string is found up to the quote that closes it. -/
theorem spanString?_of_isInner {quote : Char} {inner rest : List Char} (hquote : quote ≠ '\\')
    (h : IsInner quote inner) :
    spanString? quote (inner ++ quote :: rest) = some (inner ++ [quote], rest) := by
  -- By induction on the inside: an escape takes two characters, all else one.
  induction h with
  | nil =>
    rw [List.nil_append, spanString?]
    · simp
    · rintro rfl
      exact absurd rfl hquote
    · rintro _ _ rfl
      exact absurd rfl hquote
  | @escaped c inner hc _ ih =>
    rw [List.cons_append, List.cons_append, spanString?, if_neg hc, ih]
    rfl
  | @plain c inner hc hslash _ ih =>
    rw [List.cons_append, spanString?, if_neg hc, ih]
    · rfl
    · rintro rfl
      exact absurd rfl hslash
    · rintro _ _ rfl
      exact absurd rfl hslash

/-- What is found of a string is an inside with the quote that closes it. -/
theorem exists_isInner_of_spanString? {quote : Char} {cs text rest : List Char}
    (h : spanString? quote cs = some (text, rest)) :
    ∃ inner, text = inner ++ [quote] ∧ IsInner quote inner := by
  fun_induction spanString? quote cs generalizing text rest with
  | case1 => simp at h
  | case2 => simp at h
  | case3 => simp at h
  | case4 c left hc ih =>
    obtain ⟨⟨text', rest'⟩, hspan, heq⟩ := Option.map_eq_some_iff.1 h
    obtain ⟨rfl, rfl⟩ := by simpa using heq
    obtain ⟨inner, rfl, hinner⟩ := ih hspan
    exact ⟨'\\' :: c :: inner, rfl, .escaped hc hinner⟩
  | case5 left =>
    obtain ⟨rfl, rfl⟩ := by simpa using h
    exact ⟨[], rfl, .nil⟩
  | case6 c left hend hescape hc ih =>
    obtain ⟨⟨text', rest'⟩, hspan, heq⟩ := Option.map_eq_some_iff.1 h
    obtain ⟨rfl, rfl⟩ := by simpa using heq
    obtain ⟨inner, rfl, hinner⟩ := ih hspan
    -- A backslash is caught by the cases in front: the text ends there, or it escapes.
    have hslash : c ≠ '\\' := by
      rintro rfl
      cases left with
      | nil => exact hend rfl rfl
      | cons d left => exact hescape d left rfl rfl
    exact ⟨c :: inner, rfl, .plain hc hslash hinner⟩

/-! ## Where numbers begin -/

/-- Whether a text begins with a digit, or with a point and a digit. -/
def startsUnsigned : List Char → Bool
  | '.' :: d :: _ => d.isDigit
  | c :: _ => c.isDigit
  | [] => false

/-- Whether a number stands at the front of a text. -/
def startsNumber (cs : List Char) : Bool :=
  startsUnsigned (spanSign cs).2

theorem startsUnsigned_of_isDigit {c : Char} {cs : List Char} (hc : c.isDigit) :
    startsUnsigned (c :: cs) := by
  unfold startsUnsigned
  split
  · rename_i heq
    obtain ⟨rfl, -⟩ := by simpa using heq
    exact absurd hc (by decide)
  · rename_i heq
    obtain ⟨rfl, -⟩ := by simpa using heq
    exact hc
  · contradiction

theorem startsUnsigned_point {cs : List Char} :
    startsUnsigned ('.' :: cs) = beginsWithAny Char.isDigit cs := by
  cases cs <;> rfl

/-- A text that begins with neither a digit nor a point begins no unsigned number. -/
theorem startsUnsigned_eq_false {cs : List Char}
    (h : beginsWithAny (fun c => c.isDigit || c == '.') cs = false) : startsUnsigned cs = false := by
  unfold startsUnsigned
  split
  · simp at h
  · simp only [beginsWithAny_cons, Bool.or_eq_false_iff] at h
    exact h.1
  · rfl

/-- There is a fraction just if an unsigned number goes on. -/
theorem spanFraction_eq_nil_iff {cs : List Char} (hcs : beginsWithAny Char.isDigit cs = false) :
    (spanFraction cs).1 = [] ↔ startsUnsigned cs = false := by
  unfold spanFraction startsUnsigned
  split <;> split <;> simp_all

/-- There is a mantissa just if a number begins. -/
theorem spanMantissa?_eq_none_iff {cs : List Char} :
    spanMantissa? cs = none ↔ startsNumber cs = false := by
  simp only [spanMantissa?, startsNumber]
  generalize (spanSign cs).2 = unsigned
  cases hdigit : beginsWithAny Char.isDigit unsigned with
  | false =>
    rw [takeWhile_eq_nil hdigit, dropWhile_eq_self hdigit, ← spanFraction_eq_nil_iff hdigit]
    simp
  | true =>
    cases unsigned with
    | nil => simp at hdigit
    | cons c cs =>
      rw [beginsWithAny_cons] at hdigit
      simp [hdigit, startsUnsigned_of_isDigit hdigit]

theorem startsUnsigned_cons {c : Char} {cs : List Char} (hc : isMantissaChar c = false) :
    startsUnsigned (c :: cs) = false := by
  simp only [isMantissaChar, Bool.or_eq_false_iff, beq_eq_false_iff_ne] at hc
  obtain ⟨⟨⟨hdigit, hpoint⟩, -⟩, -⟩ := hc
  rw [startsUnsigned, hdigit]
  intro _ _ h
  exact absurd h hpoint

theorem spanSign_cons {c : Char} {cs : List Char} (hc : c ≠ '+' ∧ c ≠ '-') :
    spanSign (c :: cs) = ([], c :: cs) := by
  rw [spanSign]
  · exact fun _ h => hc.1 (List.cons.inj h).1
  · exact fun _ h => hc.2 (List.cons.inj h).1

theorem ne_sign_of_isMantissaChar {c : Char} (hc : isMantissaChar c = false) :
    c ≠ '+' ∧ c ≠ '-' := by
  simp only [isMantissaChar, Bool.or_eq_false_iff, beq_eq_false_iff_ne] at hc
  exact ⟨hc.1.2, hc.2⟩

theorem startsNumber_cons {c : Char} {cs : List Char} (hc : isMantissaChar c = false) :
    startsNumber (c :: cs) = false := by
  rw [startsNumber, spanSign_cons (ne_sign_of_isMantissaChar hc)]
  exact startsUnsigned_cons hc

/-! ## What may follow a token -/

def isQuote (c : Char) : Bool :=
  c == '"' || c == '\''

/-- The form of a token, and that the rest of the text does not continue it. -/
inductive Ends : Token → List Char → Prop
  | numeric {token : Token} {rest : List Char}
    (h : scanNumeric? (token.text ++ rest) = some (token, rest)) : Ends token rest
  | ident {name rest : List Char} (hname : IsName name)
    (hrest : beginsWithAny isNameChar rest = false)
    (hcall : rest.head? = some '(' → name.take 2 = ['-', '-']) : Ends ⟨.ident, name⟩ rest
  | function {name rest : List Char} (hname : IsName name) (hurl : name ≠ urlName)
    (hdashes : name.take 2 ≠ ['-', '-']) : Ends ⟨.function, name ++ ['(']⟩ rest
  | urlFunction {rest : List Char} (hrest : rest = [] ∨ beginsWithAny isQuote rest) :
    Ends ⟨.function, urlName ++ ['(']⟩ rest
  | url {address rest : List Char} (haddress : ∀ c ∈ address, !endsAddress c) :
    Ends ⟨.url, urlName ++ '(' :: address ++ [')']⟩ rest
  | doubleQuoted {inner rest : List Char} (hinner : IsInner '"' inner) :
    Ends ⟨.doubleQuoted, '"' :: inner ++ ['"']⟩ rest
  | singleQuoted {inner rest : List Char} (hinner : IsInner '\'' inner) :
    Ends ⟨.singleQuoted, '\'' :: inner ++ ['\'']⟩ rest
  | hash {name rest : List Char} (hne : name ≠ []) (hname : ∀ c ∈ name, isNameChar c)
    (hrest : beginsWithAny isNameChar rest = false) : Ends ⟨.hash, '#' :: name⟩ rest
  | important {blanks rest : List Char} (hblanks : ∀ c ∈ blanks, isInnerBlank c) :
    Ends ⟨.important, '!' :: blanks ++ importantWord⟩ rest
  | punctuation {c : Char} {kind : Kind} {rest : List Char} (hkind : punctuation? c = some kind)
    (hnumber : startsNumber (c :: rest) = false) (hname : spanName? (c :: rest) = none) :
    Ends ⟨kind, [c]⟩ rest

/-- There is a numeric token just if a number begins. -/
theorem scanNumeric?_eq_none_iff {cs : List Char} :
    scanNumeric? cs = none ↔ startsNumber cs = false := by
  rw [← spanMantissa?_eq_none_iff]
  unfold scanNumeric?
  split
  · simp [*]
  · rename_i h
    simp only [h, reduceCtorEq, iff_false]
    split
    · simp
    · split <;> simp

theorem isAlpha_iff_toNat {c : Char} :
    c.isAlpha ↔ 65 ≤ c.toNat ∧ c.toNat ≤ 90 ∨ 97 ≤ c.toNat ∧ c.toNat ≤ 122 := by
  have hupper : c.isUpper ↔ 65 ≤ c.toNat ∧ c.toNat ≤ 90 := decide_eq_true_iff
  have hlower : c.isLower ↔ 97 ≤ c.toNat ∧ c.toNat ≤ 122 := by
    refine (Bool.and_eq_true_iff ..).trans ?_
    exact and_congr decide_eq_true_iff decide_eq_true_iff
  rw [← hupper, ← hlower]
  exact Bool.or_eq_true_iff ..

theorem isMantissaChar_of_isNameStart {c : Char} (h : isNameStart c) : isMantissaChar c = false := by
  refine Bool.eq_false_iff.2 fun hmantissa => ?_
  obtain halpha | rfl : c.isAlpha ∨ c = '_' := by simpa [isNameStart] using h
  · rw [isAlpha_iff_toNat] at halpha
    obtain ((hdigit | rfl) | rfl) | rfl : ((c.isDigit ∨ c = '.') ∨ c = '+') ∨ c = '-' := by
      simpa [isMantissaChar] using hmantissa
    · have hrange : 48 ≤ c.toNat ∧ c.toNat ≤ 57 := Char.isDigit_iff_toNat.1 hdigit
      omega
    all_goals simp at halpha
  · exact absurd hmantissa (by decide)

/-- No number begins with a name. -/
theorem IsName.startsNumber {name rest : List Char} (h : IsName name) :
    startsNumber (name ++ rest) = false := by
  cases h with
  | plain hc _ => exact startsNumber_cons (isMantissaChar_of_isNameStart hc)
  | dash hc _ => exact startsUnsigned_cons (isMantissaChar_of_isNameStart hc)
  | dashes _ _ => rfl

/-- The kinds of tokens that are one character. -/
def Kind.isPunctuation : Kind → Bool
  | .leftParen | .rightParen | .comma | .slash | .plus | .minus | .star | .colon | .delim => true
  | _ => false

/-- The characters that are tokens of their own. -/
def punctuation : List (Char × Kind) :=
  [('(', .leftParen), (')', .rightParen), (',', .comma), ('/', .slash), ('+', .plus), ('-', .minus),
    ('*', .star), (':', .colon), ('=', .delim), ('<', .delim), ('>', .delim), ('.', .delim),
    ('?', .delim), ('&', .delim), ('|', .delim), ('^', .delim), ('~', .delim), ('%', .delim)]

section Punctuation

variable {c : Char} {kind : Kind}

/-- The kinds of single signs are all listed. -/
theorem mem_punctuation (h : punctuation? c = some kind) : (c, kind) ∈ punctuation := by
  unfold punctuation? at h
  split at h
  case h_19 => contradiction
  all_goals
    obtain rfl := Option.some.inj h
    simp [punctuation]

theorem isPunctuation_kind (h : punctuation? c = some kind) : kind.isPunctuation :=
  List.all_eq_true.1 (show punctuation.all (·.2.isPunctuation) by decide) _ (mem_punctuation h)

/-- Punctuation begins no name, gap, string, hash or `!important`. -/
theorem punctuation_apart (h : punctuation? c = some kind) :
    isNameStart c = false ∧ isGap c = false ∧ isQuote c = false ∧ c ≠ '#' ∧ c ≠ '!' := by
  have hall : punctuation.all fun row =>
      !isNameStart row.1 && !isGap row.1 && !isQuote row.1 && row.1 != '#' && row.1 != '!' := by
    decide
  simpa [and_assoc] using List.all_eq_true.1 hall _ (mem_punctuation h)

/-- A sign or a point may stand in front of a number. -/
theorem mantissa_of_punctuation? (h : punctuation? c = some kind) (hc : isMantissaChar c) :
    c = '+' ∧ kind = .plus ∨ c = '-' ∧ kind = .minus ∨ c = '.' ∧ kind = .delim := by
  have hall : punctuation.all fun row =>
      !isMantissaChar row.1 || row == ('+', .plus) || row == ('-', .minus) ||
        row == ('.', .delim) := by
    decide
  simpa [hc, or_assoc] using List.all_eq_true.1 hall _ (mem_punctuation h)

theorem closing_of_punctuation? (h : punctuation? c = some kind)
    (hkind : kind = .rightParen ∨ kind = .comma ∨ kind = .slash) : c = ')' ∨ c = ',' ∨ c = '/' := by
  have hmem := mem_punctuation h
  obtain rfl | rfl | rfl := hkind <;> simp_all [punctuation]

end Punctuation

/-- What stands behind `url(` is an address, or a string that is read next. -/
theorem ends_of_scanUrl? {cs rest : List Char} {token : Token}
    (h : scanUrl? cs = some (token, rest)) : Ends token rest := by
  unfold scanUrl? at h
  split at h
  · obtain ⟨rfl, rfl⟩ := by simpa using h
    exact .url forall_mem_takeWhile
  · split at h
    · obtain ⟨rfl, rfl⟩ := by simpa using h
      exact .urlFunction (.inl rfl)
    · split at h
      · rename_i hquote
        obtain ⟨rfl, rfl⟩ := by simpa using h
        exact .urlFunction (.inr (by simpa [isQuote] using hquote))
      · simp at h

/-- The tokens that begin with a name. -/
theorem ends_of_scanNamed? {cs rest : List Char} {token : Token}
    (h : scanNamed? cs = some (token, rest)) : Ends token rest := by
  unfold scanNamed? at h
  split at h
  · simp at h
  · rename_i name left hspan
    obtain ⟨hname, hleft⟩ := isName_of_spanName? hspan
    split at h
    · exact ends_of_scanUrl? h
    · rename_i hurl
      split at h
      · rename_i hdashes
        obtain ⟨rfl, rfl⟩ := by simpa using h
        exact .ident hname hleft fun _ => hdashes
      · rename_i hdashes
        obtain ⟨rfl, rfl⟩ := by simpa using h
        exact .function hname hurl hdashes
  · rename_i name left hnot hspan
    obtain ⟨hname, hleft⟩ := isName_of_spanName? hspan
    obtain ⟨rfl, rfl⟩ := by simpa using h
    refine .ident hname hleft fun hhead => ?_
    cases left with
    | nil => simp at hhead
    | cons c left =>
      obtain rfl := by simpa using hhead
      exact (hnot left rfl).elim

/-- A string ends with its quote. -/
theorem ends_of_scanString? {cs rest : List Char} {token : Token}
    (h : scanString? cs = some (token, rest)) : Ends token rest := by
  unfold scanString? at h
  split at h
  · obtain ⟨⟨text, left⟩, hspan, heq⟩ := Option.map_eq_some_iff.1 h
    obtain ⟨inner, rfl, hinner⟩ := exists_isInner_of_spanString? hspan
    obtain ⟨rfl, rfl⟩ := by simpa using heq
    exact .doubleQuoted hinner
  · obtain ⟨⟨text, left⟩, hspan, heq⟩ := Option.map_eq_some_iff.1 h
    obtain ⟨inner, rfl, hinner⟩ := exists_isInner_of_spanString? hspan
    obtain ⟨rfl, rfl⟩ := by simpa using heq
    exact .singleQuoted hinner
  · simp at h

/-- A hash ends where its name does. -/
theorem ends_of_scanHash? {cs rest : List Char} {token : Token}
    (h : scanHash? cs = some (token, rest)) : Ends token rest := by
  unfold scanHash? at h
  split at h
  · split at h
    · rename_i hc
      obtain ⟨rfl, rfl⟩ := by simpa using h
      exact .hash (by simp) (List.forall_mem_cons.2 ⟨hc, forall_mem_takeWhile⟩)
        beginsWithAny_dropWhile
    · simp at h
  · simp at h

/-- An `!important` ends with its word. -/
theorem ends_of_scanImportant? {cs rest : List Char} {token : Token}
    (h : scanImportant? cs = some (token, rest)) : Ends token rest := by
  unfold scanImportant? at h
  split at h
  · split at h
    · obtain ⟨rfl, rfl⟩ := by simpa using h
      exact .important forall_mem_takeWhile
    · simp at h
  · simp at h

theorem spanName?_cons {c : Char} {cs : List Char} (hdash : c ≠ '-') (hc : isNameStart c = false) :
    spanName? (c :: cs) = none := by
  rw [spanName?, hc]
  · rfl
  · exact fun _ _ h _ => hdash h
  · exact fun _ _ h _ => hdash h

/-- A single sign ends at once. -/
theorem ends_of_scanPunctuation? {cs rest : List Char} {token : Token}
    (hnumeric : scanNumeric? cs = none) (hnamed : scanNamed? cs = none)
    (h : scanPunctuation? cs = some (token, rest)) : Ends token rest := by
  unfold scanPunctuation? at h
  split at h
  · simp at h
  · rename_i c left
    obtain ⟨kind, hkind, heq⟩ := Option.map_eq_some_iff.1 h
    obtain ⟨rfl, rfl⟩ := by simpa using heq
    refine .punctuation hkind (scanNumeric?_eq_none_iff.1 hnumeric) ?_
    by_cases hdash : c = '-'
    · subst hdash
      -- A name behind a dash is not that of an address, so it would have been taken.
      unfold scanNamed? at hnamed
      split at hnamed
      · assumption
      · rename_i name rest hspan
        have hurl : name ≠ urlName := by
          rintro rfl
          simpa [urlName] using (spanName?_append hspan).1
        rw [if_neg hurl] at hnamed
        split at hnamed <;> contradiction
      · contradiction
    · exact spanName?_cons hdash (punctuation_apart hkind).1

/-- Whatever token is found, it ends where a token of its kind may end. -/
theorem ends_of_scan? {cs rest : List Char} {token : Token} (h : scan? cs = some (token, rest)) :
    Ends token rest := by
  have hsplit := (splits_scan? cs token rest h).1
  simp only [scan?, Option.orElse_eq_some] at h
  obtain h | ⟨hnumeric, h | ⟨hnamed, h | ⟨-, h | ⟨-, h | ⟨-, h⟩⟩⟩⟩⟩ := h
  · exact .numeric (by rwa [hsplit])
  · exact ends_of_scanNamed? h
  · exact ends_of_scanString? h
  · exact ends_of_scanHash? h
  · exact ends_of_scanImportant? h
  · exact ends_of_scanPunctuation? hnumeric hnamed h

section Scan

variable {cs rest : List Char} {token : Token}

/-- A numeric token comes before all others. -/
theorem scan?_of_number {result : Token × List Char} (h : scanNumeric? cs = some result) :
    scan? cs = some result := by
  rw [scan?, h]
  rfl

/-- Names come next. -/
theorem scan?_of_name {result : Token × List Char} (hnumber : startsNumber cs = false)
    (h : scanNamed? cs = some result) : scan? cs = some result := by
  rw [scan?, scanNumeric?_eq_none_iff.2 hnumber, h]
  rfl

/-- What begins neither a number nor a name is a string, a hash, `!important` or a single sign. -/
theorem scan?_of_sign (hnumber : startsNumber cs = false) (hname : spanName? cs = none) :
    scan? cs = (scanString? cs <|> scanHash? cs <|> scanImportant? cs <|> scanPunctuation? cs) := by
  have hnamed : scanNamed? cs = none := by
    rw [scanNamed?, hname]
  rw [scan?, scanNumeric?_eq_none_iff.2 hnumber, hnamed]
  rfl

/-- A character that begins neither a number nor a name. -/
theorem scan?_cons {c : Char} (hmantissa : isMantissaChar c = false)
    (hstart : isNameStart c = false) :
    scan? (c :: cs) =
      (scanString? (c :: cs) <|> scanHash? (c :: cs) <|> scanImportant? (c :: cs) <|>
        scanPunctuation? (c :: cs)) := by
  refine scan?_of_sign (startsNumber_cons hmantissa) (spanName?_cons ?_ hstart)
  rintro rfl
  exact absurd hmantissa (by decide)

/-- A single sign that begins nothing else is a token of its own. -/
theorem scan?_of_punctuation {c : Char} {kind : Kind} (hkind : punctuation? c = some kind)
    (hnumber : startsNumber (c :: cs) = false) (hname : spanName? (c :: cs) = none) :
    scan? (c :: cs) = some (⟨kind, [c]⟩, cs) := by
  obtain ⟨-, -, hquote, hhash, hmark⟩ := punctuation_apart hkind
  obtain ⟨hdouble, hsingle⟩ : c ≠ '"' ∧ c ≠ '\'' := by simpa [isQuote] using hquote
  simp [scan?_of_sign hnumber hname, scanString?, hdouble, hsingle, scanHash?, hhash, scanImportant?,
    hmark, scanPunctuation?, hkind]

theorem isName_urlName : IsName urlName :=
  .plain (by decide) (List.all_eq_true.1 (by decide))

/-- The address behind `url(`. -/
theorem scanUrl?_of_address {address rest : List Char} (h : ∀ c ∈ address, !endsAddress c) :
    scanUrl? (address ++ ')' :: rest) =
      some (⟨.url, urlName ++ '(' :: address ++ [')']⟩, rest) := by
  have hend : beginsWithAny (!endsAddress ·) (')' :: rest) = false := rfl
  simp only [scanUrl?, takeWhile_append_eq h hend, dropWhile_append_eq h hend]

/-- In front of a quote, `url(` is a function like others. -/
theorem scanUrl?_of_quote {rest : List Char} (h : rest = [] ∨ beginsWithAny isQuote rest) :
    scanUrl? rest = some (⟨.function, urlName ++ ['(']⟩, rest) := by
  obtain rfl | h := h
  · rfl
  · cases rest with
    | nil => rfl
    | cons c rest =>
      have hc : c = '"' ∨ c = '\'' := by simpa [isQuote] using h
      obtain rfl | rfl := hc <;> rfl

theorem after?_append {α : Type} [DecidableEq α] (front rest : List α) :
    after? front (front ++ rest) = some rest := by
  induction front with
  | nil => rfl
  | cons f front ih => rw [List.cons_append, after?, if_pos rfl, ih]

/-- A name without a call behind it. -/
theorem scanNamed?_of_name {name : List Char} (hname : IsName name)
    (hrest : beginsWithAny isNameChar rest = false)
    (hcall : rest.head? = some '(' → name.take 2 = ['-', '-']) :
    scanNamed? (name ++ rest) = some (⟨.ident, name⟩, rest) := by
  have hspan := spanName?_append_of_isName hname hrest
  unfold scanNamed?
  rw [hspan]
  split
  · contradiction
  · rename_i heq
    obtain ⟨rfl, rfl⟩ := by simpa using heq
    -- Two dashes in front make a name of what would be a call.
    have hdashes := hcall rfl
    have hurl : name ≠ urlName := by
      rintro rfl
      exact absurd hdashes (by decide)
    rw [if_neg hurl, if_pos hdashes]
  · rename_i heq
    obtain ⟨rfl, rfl⟩ := by simpa using heq
    rfl

/-- The name of a function is found in front of its parenthesis. -/
theorem spanName?_call {name : List Char} (hname : IsName name) (rest : List Char) :
    spanName? (name ++ '(' :: rest) = some (name, '(' :: rest) :=
  spanName?_append_of_isName hname rfl

theorem scanNamed?_url (rest : List Char) : scanNamed? (urlName ++ '(' :: rest) = scanUrl? rest := by
  simp only [scanNamed?, spanName?_call isName_urlName, if_pos]

/-- The two kinds of strings differ in their quote only. -/
theorem scan?_of_quoted {quote : Char} {kind : Kind} {inner : List Char}
    (hkind : quote = '"' ∧ kind = .doubleQuoted ∨ quote = '\'' ∧ kind = .singleQuoted)
    (hinner : IsInner quote inner) (rest : List Char) :
    scan? (quote :: inner ++ [quote] ++ rest) =
      some (⟨kind, quote :: inner ++ [quote]⟩, rest) := by
  have hquote : quote ≠ '\\' ∧ isMantissaChar quote = false ∧ isNameStart quote = false := by
    obtain ⟨rfl, -⟩ | ⟨rfl, -⟩ := hkind <;> decide
  have hspan : spanString? quote (inner ++ quote :: rest) = some (inner ++ [quote], rest) :=
    spanString?_of_isInner hquote.1 hinner
  have hscan : scanString? (quote :: (inner ++ quote :: rest)) =
      some (⟨kind, quote :: inner ++ [quote]⟩, rest) := by
    obtain ⟨rfl, rfl⟩ | ⟨rfl, rfl⟩ := hkind
    · rw [scanString?, hspan]
      rfl
    · rw [scanString?, hspan]
      rfl
  simp only [List.append_assoc, List.cons_append, List.nil_append]
  rw [scan?_cons hquote.2.1 hquote.2.2, hscan]
  rfl

/-- A hash is found with its name. -/
theorem scan?_of_hash {name rest : List Char} (hne : name ≠ []) (hname : ∀ c ∈ name, isNameChar c)
    (hrest : beginsWithAny isNameChar rest = false) :
    scan? ('#' :: name ++ rest) = some (⟨.hash, '#' :: name⟩, rest) := by
  cases name with
  | nil => exact absurd rfl hne
  | cons c tail =>
    obtain ⟨hc, htail⟩ := List.forall_mem_cons.1 hname
    have hscan : scanHash? ('#' :: c :: (tail ++ rest)) =
        some (⟨.hash, '#' :: c :: tail⟩, rest) := by
      rw [scanHash?, if_pos hc, takeWhile_append_eq htail hrest, dropWhile_append_eq htail hrest]
    simp only [List.cons_append]
    rw [scan?_cons (by decide) (by decide), hscan]
    rfl

/-- An `!important` is found with the blanks in it. -/
theorem scan?_of_important {blanks : List Char} (hblanks : ∀ c ∈ blanks, isInnerBlank c)
    (rest : List Char) :
    scan? ('!' :: blanks ++ importantWord ++ rest) =
      some (⟨.important, '!' :: blanks ++ importantWord⟩, rest) := by
  have hword : beginsWithAny isInnerBlank (importantWord ++ rest) = false := rfl
  have hscan : scanImportant? ('!' :: (blanks ++ (importantWord ++ rest))) =
      some (⟨.important, '!' :: blanks ++ importantWord⟩, rest) := by
    rw [scanImportant?, dropWhile_append_eq hblanks hword, takeWhile_append_eq hblanks hword,
      after?_append]
  simp only [List.append_assoc, List.cons_append]
  rw [scan?_cons (by decide) (by decide), hscan]
  rfl

/-- A token that ends where it may end is found. -/
theorem scan?_of_ends (h : Ends token rest) : scan? (token.text ++ rest) = some (token, rest) := by
  cases h with
  | numeric h => exact scan?_of_number h
  | ident hname hrest hcall =>
    exact scan?_of_name hname.startsNumber (scanNamed?_of_name hname hrest hcall)
  | function hname hurl hdashes =>
    rw [List.append_assoc]
    refine scan?_of_name hname.startsNumber ?_
    simp only [scanNamed?, List.singleton_append, spanName?_call hname, if_neg hurl, if_neg hdashes]
  | urlFunction hrest =>
    rw [List.append_assoc]
    exact scan?_of_name isName_urlName.startsNumber
      ((scanNamed?_url _).trans (scanUrl?_of_quote hrest))
  | url haddress =>
    rw [List.append_assoc, List.append_assoc]
    exact scan?_of_name isName_urlName.startsNumber
      ((scanNamed?_url _).trans (scanUrl?_of_address haddress))
  | doubleQuoted hinner => exact scan?_of_quoted (.inl ⟨rfl, rfl⟩) hinner rest
  | singleQuoted hinner => exact scan?_of_quoted (.inr ⟨rfl, rfl⟩) hinner rest
  | hash hne hname hrest => exact scan?_of_hash hne hname hrest
  | important hblanks => exact scan?_of_important hblanks rest
  | punctuation hkind hnumber hname => exact scan?_of_punctuation hkind hnumber hname

/-- A token is found just if it stands in front and ends where it may end. -/
theorem scan?_eq_some_iff :
    scan? cs = some (token, rest) ↔ cs = token.text ++ rest ∧ Ends token rest := by
  constructor
  · intro h
    exact ⟨(splits_scan? cs token rest h).1.symm, ends_of_scan? h⟩
  · rintro ⟨rfl, h⟩
    exact scan?_of_ends h

end Scan

theorem isMantissaChar_of_startsNumber {cs : List Char} (h : startsNumber cs) :
    beginsWithAny isMantissaChar cs := by
  cases cs with
  | nil => exact h
  | cons c cs =>
    by_contra hc
    rw [startsNumber_cons (by simpa using hc)] at h
    contradiction

/-- What begins with a character of one class does not begin with one of a class apart from it. -/
theorem beginsWithAny_eq_false {p q : Char → Bool} {cs : List Char} (h : beginsWithAny p cs)
    (hpq : ∀ c, q c → p c = false) : beginsWithAny q cs = false := by
  cases cs with
  | nil => rfl
  | cons c cs =>
    rw [beginsWithAny_cons] at *
    by_contra hq
    rw [hpq c (by simpa using hq)] at h
    contradiction

theorem forall_of_isGap {p : Char → Bool}
    (h : [' ', '\t', '\r', '\n', '\x0c'].all (!p ·)) (c : Char) (hc : isGap c) : p c = false := by
  have hnot := List.all_eq_true.1 h c (by simpa [isGap, or_assoc] using hc)
  simpa using hnot

/-- A text that begins with a gap does not begin with a character of a class without blanks. -/
theorem beginsWithAny_of_isGap {p : Char → Bool} {cs : List Char} (hgap : beginsWithAny isGap cs)
    (h : [' ', '\t', '\r', '\n', '\x0c'].all (!p ·)) : beginsWithAny p cs = false := by
  cases cs with
  | nil => rfl
  | cons c cs => exact forall_of_isGap h c hgap

/-- In front of a text that begins with such a character there is no gap. -/
theorem gap_eq_nil {p : Char → Bool} {gap cs : List Char}
    (h : [' ', '\t', '\r', '\n', '\x0c'].all (!p ·)) (hgap : ∀ c ∈ gap, isGap c)
    (hbegins : beginsWithAny p (gap ++ cs)) : gap = [] := by
  cases gap with
  | nil => rfl
  | cons c gap =>
    have hnot := forall_of_isGap h c (hgap c List.mem_cons_self)
    rw [List.cons_append, beginsWithAny_cons, hnot] at hbegins
    contradiction

/-- A numeric token begins with a digit, a sign or a point. -/
theorem begins_of_scanNumeric? {cs : List Char} {result : Token × List Char}
    (h : scanNumeric? cs = some result) : beginsWithAny isMantissaChar cs := by
  refine isMantissaChar_of_startsNumber ?_
  by_contra hnot
  rw [scanNumeric?_eq_none_iff.2 (by simpa using hnot)] at h
  contradiction

/-- A name begins with no blank. -/
theorem IsName.front {name rest : List Char} (h : IsName name) :
    beginsWithAny isGap (name ++ rest) = false :=
  beginsWithAny_eq_false h.begins (forall_of_isGap (by decide))

/-- No token is empty. -/
theorem Ends.text_ne_nil {token : Token} {rest : List Char} (h : Ends token rest) :
    token.text ≠ [] :=
  (splits_scan? _ token rest (scan?_of_ends h)).2

/-- A token does not begin with a gap. -/
theorem Ends.front {token : Token} {rest : List Char} (h : Ends token rest) :
    beginsWithAny isGap (token.text ++ rest) = false := by
  cases h with
  | numeric h =>
    exact beginsWithAny_eq_false (begins_of_scanNumeric? h) (forall_of_isGap (by decide))
  | ident hname _ _ => exact hname.front
  | function hname _ _ =>
    rw [List.append_assoc]
    exact hname.front
  | urlFunction _ => rfl
  | url _ => rfl
  | doubleQuoted _ => rfl
  | singleQuoted _ => rfl
  | hash _ _ _ => rfl
  | important _ => rfl
  | punctuation hkind _ _ => exact (punctuation_apart hkind).2.1

/-- A numeric token is a number or a dimension. -/
theorem scanNumeric?_kind {cs rest : List Char} {token : Token}
    (h : scanNumeric? cs = some (token, rest)) :
    token.kind = .number ∨ token.kind = .dimension := by
  simp only [scanNumeric?] at h
  split at h
  · contradiction
  · split at h
    · obtain ⟨rfl, -⟩ := by simpa using h
      exact .inl rfl
    · split at h
      · obtain ⟨rfl, -⟩ := by simpa using h
        exact .inl rfl
      · obtain ⟨rfl, -⟩ := by simpa using h
        exact .inr rfl

/-- Punctuation is a single sign. -/
theorem Ends.punctuation_of_kind {token : Token} {rest : List Char} (h : Ends token rest)
    (hkind : token.kind.isPunctuation) :
    ∃ c, punctuation? c = some token.kind ∧ token.text = [c] := by
  cases h with
  | numeric h =>
    obtain h | h := scanNumeric?_kind h <;> simp [h, Kind.isPunctuation] at hkind
  | punctuation hchar _ _ => exact ⟨_, hchar, rfl⟩
  | _ => simp [Kind.isPunctuation] at hkind

/-- The tokens in front of which blanks are dropped, `!important` apart. -/
theorem Ends.closing {token : Token} {rest : List Char} (h : Ends token rest)
    (hkind : token.kind = .rightParen ∨ token.kind = .comma ∨ token.kind = .slash) :
    ∃ c, token = ⟨token.kind, [c]⟩ ∧ punctuation? c = some token.kind ∧
      (c = ')' ∨ c = ',' ∨ c = '/') := by
  obtain ⟨kind, text⟩ := token
  have hpunctuation : kind.isPunctuation := by
    obtain rfl | rfl | rfl := hkind <;> rfl
  obtain ⟨c, hc, rfl⟩ := h.punctuation_of_kind hpunctuation
  exact ⟨c, rfl, hc, closing_of_punctuation? hc hkind⟩

/-- An address begins with its name. -/
theorem Ends.text_of_url {token : Token} {rest : List Char} (h : Ends token rest)
    (hkind : token.kind = .url) : ∃ address, token.text = urlName ++ '(' :: address := by
  cases h with
  | numeric h => obtain h | h := scanNumeric?_kind h <;> simp [h] at hkind
  | @url address _ _ => exact ⟨address ++ [')'], by simp⟩
  | punctuation hchar _ _ =>
    obtain rfl : _ = Kind.url := hkind
    exact absurd (isPunctuation_kind hchar) Bool.false_ne_true
  | _ => contradiction

theorem Ends.text_of_important {token : Token} {rest : List Char} (h : Ends token rest)
    (hkind : token.kind = .important) : ∃ word, token.text = '!' :: word := by
  cases h with
  | numeric h => obtain h | h := scanNumeric?_kind h <;> simp [h] at hkind
  | @important blanks _ _ => exact ⟨blanks ++ importantWord, by simp⟩
  | punctuation hchar _ _ =>
    obtain rfl : _ = Kind.important := hkind
    exact absurd (isPunctuation_kind hchar) Bool.false_ne_true
  | _ => contradiction

/-- A token that begins with a quote is a string. -/
theorem Ends.string_of_quote {token : Token} {rest : List Char} (h : Ends token rest)
    (hquote : beginsWithAny isQuote (token.text ++ rest)) :
    (∃ inner, token = ⟨.doubleQuoted, '"' :: inner ++ ['"']⟩ ∧ IsInner '"' inner) ∨
      ∃ inner, token = ⟨.singleQuoted, '\'' :: inner ++ ['\'']⟩ ∧ IsInner '\'' inner := by
  have hapart : ∀ p : Char → Bool, beginsWithAny p (token.text ++ rest) →
      p '"' = false → p '\'' = false → False := by
    intro p hp hdouble hsingle
    have hnot := beginsWithAny_eq_false (q := isQuote) hp fun c hc => by
      obtain rfl | rfl : c = '"' ∨ c = '\'' := by simpa [isQuote] using hc
      · exact hdouble
      · exact hsingle
    rw [hquote] at hnot
    contradiction
  -- What all other tokens begin with is no quote.
  cases h with
  | numeric h => exact (hapart _ (begins_of_scanNumeric? h) (by decide) (by decide)).elim
  | ident hname _ _ => exact (hapart _ hname.begins (by decide) (by decide)).elim
  | function hname _ _ =>
    refine (hapart isNameChar ?_ (by decide) (by decide)).elim
    rw [List.append_assoc]
    exact hname.begins
  | doubleQuoted hinner => exact .inl ⟨_, rfl, hinner⟩
  | singleQuoted hinner => exact .inr ⟨_, rfl, hinner⟩
  | punctuation hkind _ _ =>
    rw [List.singleton_append, beginsWithAny_cons, (punctuation_apart hkind).2.2.1] at hquote
    contradiction
  | _ => exact absurd hquote (by simp [isQuote, urlName])

/-! ## What a whole text is read as -/

/-- A text is read as lexemes: blanks, a token that ends there, and so on, and blanks at the end. -/
inductive Reads : List Char → List Lexeme → Prop
  | nil {blanks : List Char} (hblanks : ∀ c ∈ blanks, isGap c) : Reads blanks []
  | cons {gap rest : List Char} {token : Token} {lexemes : List Lexeme} (hgap : ∀ c ∈ gap, isGap c)
    (hends : Ends token rest) (hrest : Reads rest lexemes) :
    Reads (gap ++ (token.text ++ rest)) (⟨gap, token⟩ :: lexemes)

/-- What the lexer finds reads the text. -/
theorem reads_of_lex {cs : List Char} {lexemes : List Lexeme} (h : lex cs = .ok lexemes) :
    Reads cs lexemes := by
  fun_induction lex cs generalizing lexemes with
  | case1 cs hgap =>
    obtain rfl := by simpa using h
    -- Only blanks are left.
    refine .nil ?_
    rw [← List.takeWhile_append_dropWhile (p := isGap) (l := cs), hgap, List.append_nil]
    exact forall_mem_takeWhile
  | case2 => simp at h
  | case3 => simp_all
  | case4 cs c more hgap token rest hscan _ lexemes' hlex ih =>
    obtain rfl := by simpa using h
    obtain ⟨hsplit, hends⟩ := scan?_eq_some_iff.1 hscan
    have hcs := List.takeWhile_append_dropWhile (p := isGap) (l := cs)
    rw [hgap, hsplit] at hcs
    have hreads : Reads (cs.takeWhile isGap ++ (token.text ++ rest))
        (⟨cs.takeWhile isGap, token⟩ :: lexemes') :=
      .cons forall_mem_takeWhile hends (ih hlex)
    rwa [hcs] at hreads

/-- What reads the text is found by the lexer. -/
theorem lex_of_reads {cs : List Char} {lexemes : List Lexeme} (h : Reads cs lexemes) :
    lex cs = .ok lexemes := by
  induction h with
  | @nil blanks hblanks =>
    have hgap : blanks.dropWhile isGap = [] := List.dropWhile_eq_nil_iff.2 hblanks
    rw [lex]
    split
    · rfl
    · simp_all
  | @cons gap rest token lexemes hgap hends _ ih =>
    -- No token begins with a gap, so that all of the gap is skipped and nothing else.
    have hdrop := dropWhile_append_eq hgap hends.front
    have htake := takeWhile_append_eq hgap hends.front
    have hne : token.text ++ rest ≠ [] := by simp [hends.text_ne_nil]
    rw [lex]
    split
    · simp_all
    · rename_i c more heq
      rw [hdrop] at heq
      split
      · rename_i hscan
        rw [← heq, scan?_of_ends hends] at hscan
        contradiction
      · rename_i token' rest' hscan
        rw [← heq, scan?_of_ends hends] at hscan
        obtain ⟨rfl, rfl⟩ := by simpa using hscan
        simp only [ih, htake]

/-- The lexer finds just what reads the text. -/
theorem lex_eq_ok_iff {cs : List Char} {lexemes : List Lexeme} :
    lex cs = .ok lexemes ↔ Reads cs lexemes :=
  ⟨reads_of_lex, lex_of_reads⟩

/-- A text is read in one way. -/
theorem Reads.unique {cs : List Char} {lexemes others : List Lexeme} (h : Reads cs lexemes)
    (hothers : Reads cs others) : lexemes = others := by
  have hlex := lex_of_reads h
  rw [lex_of_reads hothers] at hlex
  exact (Except.ok.inj hlex).symm

/-- Each token that is read ends in front of what follows it. -/
theorem Reads.exists_ends {cs : List Char} {lexemes : List Lexeme} (h : Reads cs lexemes) :
    ∀ lexeme ∈ lexemes, ∃ rest, Ends lexeme.token rest := by
  induction h with
  | nil => exact List.forall_mem_nil _
  | cons _ hends _ ih => exact List.forall_mem_cons.2 ⟨⟨_, hends⟩, ih⟩

end AtomicCss.Token

namespace AtomicCss

open Token (Reads Ends)

/-- Lexemes are spelled one after the other, each with the gap in front of it. -/
theorem Lexeme.spell_cons (lexeme : Lexeme) (rest : List Lexeme) :
    spell (lexeme :: rest) = lexeme.gap ++ (lexeme.token.text ++ spell rest) := by
  simp [spell]

/-- Where the text of lexemes is read as them, the first token ends in front of the others, and these
are read from their own text. -/
theorem reads_spell_cons {lexeme : Lexeme} {rest : List Lexeme}
    (h : Reads (Lexeme.spell (lexeme :: rest)) (lexeme :: rest)) :
    Ends lexeme.token (Lexeme.spell rest) ∧ Reads (Lexeme.spell rest) rest := by
  rw [Lexeme.spell_cons] at h
  generalize htext : lexeme.gap ++ (lexeme.token.text ++ Lexeme.spell rest) = cs at h
  cases h with
  | cons hgap hends hrest =>
    obtain rfl := List.append_cancel_left (List.append_cancel_left htext)
    exact ⟨hends, hrest⟩

/-- Where the spelling of lexemes is read as these, the first one ends where it may end. -/
theorem ends_of_reads_spell {lexeme : Lexeme} {rest : List Lexeme}
    (h : Reads (Lexeme.spell (lexeme :: rest)) (lexeme :: rest)) :
    Ends lexeme.token (Lexeme.spell rest) :=
  (reads_spell_cons h).1

end AtomicCss
