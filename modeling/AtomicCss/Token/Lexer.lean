import AtomicCss.Text.Affix
import AtomicCss.Token.Basic
import AtomicCss.Token.Number
/-!
# Reading tokens

`lex` cuts a text into lexemes, or gives the rest of the text at which no token starts. At each
place the longest token is taken. A few starts need care:

* a sign or a point begins a number if one can be read there, and stands alone otherwise;
* an `e` that is followed by a sign but no digits stays with the number in front of it;
* `url(` takes everything up to the closing parenthesis if no quote comes first; it is a function
  only in front of a quote or the end of the text, and otherwise nothing at all.

Main statement: the lexemes spell the text, up to blanks at its end (`spell_lex`).
-/

namespace AtomicCss.Token

/-- The blanks between tokens. -/
def isGap (c : Char) : Bool :=
  c == ' ' || c == '\t' || c == '\r' || c == '\n' || c == '\x0c'

def isNameStart (c : Char) : Bool :=
  c.isAlpha || c == '_'

def isNameChar (c : Char) : Bool :=
  c.isAlphanum || c == '_' || c == '-'

/-! ## The kinds of tokens -/

/-- A number, or a dimension if a unit follows it. -/
def scanNumeric? (cs : List Char) : Option (Token × List Char) :=
  match spanMantissa? cs with
  | none => none
  | some (mantissa, rest) =>
    if startsDanglingExponent rest then
      some (⟨.number, mantissa ++ rest.take 1⟩, rest.drop 1)
    else
      let (exponent, rest) := spanExponent rest
      let (unit, rest) := spanUnit rest
      if unit.isEmpty then some (⟨.number, mantissa ++ exponent⟩, rest)
      else some (⟨.dimension, mantissa ++ exponent ++ unit⟩, rest)

/-- At most two dashes, a letter or underscore, and name characters. -/
def spanName? : List Char → Option (List Char × List Char)
  | '-' :: '-' :: c :: rest =>
    if isNameStart c then
      some ('-' :: '-' :: c :: rest.takeWhile isNameChar, rest.dropWhile isNameChar)
    else none
  | '-' :: c :: rest =>
    if isNameStart c then some ('-' :: c :: rest.takeWhile isNameChar, rest.dropWhile isNameChar)
    else none
  | c :: rest =>
    if isNameStart c then some (c :: rest.takeWhile isNameChar, rest.dropWhile isNameChar)
    else none
  | [] => none

/-- Characters that end an unquoted address. -/
def endsAddress (c : Char) : Bool :=
  c == ')' || c == '"' || c == '\''

/-- The name of the function whose argument may stand without quotes. -/
def urlName : List Char := ['u', 'r', 'l']

/-- What stands after `url(`. -/
def scanUrl? (rest : List Char) : Option (Token × List Char) :=
  match rest.dropWhile (!endsAddress ·) with
  | ')' :: left =>
    some (⟨.url, urlName ++ '(' :: rest.takeWhile (!endsAddress ·) ++ [')']⟩, left)
  | _ =>
    match rest with
    | [] => some (⟨.function, urlName ++ ['(']⟩, [])
    | c :: left =>
      if c = '"' ∨ c = '\'' then some (⟨.function, urlName ++ ['(']⟩, c :: left) else none

/-- A name, with the parenthesis if one follows; two dashes begin no function. -/
def scanNamed? (cs : List Char) : Option (Token × List Char) :=
  match spanName? cs with
  | none => none
  | some (name, '(' :: rest) =>
    if name = urlName then scanUrl? rest
    else if name.take 2 = ['-', '-'] then some (⟨.ident, name⟩, '(' :: rest)
    else some (⟨.function, name ++ ['(']⟩, rest)
  | some (name, rest) => some (⟨.ident, name⟩, rest)

/-- A string after its opening quote. A backslash takes the next character with it, which may be
anything but a line feed. -/
def spanString? (quote : Char) : List Char → Option (List Char × List Char)
  | [] => none
  | '\\' :: [] => none
  | '\\' :: c :: rest =>
    if c = '\n' then none
    else (spanString? quote rest).map fun (inner, left) => ('\\' :: c :: inner, left)
  | c :: rest =>
    if c = quote then some ([c], rest)
    else (spanString? quote rest).map fun (inner, left) => (c :: inner, left)

def scanString? : List Char → Option (Token × List Char)
  | '"' :: rest =>
    (spanString? '"' rest).map fun (inner, left) => (⟨.doubleQuoted, '"' :: inner⟩, left)
  | '\'' :: rest =>
    (spanString? '\'' rest).map fun (inner, left) => (⟨.singleQuoted, '\'' :: inner⟩, left)
  | _ => none

def scanHash? : List Char → Option (Token × List Char)
  | '#' :: c :: rest =>
    if isNameChar c then
      some (⟨.hash, '#' :: c :: rest.takeWhile isNameChar⟩, rest.dropWhile isNameChar)
    else none
  | _ => none

/-- The blanks that may stand inside `!important`. -/
def isInnerBlank (c : Char) : Bool :=
  c == ' ' || c == '\t'

/-- The word after the exclamation mark. -/
def importantWord : List Char := ['i', 'm', 'p', 'o', 'r', 't', 'a', 'n', 't']

def scanImportant? : List Char → Option (Token × List Char)
  | '!' :: rest =>
    match after? importantWord (rest.dropWhile isInnerBlank) with
    | some left => some (⟨.important, '!' :: rest.takeWhile isInnerBlank ++ importantWord⟩, left)
    | none => none
  | _ => none

/-- The kind of a character that is a token of its own. -/
def punctuation? : Char → Option Kind
  | '(' => some .leftParen
  | ')' => some .rightParen
  | ',' => some .comma
  | '/' => some .slash
  | '+' => some .plus
  | '-' => some .minus
  | '*' => some .star
  | ':' => some .colon
  | '=' | '<' | '>' | '.' | '?' | '&' | '|' | '^' | '~' | '%' => some .delim
  | _ => none

def scanPunctuation? : List Char → Option (Token × List Char)
  | [] => none
  | c :: rest => (punctuation? c).map fun kind => (⟨kind, [c]⟩, rest)

/-- The token at the front of a text, and what follows it. -/
def scan? (cs : List Char) : Option (Token × List Char) :=
  scanNumeric? cs
    <|> scanNamed? cs
    <|> scanString? cs
    <|> scanHash? cs
    <|> scanImportant? cs
    <|> scanPunctuation? cs

/-! ## A token and its rest spell the text -/

/-- A scanner splits the text and takes at least one character of it. -/
def Splits (cs : List Char) (result : Option (Token × List Char)) : Prop :=
  ∀ token rest, result = some (token, rest) → token.text ++ rest = cs ∧ token.text ≠ []

/-- Trying something else where nothing was found keeps the text whole. -/
theorem Splits.orElse {cs : List Char} {a : Option (Token × List Char)}
    {b : Unit → Option (Token × List Char)} (ha : Splits cs a) (hb : Splits cs (b ())) :
    Splits cs (a.orElse b) := by
  cases a with
  | none => exact hb
  | some => exact ha

/-- A number or a dimension is cut off the front of the text. -/
theorem splits_scanNumeric? (cs : List Char) : Splits cs (scanNumeric? cs) := by
  intro token rest h
  simp only [scanNumeric?] at h
  split at h
  · simp at h
  · rename_i mantissa left hm
    obtain ⟨hcs, hne⟩ := spanMantissa?_append hm
    have he := spanExponent_append left
    have hu := spanUnit_append (spanExponent left).2
    split at h
    · -- The number was cut short behind the letter of an exponent.
      obtain ⟨rfl, rfl⟩ := by simpa using h
      refine ⟨?_, by simp [hne]⟩
      have hleft := List.take_append_drop 1 left
      rw [List.drop_one] at hleft
      rw [List.append_assoc, hleft, hcs]
    · split at h
      · rename_i hempty
        obtain ⟨rfl, rfl⟩ := by simpa using h
        refine ⟨?_, by simp [hne]⟩
        have hnil : (spanUnit (spanExponent left).2).1 = [] := by simpa using hempty
        rw [hnil] at hu
        simp only [List.nil_append] at hu
        rw [List.append_assoc, hu, he, hcs]
      · obtain ⟨rfl, rfl⟩ := by simpa using h
        refine ⟨?_, by simp [hne]⟩
        rw [List.append_assoc, List.append_assoc, hu, he, hcs]

/-- A name and what is left make up the text, and the name is not empty. -/
theorem spanName?_append {cs name rest : List Char} (h : spanName? cs = some (name, rest)) :
    name ++ rest = cs ∧ name ≠ [] := by
  unfold spanName? at h
  split at h
  all_goals first
    | (split at h
       · obtain ⟨rfl, rfl⟩ := by simpa using h
         simp
       · simp at h)
    | simp at h

/-- A url with everything up to its parenthesis is cut off the front of the text. -/
theorem splits_scanUrl? (rest : List Char) :
    Splits (urlName ++ '(' :: rest) (scanUrl? rest) := by
  intro token left h
  unfold scanUrl? at h
  split at h
  · rename_i left' hdrop
    obtain ⟨rfl, rfl⟩ := by simpa using h
    refine ⟨?_, by simp⟩
    have hsplit := List.takeWhile_append_dropWhile (p := fun c => !endsAddress c) (l := rest)
    rw [hdrop] at hsplit
    simpa using hsplit
  · split at h
    · obtain ⟨rfl, rfl⟩ := by simpa using h
      simp
    · split at h
      · obtain ⟨rfl, rfl⟩ := by simpa using h
        simp
      · simp at h

/-- Functions, urls and identifiers are cut off the front of the text. -/
theorem splits_scanNamed? (cs : List Char) : Splits cs (scanNamed? cs) := by
  intro token rest h
  unfold scanNamed? at h
  split at h
  · simp at h
  · rename_i name left hname
    obtain ⟨hcs, hne⟩ := spanName?_append hname
    split at h
    · rename_i hurl
      subst hurl
      rw [← hcs]
      exact splits_scanUrl? left token rest h
    · split at h
      · obtain ⟨rfl, rfl⟩ := by simpa using h
        exact ⟨hcs, hne⟩
      · obtain ⟨rfl, rfl⟩ := by simpa using h
        exact ⟨by simpa using hcs, by simp⟩
  · rename_i name left hname
    obtain ⟨rfl, rfl⟩ := by simpa using h
    exact spanName?_append hname

/-- The inside of a string with its closing quote and what is left make up the text. -/
theorem spanString?_append {quote : Char} {cs inner left : List Char}
    (h : spanString? quote cs = some (inner, left)) : inner ++ left = cs := by
  fun_induction spanString? quote cs generalizing inner left with
  | case1 => simp at h
  | case2 => simp at h
  | case3 => simp at h
  | case4 c rest hc ih =>
    -- An escape keeps both of its characters.
    obtain ⟨⟨inner', left'⟩, hrest, heq⟩ := Option.map_eq_some_iff.1 h
    obtain ⟨rfl, rfl⟩ := by simpa using heq
    simp [ih hrest]
  | case5 =>
    obtain ⟨rfl, rfl⟩ := by simpa using h
    rfl
  | case6 c rest _ _ hc ih =>
    obtain ⟨⟨inner', left'⟩, hrest, heq⟩ := Option.map_eq_some_iff.1 h
    obtain ⟨rfl, rfl⟩ := by simpa using heq
    simp [ih hrest]

/-- A string with both quotes is cut off the front of the text. -/
theorem splits_scanString? (cs : List Char) : Splits cs (scanString? cs) := by
  intro token rest h
  unfold scanString? at h
  split at h
  · obtain ⟨⟨inner, left⟩, hspan, heq⟩ := Option.map_eq_some_iff.1 h
    obtain ⟨rfl, rfl⟩ := by simpa using heq
    simp [spanString?_append hspan]
  · obtain ⟨⟨inner, left⟩, hspan, heq⟩ := Option.map_eq_some_iff.1 h
    obtain ⟨rfl, rfl⟩ := by simpa using heq
    simp [spanString?_append hspan]
  · simp at h

/-- A hash with its name is cut off the front of the text. -/
theorem splits_scanHash? (cs : List Char) : Splits cs (scanHash? cs) := by
  intro token rest h
  unfold scanHash? at h
  split at h
  · split at h
    · obtain ⟨rfl, rfl⟩ := by simpa using h
      simp
    · simp at h
  · simp at h

/-- The word for importance is cut off the front of the text as it is written. -/
theorem splits_scanImportant? (cs : List Char) : Splits cs (scanImportant? cs) := by
  intro token rest h
  unfold scanImportant? at h
  split at h
  · rename_i word
    split at h
    · rename_i left hleft
      obtain ⟨rfl, rfl⟩ := by simpa using h
      have hword := append_of_after? hleft
      have hsplit := List.takeWhile_append_dropWhile (p := isInnerBlank) (l := word)
      rw [← hword] at hsplit
      exact ⟨by simpa using hsplit, by simp⟩
    · simp at h
  · simp at h

/-- A single sign is cut off the front of the text. -/
theorem splits_scanPunctuation? (cs : List Char) : Splits cs (scanPunctuation? cs) := by
  intro token rest h
  unfold scanPunctuation? at h
  split at h
  · simp at h
  · obtain ⟨kind, _, heq⟩ := Option.map_eq_some_iff.1 h
    obtain ⟨rfl, rfl⟩ := by simpa using heq
    simp

/-- Whatever token is found, its slice is cut off the front of the text. -/
theorem splits_scan? (cs : List Char) : Splits cs (scan? cs) :=
  (splits_scanNumeric? cs).orElse <| (splits_scanNamed? cs).orElse <|
    (splits_scanString? cs).orElse <| (splits_scanHash? cs).orElse <|
    (splits_scanImportant? cs).orElse (splits_scanPunctuation? cs)

/-- A token leaves less than there was, so the lexer comes to an end. -/
theorem length_scan?_lt {cs rest : List Char} {token : Token} (h : scan? cs = some (token, rest)) :
    rest.length < cs.length := by
  obtain ⟨hcs, hne⟩ := splits_scan? cs token rest h
  have hlength := congrArg List.length hcs
  have hpos := List.length_pos_iff.2 hne
  rw [List.length_append] at hlength
  omega

/-! ## Whole texts -/

/-- The same where blanks in front of the token are dropped first. -/
theorem length_rest_lt {cs gapless rest : List Char} {token : Token}
    (hgap : cs.dropWhile isGap = gapless) (hscan : scan? gapless = some (token, rest)) :
    rest.length < cs.length := by
  have hlt := length_scan?_lt hscan
  have hle : (cs.dropWhile isGap).length ≤ cs.length := (List.dropWhile_sublist isGap).length_le
  rw [hgap] at hle
  omega

/-- The lexemes of a text, or the rest of it at which no token starts. -/
def lex (cs : List Char) : Except (List Char) (List Lexeme) :=
  match hgap : cs.dropWhile isGap with
  | [] => .ok []
  | c :: more =>
    match hscan : scan? (c :: more) with
    | none => .error (c :: more)
    | some (token, rest) =>
      have := length_rest_lt hgap hscan
      match lex rest with
      | .error left => .error left
      | .ok lexemes => .ok (⟨cs.takeWhile isGap, token⟩ :: lexemes)
termination_by cs.length

/-- How many bytes stand in front of a rest of a text. -/
def offsetOf (cs rest : List Char) : Nat :=
  byteLength cs - byteLength rest

/-- The lexemes spell the text, up to blanks at its end. -/
theorem spell_lex {cs : List Char} {lexemes : List Lexeme} (h : lex cs = .ok lexemes) :
    ∃ blanks, Lexeme.spell lexemes ++ blanks = cs ∧ ∀ c ∈ blanks, isGap c := by
  fun_induction lex cs generalizing lexemes with
  | case1 cs hgap =>
    obtain rfl := by simpa using h
    -- Nothing but blanks is left.
    refine ⟨cs, rfl, fun c hc => ?_⟩
    have hcs := List.takeWhile_append_dropWhile (p := isGap) (l := cs)
    rw [hgap, List.append_nil] at hcs
    have hall := List.all_takeWhile (p := isGap) (l := cs)
    rw [hcs, List.all_eq_true] at hall
    exact hall c hc
  | case2 => simp at h
  | case3 => simp_all
  | case4 cs c more hgap token rest hscan _ lexemes' hlex ih =>
    obtain rfl := by simpa using h
    obtain ⟨blanks, hspell, hblanks⟩ := ih hlex
    refine ⟨blanks, ?_, hblanks⟩
    have hsplit := (splits_scan? _ token rest hscan).1
    have hcs := List.takeWhile_append_dropWhile (p := isGap) (l := cs)
    rw [hgap, ← hsplit, ← hspell] at hcs
    simpa [Lexeme.spell] using hcs

end AtomicCss.Token
