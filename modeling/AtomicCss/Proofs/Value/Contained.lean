import AtomicCss.Proofs.Text.Lowercase
import AtomicCss.Proofs.Value.Source
/-!
# Values stay inside their declarations

`Reader` reads a value character by character as a stylesheet is read: strings end at their quote,
addresses at their parenthesis, and elsewhere parentheses are counted and braces and semicolons are
not allowed. A value that it reads to its end (`isContained`) takes nothing that stands behind it.
-/

namespace AtomicCss

open Token (forall_of_isGap Ends Reads IsName IsInner beginsWithAny isNameChar isQuote urlName)

/-- Where a reader of a value stands. -/
inductive Place where
  /-- Outside of strings and addresses, behind the characters of a word. -/
  | outside (word : List Char)
  /-- Behind `url(`, where a quote begins a string and anything else an address. -/
  | opening
  | address
  | addressEscape
  | string (quote : Char)
  | stringEscape (quote : Char)
deriving DecidableEq, Repr

/-- A reader of a value: its place, and how many parentheses are open there. -/
structure Reader where
  place : Place
  depth : Nat
deriving DecidableEq, Repr

def isLineBreak (c : Char) : Bool :=
  c == '\n' || c == '\r' || c == '\x0c'

def isWordChar (c : Char) : Bool :=
  isNameChar c || c == '#'

namespace Reader

/-- Inside an address, which ends at a parenthesis that no backslash escapes. -/
def readAddress (depth : Nat) (c : Char) : Reader :=
  if c = ')' then ⟨.outside [], depth⟩
  else if c = '\\' then ⟨.addressEscape, depth⟩
  else ⟨.address, depth⟩

def readOutside? (depth : Nat) (word : List Char) (c : Char) : Option Reader :=
  if isWordChar c then some ⟨.outside (word ++ [c]), depth⟩
  else if c = '(' then
    some (if lowercase word = urlName then ⟨.opening, depth⟩ else ⟨.outside [], depth + 1⟩)
  else if c = ')' then
    match depth with
    | 0 => none
    | depth + 1 => some ⟨.outside [], depth⟩
  else if isQuote c then some ⟨.string c, depth⟩
  else if c = '\x7b' ∨ c = '\x7d' ∨ c = ';' then none
  else some ⟨.outside [], depth⟩

/-- The reader behind one more character, if that may stand there. -/
def read? (r : Reader) (c : Char) : Option Reader :=
  match r.place with
  | .outside word => readOutside? r.depth word c
  | .opening =>
    if Token.isGap c then some r
    else if isQuote c then some ⟨.string c, r.depth + 1⟩
    else some (readAddress r.depth c)
  | .address => some (readAddress r.depth c)
  | .addressEscape => some ⟨.address, r.depth⟩
  | .string quote =>
    if c = quote then some ⟨.outside [], r.depth⟩
    else if c = '\\' then some ⟨.stringEscape quote, r.depth⟩
    else if isLineBreak c then none
    else some r
  | .stringEscape quote => if isLineBreak c then none else some ⟨.string quote, r.depth⟩

def run? (r : Reader) (text : List Char) : Option Reader :=
  text.foldlM read? r

/-- Whether nothing is open. -/
def isClosed (r : Reader) : Bool :=
  match r.place with
  | .outside _ => r.depth == 0
  | _ => false

end Reader

/-- Whether a text is read to its end, with every string, address and parenthesis closed. -/
def isContained (text : List Char) : Bool :=
  ((⟨.outside [], 0⟩ : Reader).run? text).any Reader.isClosed

namespace Reader

/-- A text is read part by part. -/
theorem run?_append (r : Reader) (a b : List Char) :
    r.run? (a ++ b) = (r.run? a).bind fun r => r.run? b :=
  List.foldlM_append

theorem run?_cons (r : Reader) (c : Char) (cs : List Char) :
    r.run? (c :: cs) = (r.read? c).bind fun r => r.run? cs :=
  List.foldlM_cons

/-! ## Strings and addresses -/

/-- A string ends where it does, and the reader is outside again. -/
theorem run?_string {quote : Char} {inner : List Char} (depth : Nat) (hquote : quote ≠ '\\')
    (h : IsInner quote inner) (hlines : ∀ c ∈ inner, isLineBreak c = false) :
    run? ⟨.string quote, depth⟩ (inner ++ [quote]) = some ⟨.outside [], depth⟩ := by
  -- By induction on the inside, each step of which leaves the reader in the string.
  induction h with
  | nil => simp [read?, run?]
  | @escaped c inner _ _ ih =>
    obtain ⟨-, hc, hlines⟩ := by simpa using hlines
    have hstep : run? ⟨.string quote, depth⟩ ('\\' :: c :: (inner ++ [quote])) =
        run? ⟨.string quote, depth⟩ (inner ++ [quote]) := by
      simp [run?_cons, read?, hc, hquote.symm]
    exact hstep.trans (ih hlines)
  | @plain c inner hne hslash _ ih =>
    obtain ⟨hc, hlines⟩ := List.forall_mem_cons.1 hlines
    have hstep : run? ⟨.string quote, depth⟩ (c :: (inner ++ [quote])) =
        run? ⟨.string quote, depth⟩ (inner ++ [quote]) := by
      simp [run?_cons, read?, hne, hslash, hc]
    exact hstep.trans (ih hlines)

/-- Whether no backslash at the end of an address escapes the parenthesis behind it. -/
def closesAddress : List Char → Bool
  | [] => true
  | ['\\'] => false
  | '\\' :: _ :: rest => closesAddress rest
  | _ :: rest => closesAddress rest

/-- An address ends with its parenthesis, and the reader is outside again. -/
theorem run?_address {address : List Char} (depth : Nat) (hclose : closesAddress address)
    (hparen : ∀ c ∈ address, c ≠ ')') :
    run? ⟨.address, depth⟩ (address ++ [')']) = some ⟨.outside [], depth⟩ := by
  fun_induction closesAddress address with
  | case1 => rfl
  | case2 => simp at hclose
  | case3 c rest ih =>
    have hstep : run? ⟨.address, depth⟩ ('\\' :: c :: (rest ++ [')'])) =
        run? ⟨.address, depth⟩ (rest ++ [')']) := rfl
    exact hstep.trans (ih hclose fun d hd => hparen d (by simp [hd]))
  | case4 c rest hlast hescape ih =>
    have hslash : c ≠ '\\' := by
      rintro rfl
      cases rest with
      | nil => exact hlast rfl rfl
      | cons d rest => exact hescape d rest rfl rfl
    have hstep : run? ⟨.address, depth⟩ (c :: (rest ++ [')'])) =
        run? ⟨.address, depth⟩ (rest ++ [')']) := by
      simp [run?_cons, read?, readAddress, hslash, hparen c]
    exact hstep.trans (ih hclose fun d hd => hparen d (by simp [hd]))

/-- The blanks in front of an address are read like the address. -/
theorem run?_opening {address : List Char} (depth : Nat) (hclose : closesAddress address)
    (haddress : ∀ c ∈ address, !Token.endsAddress c) :
    run? ⟨.opening, depth⟩ (address ++ [')']) = some ⟨.outside [], depth⟩ := by
  have hparen : ∀ c ∈ address, c ≠ ')' := by
    rintro c hc rfl
    exact absurd (haddress _ hc) (by decide)
  induction address with
  | nil => rfl
  | cons c rest ih =>
    have hquote : isQuote c = false := by
      have hc := haddress c (by simp)
      simp only [Token.endsAddress, Bool.not_or, Bool.and_eq_true] at hc
      simpa [isQuote] using And.intro hc.1.2 hc.2
    -- A blank leaves the reader waiting, and anything else begins the address.
    cases hgap : Token.isGap c with
    | true =>
      have hslash : c ≠ '\\' := by
        rintro rfl
        exact absurd hgap (by decide)
      have hclose' : closesAddress rest := by
        rwa [closesAddress] at hclose
        · exact fun h => absurd h hslash
        · exact fun _ _ h => absurd h hslash
      have hstep : run? ⟨.opening, depth⟩ (c :: (rest ++ [')'])) =
          run? ⟨.opening, depth⟩ (rest ++ [')']) := by
        simp [run?_cons, read?, hgap]
      exact hstep.trans (ih hclose' (fun d hd => haddress d (by simp [hd]))
        fun d hd => hparen d (by simp [hd]))
    | false =>
      have hstep : run? ⟨.opening, depth⟩ (c :: (rest ++ [')'])) =
          run? ⟨.address, depth⟩ (c :: (rest ++ [')'])) := by
        simp [run?_cons, read?, hgap, hquote]
      exact hstep.trans (run?_address depth hclose hparen)

/-! ## Words -/

/-- A word is read as one. -/
theorem run?_word {cs word : List Char} (depth : Nat) (h : ∀ c ∈ cs, isWordChar c) :
    run? ⟨.outside word, depth⟩ cs = some ⟨.outside (word ++ cs), depth⟩ := by
  induction cs generalizing word with
  | nil => simp [run?]
  | cons c cs ih =>
    obtain ⟨hc, hcs⟩ := List.forall_mem_cons.1 h
    simp [run?_cons, read?, readOutside?, hc, ih hcs]

end Reader

/-! ## Words that are not `url` -/

/-- Whether a word has a character that `url` does not have. -/
def isOdd (word : List Char) : Bool :=
  word.any fun c => !urlName.contains c.toLower

/-- An odd word does not spell `url`. -/
theorem lowercase_ne_of_isOdd {word : List Char} (h : isOdd word) : lowercase word ≠ urlName := by
  intro heq
  obtain ⟨c, hc, hodd⟩ := List.any_eq_true.1 h
  have hmem : c.toLower ∈ lowercase word := List.mem_map_of_mem hc
  rw [heq] at hmem
  simp [hmem] at hodd

theorem isOdd_append {a b : List Char} : isOdd (a ++ b) = (isOdd a || isOdd b) :=
  List.any_append

theorem isOdd_of_isDigit {cs : List Char} (hne : cs ≠ []) (h : ∀ c ∈ cs, c.isDigit) : isOdd cs := by
  cases cs with
  | nil => exact absurd rfl hne
  | cons c cs =>
    have hc := h c (by simp)
    have hnot : c.toLower ∉ urlName := by
      rw [Decimal.toLower_of_isDigit hc]
      intro hmem
      have hall := List.all_eq_true.1 (show urlName.all (!·.isDigit) by decide) c hmem
      simp [hc] at hall
    simp [isOdd, hnot]

namespace Reader

/-- A numeral ends in a word with a digit. -/
theorem run?_spell (n : Decimal.Numeral) (word : List Char) (depth : Nat) :
    ∃ other, run? ⟨.outside word, depth⟩ n.spell = some ⟨.outside other, depth⟩ ∧ isOdd other := by
  have hdigit : ∀ {c : Char}, c.isDigit → isWordChar c := by
    intro c hc
    simp [isWordChar, isNameChar, Char.isAlphanum, hc]
  have hsign : ∀ c ∈ (if n.negative then ['-'] else []), isWordChar c := by
    cases n.negative <;> exact List.all_eq_true.1 (by decide)
  have hwhole : ∀ c ∈ n.whole, isWordChar c := fun c hc => hdigit (n.isDigit_whole c hc)
  have hfront : run? ⟨.outside word, depth⟩ ((if n.negative then ['-'] else []) ++ n.whole) =
      some ⟨.outside (word ++ ((if n.negative then ['-'] else []) ++ n.whole)), depth⟩ :=
    run?_word depth fun c hc => (List.mem_append.1 hc).elim (hsign c) (hwhole c)
  rw [Decimal.Numeral.spell, ← List.append_assoc, run?_append, hfront]
  -- A point ends the word, so the digits are in the whole or begin a word behind the point.
  by_cases hnil : n.fraction = []
  · have hne : n.whole ≠ [] := by simpa [hnil] using n.digits_ne_nil
    refine ⟨word ++ ((if n.negative then ['-'] else []) ++ n.whole),
      by simp [Decimal.Numeral.point, hnil, run?], ?_⟩
    simp [isOdd_append, isOdd_of_isDigit hne n.isDigit_whole]
  · have hpoint : ∀ w, run? ⟨.outside w, depth⟩ ('.' :: n.fraction) =
        run? ⟨.outside [], depth⟩ n.fraction := fun _ => rfl
    refine ⟨n.fraction, ?_, isOdd_of_isDigit hnil n.isDigit_fraction⟩
    simp [Decimal.Numeral.point, hnil, hpoint,
      run?_word depth fun c hc => hdigit (n.isDigit_fraction c hc)]

/-- A number is read outside, and leaves an odd word. -/
theorem run?_formatNumber (x : Binary64) (word : List Char) (depth : Nat) :
    ∃ other, run? ⟨.outside word, depth⟩ (formatNumber x) = some ⟨.outside other, depth⟩ ∧
      isOdd other := by
  cases hfinite : x.isFinite with
  | true =>
    obtain ⟨n, hn⟩ := exists_numeral_formatNumber hfinite
    rw [hn]
    exact run?_spell n word depth
  | false =>
    have hwords : ∀ text ∈ ["inf".toList, "-inf".toList, "NaN".toList],
        text.all isWordChar ∧ isOdd text := by
      decide
    obtain ⟨hword, hodd⟩ := hwords _ (formatNumber_of_not_finite hfinite)
    exact ⟨_, run?_word depth (List.all_eq_true.1 hword), by simp [isOdd_append, hodd]⟩

/-- A number with a unit ends in a word of its own, or in a percent sign. -/
theorem run?_withUnit (x : Binary64) {unit : String} (hknown : Dimension.isKnown unit)
    (word : List Char) (depth : Nat) :
    ∃ other, run? ⟨.outside word, depth⟩ (withUnit x unit) = some ⟨.outside other, depth⟩ ∧
      (unit = "%" ∧ other = [] ∨ unit ≠ "%" ∧ isOdd other) := by
  obtain ⟨other, hrun, hodd⟩ := run?_formatNumber x word depth
  rw [withUnit, run?_append, hrun, Option.bind_some]
  obtain hpercent | ⟨-, halpha⟩ := Dimension.isUnit_of_isKnown hknown
  · obtain rfl : unit = "%" := String.toList_injective hpercent
    exact ⟨[], rfl, .inl ⟨rfl, rfl⟩⟩
  · have hword : ∀ c ∈ unit.toList, isWordChar c := by
      intro c hc
      simp [isWordChar, isNameChar, Char.isAlphanum, halpha c hc]
    refine ⟨other ++ unit.toList, run?_word depth hword, .inr ⟨?_, by simp [isOdd_append, hodd]⟩⟩
    rintro rfl
    exact absurd (halpha '%' (by simp)) (by decide)

end Reader

/-! ## Tokens that stay inside -/

/-- Whether a token, printed as it is, can be read as the token that it is: a string without line
breaks, an address that its parenthesis closes, no function named like an address in other case. -/
def Token.staysInside (token : Token) : Bool :=
  match token.kind with
  | .doubleQuoted | .singleQuoted => token.text.all (!isLineBreak ·)
  | .url => Reader.closesAddress (token.text.drop 4).dropLast
  | .function => token.text == urlName ++ ['('] || lowercase token.text != urlName ++ ['(']
  | _ => true

/-- Whether all tokens stay inside, and no address is joined to the word of an exclamation mark. -/
def Lexeme.stayInside : Option Token → List Lexeme → Bool
  | _, [] => true
  | before, lexeme :: rest =>
    lexeme.token.staysInside &&
      !(lexeme.token.kind == .url && lexeme.gap.isEmpty && before.any (·.kind == .important)) &&
      stayInside (some lexeme.token) rest

/-- Whether blanks behind a token are dropped. -/
def Token.dropsBlanks (token : Token) : Bool :=
  token.opens || token.kind == .comma || token.kind == .slash

/-! ## Reading what is printed for a token -/

/-- What is known of the word that a reader has behind the token `before`, in front of `rest`: it
does not become `url` by what follows. -/
structure Word (before : Option Token) (word rest : List Char) : Prop where
  /-- It is no part of `url`, or it is complete. -/
  odd : word = [] ∨ isOdd word ∨ beginsWithAny isNameChar rest = false ∧
    (rest.head? = some '(' → lowercase word ≠ urlName)
  /-- Only the word of an exclamation mark is continued by a letter. -/
  joined : beginsWithAny Char.isAlpha rest → word = [] ∨ before.any (·.kind == .important)
  /-- Where blanks are dropped, there is no word. -/
  dropped : before.all Token.dropsBlanks → word = []

theorem Word.nil (before : Option Token) (rest : List Char) : Word before [] rest :=
  ⟨.inl rfl, fun _ => .inl rfl, fun _ => rfl⟩

/-- An odd word cannot become the name of an address. -/
theorem Word.of_isOdd {token : Token} {word rest : List Char} (hodd : isOdd word)
    (hrest : beginsWithAny Char.isAlpha rest = false) (htoken : token.dropsBlanks = false) :
    Word (some token) word rest := by
  refine ⟨.inr (.inl hodd), fun h => ?_, fun h => ?_⟩
  · rw [hrest] at h
    contradiction
  · rw [Option.all_some, htoken] at h
    contradiction

/-- What the word in front of a token has to be. -/
structure Front (word : List Char) (token : Token) : Prop where
  odd : word = [] ∨ isOdd word ∨ beginsWithAny isNameChar token.text = false ∧
    (token.kind = .leftParen → lowercase word ≠ urlName)
  url : token.kind = .url → word = []

theorem Front.nil (token : Token) : Front [] token :=
  ⟨.inl rfl, fun _ => rfl⟩

/-- Where a reader may stand behind the token `before`, in front of `rest`. -/
inductive Stands (groups : List Bool) (before : Option Token) (rest : List Char) : Reader → Prop
  | outside {word : List Char} (hword : Word before word rest) :
    Stands groups before rest ⟨.outside word, groups.length⟩
  | opening {depth : Nat} (hgroups : groups.length = depth + 1)
    (hrest : rest = [] ∨ beginsWithAny isQuote rest) :
    Stands groups before rest ⟨.opening, depth⟩

namespace Reader

variable {setting : Setting} {groups : List Bool} {word rest printed : List Char}

/-- What reading the printed text of a token comes to. -/
def Reaches (r : Reader) (groups : List Bool) (token : Token) (rest printed : List Char) : Prop :=
  ∃ s, r.run? printed = some s ∧ Stands (groupsAfter groups token) (some token) rest s

/-- A number leaves the reader outside. -/
theorem reaches_numeric {token : Token}
    (h : Token.scanNumeric? (token.text ++ rest) = some (token, rest))
    (hprint : setting.token groups token = .ok printed) :
    Reaches ⟨.outside word, groups.length⟩ groups token rest printed := by
  obtain ⟨text, rfl, hrest⟩ | ⟨numeral, unit, rfl, hsplit, -, hrest⟩ := Token.scanNumeric?_cases h
  · obtain ⟨x, -, rfl⟩ := Setting.token_number_iff.1 hprint
    obtain ⟨other, hrun, hodd⟩ := run?_formatNumber x word groups.length
    exact ⟨_, hrun, .outside (.of_isOdd hodd (Token.isAlpha_of_isUnitChar hrest) rfl)⟩
  · have hdimension : setting.dimension (groups.any id) (numeral ++ unit) = .ok printed := hprint
    obtain ⟨rfl, hunit⟩ | ⟨x, other, rfl, hknown, hpercent⟩ := Setting.dimension_cases hdimension
    · rw [hsplit] at hunit
      have hodd : isOdd (word ++ ['0']) := by
        simp [isOdd_append, show isOdd ['0'] by decide]
      exact ⟨_, run?_word groups.length (List.all_eq_true.1 (by decide)),
        .outside (.of_isOdd hodd (hrest.resolve_left hunit) rfl)⟩
    · -- The word ends in a unit, or it is over behind a percent sign.
      rw [hsplit] at hpercent
      obtain ⟨word', hrun, ⟨-, rfl⟩ | ⟨hne, hodd⟩⟩ := run?_withUnit x hknown word groups.length
      · exact ⟨_, hrun, .outside (.nil _ _)⟩
      · have hrest := hrest.resolve_left fun h => hne (hpercent h)
        exact ⟨_, hrun, .outside (.of_isOdd hodd hrest rfl)⟩

/-- An identifier leaves the reader outside. -/
theorem reaches_ident {name : List Char} (hname : IsName name)
    (hrest : beginsWithAny isNameChar rest = false)
    (hcall : rest.head? = some '(' → name.take 2 = ['-', '-']) (hfront : Front word ⟨.ident, name⟩) :
    Reaches ⟨.outside word, groups.length⟩ groups ⟨.ident, name⟩ rest name := by
  have hword : ∀ c ∈ name, isWordChar c := fun c hc => by simp [isWordChar, hname.isNameChar c hc]
  refine ⟨_, run?_word _ hword, .outside ⟨?_, fun h => ?_, fun h => ?_⟩⟩
  · obtain rfl | hodd | ⟨hchar, -⟩ := hfront.odd
    · refine .inr (.inr ⟨hrest, fun hhead heq => ?_⟩)
      -- Only a name that begins with two dashes is followed by a parenthesis.
      have htake := congrArg (List.take 2) heq
      rw [List.nil_append, lowercase, ← List.map_take, hcall hhead] at htake
      exact absurd htake (by decide)
    · exact .inr (.inl (by simp [isOdd_append, hodd]))
    · have hbegins : beginsWithAny isNameChar (name ++ []) := hname.begins
      rw [List.append_nil, hchar] at hbegins
      contradiction
  · rw [Token.isAlpha_of_isNameChar hrest] at h
    contradiction
  · simp [Token.dropsBlanks, Token.opens] at h

/-- A function leaves the reader one level deeper. -/
theorem reaches_function {name : List Char} (hname : IsName name) (hurl : name ≠ urlName)
    (hfront : Front word ⟨.function, name ++ ['(']⟩)
    (hstays : Token.staysInside ⟨.function, name ++ ['(']⟩) :
    Reaches ⟨.outside word, groups.length⟩ groups ⟨.function, name ++ ['(']⟩ rest
      (lowercase (name ++ ['('])) := by
  have hlower : lowercase name ≠ urlName := by
    intro heq
    simp only [Token.staysInside, Bool.or_eq_true, beq_iff_eq, bne_iff_ne] at hstays
    obtain h | h := hstays
    · exact hurl (List.append_cancel_right h)
    · exact h (by rw [lowercase, List.map_append, ← lowercase, heq]; rfl)
  -- Neither the name nor what it makes of a word in front of it is `url`.
  have hnot : lowercase (word ++ lowercase name) ≠ urlName := by
    obtain rfl | hodd | ⟨hchar, -⟩ := hfront.odd
    · rwa [List.nil_append, lowercase_lowercase]
    · exact lowercase_ne_of_isOdd (by simp [isOdd_append, hodd])
    · rw [hname.begins] at hchar
      contradiction
  have hword : ∀ c ∈ lowercase name, isWordChar c := by
    intro c hc
    simp [isWordChar, (isName_lowercase hname).isNameChar c hc]
  have hrun : run? ⟨.outside word, groups.length⟩ (lowercase (name ++ ['('])) =
      some ⟨.outside [], groups.length + 1⟩ := by
    rw [lowercase, List.map_append, ← lowercase, run?_append, run?_word _ hword]
    simp [read?, readOutside?, hnot, isWordChar, isNameChar, run?]
  exact ⟨_, hrun, .outside (.nil _ _)⟩

/-- Behind `url(` the reader waits for a quote, unless a word stands in front of the name. -/
theorem reaches_urlFunction (hfront : Front word ⟨.function, urlName ++ ['(']⟩)
    (hrest : rest = [] ∨ beginsWithAny isQuote rest) :
    Reaches ⟨.outside word, groups.length⟩ groups ⟨.function, urlName ++ ['(']⟩ rest
      (lowercase (urlName ++ ['('])) := by
  obtain rfl | hodd | ⟨hchar, -⟩ := hfront.odd
  · exact ⟨⟨.opening, groups.length⟩, rfl, .opening rfl hrest⟩
  · have hurl : lowercase (word ++ urlName) ≠ urlName :=
      lowercase_ne_of_isOdd (by simp [isOdd_append, hodd])
    have hrun : run? ⟨.outside word, groups.length⟩ (urlName ++ ['(']) =
        some ⟨.outside [], groups.length + 1⟩ := by
      rw [run?_append, run?_word _ (List.all_eq_true.1 (by decide))]
      simp [run?, read?, readOutside?, hurl, isWordChar, isNameChar]
    exact ⟨_, hrun, .outside (.nil _ _)⟩
  · exact absurd hchar (by decide)

/-- Other punctuation than parentheses and minus signs has no meaning to the reader. -/
theorem readOutside?_punctuation {c : Char} {kind : Token.Kind} {depth : Nat}
    (hmem : (c, kind) ∈ Token.punctuation)
    (hkind : kind ≠ .leftParen ∧ kind ≠ .rightParen ∧ kind ≠ .minus) :
    readOutside? depth word c = some ⟨.outside [], depth⟩ := by
  have hall : Token.punctuation.all fun row =>
      row.2 == .leftParen || row.2 == .rightParen || row.2 == .minus ||
        !(isWordChar row.1 || isQuote row.1 ||
          ['(', ')', '\x7b', '\x7d', ';'].contains row.1) := by
    decide
  have hplain := by simpa [hkind] using List.all_eq_true.1 hall _ hmem
  simp [readOutside?, hplain]

/-- Punctuation without a meaning to the reader ends a word. -/
theorem reaches_plain {c : Char} {kind : Token.Kind}
    (hread : readOutside? groups.length word c = some ⟨.outside [], groups.length⟩)
    (hgroups : groupsAfter groups ⟨kind, [c]⟩ = groups) :
    Reaches ⟨.outside word, groups.length⟩ groups ⟨kind, [c]⟩ rest [c] := by
  refine ⟨⟨.outside [], groups.length⟩, by simp [run?, read?, hread], ?_⟩
  rw [hgroups]
  exact .outside (.nil _ _)

/-- A single sign leaves the reader outside, at the level that it leads to. -/
theorem reaches_punctuation {c : Char} {kind : Token.Kind}
    (hkind : Token.punctuation? c = some kind) (hname : Token.spanName? (c :: rest) = none)
    (hfront : Front word ⟨kind, [c]⟩) (hprint : setting.token groups ⟨kind, [c]⟩ = .ok printed) :
    Reaches ⟨.outside word, groups.length⟩ groups ⟨kind, [c]⟩ rest printed := by
  have hpunctuation := Token.isPunctuation_kind hkind
  have hmem := Token.mem_punctuation hkind
  cases kind with
  | leftParen =>
    obtain rfl : c = '(' := by simpa [Token.punctuation] using hmem
    obtain rfl := Except.ok.inj hprint
    -- An opening parenthesis does not stand behind a word `url`.
    have hurl : lowercase word ≠ urlName := by
      obtain rfl | hodd | ⟨-, h⟩ := hfront.odd
      · decide
      · exact lowercase_ne_of_isOdd hodd
      · exact h rfl
    have hread : readOutside? groups.length word '(' = some ⟨.outside [], groups.length + 1⟩ := by
      simp [readOutside?, hurl, isWordChar, isNameChar]
    exact ⟨⟨.outside [], groups.length + 1⟩, by simp [run?, read?, hread], .outside (.nil _ _)⟩
  | rightParen =>
    obtain rfl : c = ')' := by simpa [Token.punctuation] using hmem
    cases groups with
    | nil => simp [Setting.token] at hprint
    | cons inMath groups =>
      obtain rfl : [')'] = printed := by simpa [Setting.token] using hprint
      exact ⟨⟨.outside [], groups.length⟩, rfl, .outside (.nil _ _)⟩
  | minus =>
    obtain rfl : c = '-' := by simpa [Token.punctuation] using hmem
    obtain rfl := Except.ok.inj hprint
    -- A minus sign joins the word, but no letter stands behind it.
    have hrest := Token.isAlpha_of_spanName?_dash hname
    exact ⟨⟨.outside (word ++ ['-']), groups.length⟩, run?_word _ (List.all_eq_true.1 (by decide)),
      .outside (.of_isOdd (by simp [isOdd_append, show isOdd ['-'] by decide]) hrest rfl)⟩
  | comma | slash | plus | star | colon | delim =>
    obtain rfl := Except.ok.inj hprint
    exact reaches_plain (readOutside?_punctuation hmem (by simp)) rfl
  | _ => exact absurd hpunctuation Bool.false_ne_true

/-- A string that stays inside has no line breaks in it. -/
theorem isLineBreak_of_staysInside {kind : Token.Kind} {quote : Char} {inner : List Char}
    (hkind : kind = .doubleQuoted ∨ kind = .singleQuoted)
    (h : Token.staysInside ⟨kind, quote :: inner ++ [quote]⟩) :
    ∀ c ∈ inner, isLineBreak c = false := by
  have hall : (quote :: inner ++ [quote]).all (!isLineBreak ·) := by
    obtain rfl | rfl := hkind <;> exact h
  simp only [List.all_append, List.all_cons, Bool.and_eq_true] at hall
  simpa using hall.1.2

/-- A string is printed in double quotes, wherever a quote begins a string. -/
theorem reaches_string {r : Reader} {token : Token}
    (hr : r.read? '"' = some ⟨.string '"', groups.length⟩)
    (hstring : (∃ inner, token = ⟨.doubleQuoted, '"' :: inner ++ ['"']⟩ ∧ IsInner '"' inner) ∨
      ∃ inner, token = ⟨.singleQuoted, '\'' :: inner ++ ['\'']⟩ ∧ IsInner '\'' inner)
    (hstays : token.staysInside) (hprint : setting.token groups token = .ok printed) :
    Reaches r groups token rest printed := by
  have hrun : ∀ inner, IsInner '"' inner → (∀ c ∈ inner, isLineBreak c = false) →
      r.run? ('"' :: inner ++ ['"']) = some ⟨.outside [], groups.length⟩ := by
    intro inner hinner hlines
    rw [List.cons_append, run?_cons, hr]
    exact run?_string _ (by decide) hinner hlines
  obtain ⟨inner, rfl, hinner⟩ | ⟨inner, rfl, hinner⟩ := hstring
  · obtain rfl : '"' :: inner ++ ['"'] = printed := by simpa [Setting.token] using hprint
    have hlines := isLineBreak_of_staysInside (.inl rfl) hstays
    exact ⟨_, hrun inner hinner hlines, .outside (.nil _ _)⟩
  · obtain rfl : requote ('\'' :: inner ++ ['\'']) = printed := by
      simpa [Setting.token] using hprint
    have hlines := isLineBreak_of_staysInside (.inr rfl) hstays
    rw [requote_quoted]
    exact ⟨_, hrun _ (isInner_requoteInner hinner) (forall_mem_requoteInner (by decide) hlines),
      .outside (.nil _ _)⟩

/-- Whatever token is printed, the reader is outside again behind it. -/
theorem reaches_of_ends {token : Token} (hends : Ends token rest) (hfront : Front word token)
    (hstays : token.staysInside) (hprint : setting.token groups token = .ok printed) :
    Reaches ⟨.outside word, groups.length⟩ groups token rest printed := by
  cases hends with
  | numeric h => exact reaches_numeric h hprint
  | ident hname hrest hcall =>
    obtain rfl := Except.ok.inj hprint
    exact reaches_ident hname hrest hcall hfront
  | function hname hurl hdashes =>
    obtain rfl := Except.ok.inj hprint
    exact reaches_function hname hurl hfront hstays
  | urlFunction hrest =>
    obtain rfl := Except.ok.inj hprint
    exact reaches_urlFunction hfront hrest
  | @url address rest haddress =>
    obtain rfl := Except.ok.inj hprint
    obtain rfl := hfront.url rfl
    have hclose : closesAddress address := by
      simpa [Token.staysInside, urlName] using hstays
    have hrun : run? ⟨.outside [], groups.length⟩ (urlName ++ '(' :: (address ++ [')'])) =
        run? ⟨.opening, groups.length⟩ (address ++ [')']) := rfl
    refine ⟨⟨.outside [], groups.length⟩, ?_, .outside (.nil _ _)⟩
    rw [List.append_assoc, List.cons_append, hrun, run?_opening _ hclose haddress]
  | doubleQuoted hinner => exact reaches_string rfl (.inl ⟨_, rfl, hinner⟩) hstays hprint
  | singleQuoted hinner => exact reaches_string rfl (.inr ⟨_, rfl, hinner⟩) hstays hprint
  | @hash name rest hne hname hrest =>
    obtain rfl : '#' :: name = printed := by simpa [Setting.token] using hprint
    have hword : ∀ c ∈ '#' :: name, isWordChar c :=
      List.forall_mem_cons.2 ⟨rfl, fun c hc => by simp [isWordChar, hname c hc]⟩
    have hodd : isOdd (word ++ '#' :: name) := List.any_eq_true.2 ⟨'#', by simp, by decide⟩
    exact ⟨_, run?_word _ hword, .outside (.of_isOdd hodd (Token.isAlpha_of_isNameChar hrest) rfl)⟩
  | important hblanks =>
    obtain rfl : '!' :: Token.importantWord = printed := by simpa [Setting.token] using hprint
    refine ⟨⟨.outside Token.importantWord, groups.length⟩, rfl, .outside ?_⟩
    refine ⟨.inr (.inl (by decide)), fun _ => .inr rfl, ?_⟩
    intro h
    simp [Token.dropsBlanks, Token.opens] at h
  | punctuation hkind hnumber hname => exact reaches_punctuation hkind hname hfront hprint

/-- Where blanks in front of a token are dropped, the word there is over. -/
theorem front_of_separator {before token : Token} {inMath : Bool} {gap : List Char}
    (hword : Word (some before) word (gap ++ (token.text ++ rest))) (hends : Ends token rest)
    (h : separator before token true inMath = []) : Front word token := by
  obtain hbefore | himportant | hclosing := separator_eq_nil h
  · -- The token in front has ended the word.
    have hdrops : before.dropsBlanks := by
      simpa [Token.dropsBlanks, or_assoc] using hbefore
    obtain rfl := hword.dropped (by simp [hdrops])
    exact .nil token
  · obtain ⟨cs, htext⟩ := hends.text_of_important himportant
    have hchar : beginsWithAny isNameChar token.text = false := by rw [htext]; rfl
    exact ⟨.inr (.inr ⟨hchar, fun hkind => by simp [hkind] at himportant⟩),
      fun hkind => by simp [hkind] at himportant⟩
  · -- A closing mark does not go on with a word.
    obtain ⟨c, htoken, -, hc⟩ := hends.closing hclosing
    have hchar : beginsWithAny isNameChar token.text = false := by
      rw [htoken]
      obtain rfl | rfl | rfl := hc <;> rfl
    exact ⟨.inr (.inr ⟨hchar, fun hkind => by simp [hkind] at hclosing⟩),
      fun hkind => by simp [hkind] at hclosing⟩

/-- A token directly behind another one. -/
theorem front_of_adjacent {before : Option Token} {token : Token}
    (hword : Word before word (token.text ++ rest)) (hends : Ends token rest)
    (hjoined : token.kind = .url → before.any (·.kind == .important) = false) :
    Front word token := by
  constructor
  · obtain h | h | ⟨hchar, hparen⟩ := hword.odd
    · exact .inl h
    · exact .inr (.inl h)
    · refine .inr (.inr ⟨?_, fun hkind => hparen ?_⟩)
      · cases htext : token.text with
        | nil => exact absurd htext hends.text_ne_nil
        | cons c cs => simpa [htext] using hchar
      · obtain ⟨c, hc, htext⟩ := hends.punctuation_of_kind (by rw [hkind]; rfl)
        rw [hkind] at hc
        obtain rfl : c = '(' := by simpa [Token.punctuation] using Token.mem_punctuation hc
        simp [htext]
  · intro hkind
    obtain ⟨address, htext⟩ := hends.text_of_url hkind
    have halpha : beginsWithAny Char.isAlpha (token.text ++ rest) := by
      rw [htext]
      rfl
    refine (hword.joined halpha).resolve_right fun h => ?_
    rw [hjoined hkind] at h
    contradiction

/-- Whatever is printed in front of a token leaves a word that the token does not make `url`. -/
theorem front_of_word {before : Option Token} {gap : List Char} {token : Token} (inMath : Bool)
    (hword : Word before word (gap ++ (token.text ++ rest))) (hends : Ends token rest)
    (hjoined : token.kind = .url → gap = [] → before.any (·.kind == .important) = false)
    (depth : Nat) :
    ∃ other, run? ⟨.outside word, depth⟩ (Lexeme.space inMath before ⟨gap, token⟩) =
      some ⟨.outside other, depth⟩ ∧ Front other token := by
  cases before with
  | none =>
    obtain rfl := hword.dropped rfl
    exact ⟨[], rfl, .nil token⟩
  | some before =>
    rw [Lexeme.space]
    obtain hnil | hblank := separator_cases before token (!gap.isEmpty) inMath
    · refine ⟨word, by rw [hnil]; rfl, ?_⟩
      cases gap with
      | nil => exact front_of_adjacent hword hends fun h => hjoined h rfl
      | cons c gap => exact front_of_separator hword hends hnil
    · exact ⟨[], by rw [hblank]; rfl, .nil token⟩

/-- A string directly behind `url(`. -/
theorem reaches_of_opening {token : Token} {gap space : List Char} {depth : Nat}
    (hgroups : groups.length = depth + 1) (hgap : ∀ c ∈ gap, Token.isGap c)
    (hrest : gap ++ (token.text ++ rest) = [] ∨ beginsWithAny isQuote (gap ++ (token.text ++ rest)))
    (hends : Ends token rest) (hstays : token.staysInside) (hspace : space = [] ∨ space = [' '])
    (hprint : setting.token groups token = .ok printed) :
    Reaches ⟨.opening, depth⟩ groups token rest (space ++ printed) := by
  have hquote : beginsWithAny isQuote (gap ++ (token.text ++ rest)) := by
    refine hrest.resolve_left fun hnil => ?_
    simp [hends.text_ne_nil] at hnil
  -- Blanks leave the reader waiting for the quote.
  have hblank : ∀ cs, run? ⟨.opening, depth⟩ (space ++ cs) = run? ⟨.opening, depth⟩ cs := by
    obtain rfl | rfl := hspace <;> exact fun _ => rfl
  obtain rfl := Token.gap_eq_nil (by decide) hgap hquote
  have hread : read? ⟨.opening, depth⟩ '"' = some ⟨.string '"', groups.length⟩ := by
    rw [hgroups]
    rfl
  obtain ⟨s, hrun, hs⟩ : Reaches ⟨.opening, depth⟩ groups _ rest printed :=
    reaches_string hread (hends.string_of_quote hquote) hstays hprint
  exact ⟨s, (hblank printed).trans hrun, hs⟩

/-- One token takes the reader from where it may stand in front of the token to where it may stand
behind it. -/
theorem reaches_of_stands {r : Reader} {before : Option Token} {token : Token} {gap : List Char}
    (hr : Stands groups before (gap ++ (token.text ++ rest)) r) (hgap : ∀ c ∈ gap, Token.isGap c)
    (hends : Ends token rest) (hstays : token.staysInside)
    (hjoined : token.kind = .url → gap = [] → before.any (·.kind == .important) = false)
    (hprint : setting.token groups token = .ok printed) :
    Reaches r groups token rest
      (Lexeme.space (groups.headD false) before ⟨gap, token⟩ ++ printed) := by
  cases hr with
  | outside hword =>
    obtain ⟨other, hspace, hfront⟩ :=
      front_of_word (groups.headD false) hword hends hjoined groups.length
    rw [Reaches, run?_append, hspace]
    exact reaches_of_ends hends hfront hstays hprint
  | opening hdepth hquote =>
    refine reaches_of_opening hdepth hgap hquote hends hstays ?_ hprint
    cases before with
    | none => exact .inl rfl
    | some before => exact separator_cases ..

/-- What is printed for a list of lexemes is read to a closed end. -/
theorem run?_of_stands {cs : List Char} {lexemes : List Lexeme} (hreads : Reads cs lexemes)
    {groups : List Bool} {before : Option Token} {text : List Char}
    (hstays : Lexeme.stayInside before lexemes)
    (hprint : setting.printAfter groups before lexemes = .ok text) {r : Reader}
    (hr : Stands groups before cs r) : ∃ s, r.run? text = some s ∧ s.isClosed := by
  -- Where the reader may stand is the invariant of the induction on the lexemes.
  induction hreads generalizing groups before text r with
  | nil hblanks =>
    obtain ⟨hgroups, rfl⟩ := Setting.printAfter_nil_iff.1 hprint
    have hlength : groups.length = 0 := by simpa using hgroups
    cases hr with
    | outside => exact ⟨_, rfl, by simp [isClosed, hlength]⟩
    | opening hdepth => simp [hlength] at hdepth
  | @cons gap rest token lexemes hgap hends hreads ih =>
    obtain ⟨printed, tail, htoken, htail, rfl⟩ := Setting.printAfter_cons_iff.1 hprint
    simp only [Lexeme.stayInside, Bool.and_eq_true, Bool.not_eq_true'] at hstays
    obtain ⟨⟨hstays, hjoined⟩, hmore⟩ := hstays
    have hjoined' : token.kind = .url → gap = [] → before.any (·.kind == .important) = false := by
      rintro hkind rfl
      simpa [hkind] using hjoined
    obtain ⟨s, hrun, hs⟩ := reaches_of_stands hr hgap hends hstays hjoined' htoken
    obtain ⟨s', hrun', hclosed⟩ := ih hmore htail hs
    refine ⟨s', ?_, hclosed⟩
    rw [← List.append_assoc, run?_append, hrun]
    exact hrun'

end Reader

/-! ## Normalized values -/

/-- What is printed for a source is contained. -/
theorem isContained_of_print {setting : Setting} {source printed : List Char}
    {lexemes : List Lexeme} (hreads : Reads source lexemes) (hstays : Lexeme.stayInside none lexemes)
    (hprint : setting.print lexemes = .ok printed) : isContained printed := by
  obtain ⟨s, hrun, hclosed⟩ :=
    Reader.run?_of_stands hreads hstays hprint (.outside (.nil none source))
  rw [isContained, show (⟨.outside [], 0⟩ : Reader).run? printed = some s from hrun]
  exact hclosed

/-- A number is contained. -/
theorem isContained_formatNumber (x : Binary64) : isContained (formatNumber x) := by
  obtain ⟨other, hrun, -⟩ := Reader.run?_formatNumber x [] 0
  rw [isContained, hrun]
  rfl

/-- A number has nothing in it that leaves its value. -/
theorem stayInside_tokenOfNumber (property : String) {x : Binary64} (h : x.isFinite) :
    Lexeme.stayInside none [⟨[], tokenOfNumber property x⟩] := by
  obtain ⟨n, hn⟩ := exists_numeral_formatNumber h
  have hlines : ∀ c ∈ n.spell, isLineBreak c = false := by
    intro c hc
    by_contra hbreak
    have hmantissa := Token.isMantissaChar_of_mem_spell c hc
    obtain (rfl | rfl) | rfl : (c = '\n' ∨ c = '\r') ∨ c = '\x0c' := by
      simpa only [isLineBreak, Bool.not_eq_false, Bool.or_eq_true, beq_iff_eq] using hbreak
    all_goals exact absurd hmantissa (by decide)
  unfold tokenOfNumber
  split
  · have hquote : isLineBreak '"' = false := rfl
    simpa [Lexeme.stayInside, Token.staysInside, hn, hquote] using hlines
  · split <;> rfl

/-- A normalized value is read to its end with every string, address and parenthesis closed and
without braces and semicolons, if the tokens of what was authored stay inside. -/
theorem isContained_of_mem_normalize {options : Options} {property : String} {raw : RawValue}
    {value : Value} (h : normalize options property raw = .ok value)
    (hstays : ∀ text, Scalar.text text ∈ raw.scalars → ∀ lexemes,
      Token.lex (sourceOfText property text) = .ok lexemes → Lexeme.stayInside none lexemes) :
    ∀ text ∈ value.texts, isContained text.toList := by
  intro text htext
  obtain ⟨scalar, hmem, hscalar⟩ := exists_scalar_of_mem h htext
  obtain ⟨source, hsource, hnormal⟩ | ⟨x, -, -, rfl⟩ := Setting.normalizeScalar_cases hscalar
  · obtain ⟨lexemes, printed, -, hreads, hprint, -, rfl⟩ :=
      Setting.normalizeSource_eq_ok_iff.1 hnormal
    rw [String.toList_ofList]
    refine isContained_of_print hreads ?_ hprint
    cases scalar with
    | text text =>
      obtain rfl := Option.some.inj hsource
      exact hstays text hmem lexemes (Token.lex_eq_ok_iff.2 hreads)
    | number x =>
      have hx := Setting.isFinite_of_normalizeScalar hscalar
      rw [Setting.reads_source? hx hsource hreads]
      exact stayInside_tokenOfNumber property hx
  · rw [String.toList_ofList]
    exact isContained_formatNumber x

theorem isContained_of_mem_normalize_background :
    normalize {} "background-image" (.single (.text "url( a;b ) , Image('c;d')")) =
        .ok ⟨["url( a;b ),image(\"c;d\")"]⟩ ∧
      isContained "url( a;b ),image(\"c;d\")".toList := by
  have hnormal : normalize {} "background-image" (.single (.text "url( a;b ) , Image('c;d')")) =
      .ok ⟨["url( a;b ),image(\"c;d\")"]⟩ := by
    decide +kernel
  have hstays : (Token.lex (sourceOfText "background-image"
      "url( a;b ) , Image('c;d')")).toOption.all (Lexeme.stayInside none) := by
    decide +kernel
  refine ⟨hnormal, isContained_of_mem_normalize hnormal ?_ _ (by simp)⟩
  intro text htext lexemes hreads
  obtain rfl : text = "url( a;b ) , Image('c;d')" := by simpa [RawValue.scalars] using htext
  rw [hreads] at hstays
  exact hstays

/-- The parenthesis of an address is escaped, and the address takes what stands behind the value. -/
theorem escaped_parenthesis_not_contained :
    normalize {} "background-image" (.single (.text "url(\\)")) = .ok ⟨["url(\\)"]⟩ ∧
      isContained "url(\\)".toList = false := by
  decide +kernel

end AtomicCss
