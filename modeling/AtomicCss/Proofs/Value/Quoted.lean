import AtomicCss.Proofs.Value.Idempotent
/-!
# Text in double quotes

Bare text of a property that takes quotes becomes one string in double quotes, and the text is read back
from the inside of that string (`normalize_of_isBare`). A string in single quotes becomes one in double
quotes that stands for the same text (`lex_requote`).
-/

namespace AtomicCss

open Token (Reads)

/-! ## Reading escapes -/

/-- The text that the inside of a string stands for: a backslash stands for the character behind it. -/
def readEscapes : List Char → List Char
  | '\\' :: c :: rest => c :: readEscapes rest
  | c :: rest => c :: readEscapes rest
  | [] => []

theorem readEscapes_cons {c : Char} (h : c ≠ '\\') (cs : List Char) :
    readEscapes (c :: cs) = c :: readEscapes cs := by
  rw [readEscapes]
  rintro c' rest rfl
  exact absurd rfl h

/-- Reading the escapes gives the text back. -/
theorem readEscapes_escapeQuotes (cs : List Char) : readEscapes (escapeQuotes cs) = cs := by
  induction cs with
  | nil => rfl
  | cons c cs ih =>
    rw [escapeQuotes, List.flatMap_cons, ← escapeQuotes]
    split
    · -- The backslash that was put in front of the character is read with it.
      change c :: readEscapes (escapeQuotes cs) = c :: cs
      rw [ih]
    · rename_i hplain
      rw [List.singleton_append, readEscapes_cons (not_or.1 hplain).2, ih]

/-- What stands between the quotes of a string. -/
def insideOf (text : List Char) : List Char :=
  text.tail.dropLast

/-- The inside of a quoted text is the text. -/
theorem insideOf_quoted (quote : Char) (cs : List Char) :
    insideOf (quote :: cs ++ [quote]) = cs := by
  rw [insideOf, List.cons_append, List.tail_cons, List.dropLast_concat]

/-! ## Bare text -/

/-- Trimmed text that is neither a string, a keyword nor the call of a function. Text that cannot be read
at all is bare too. -/
structure IsBare (text : List Char) : Prop where
  ne_nil : text ≠ []
  notQuoted : text.head? ≠ some '"' ∧ text.head? ≠ some '\''
  notContent : String.ofList text ∉ contentKeywords
  notGlobal : String.ofList text ∉ Property.globalKeywords
  notFunction : ∀ lexeme rest, Token.lex text = .ok (lexeme :: rest) →
    lexeme.token.kind ≠ .function ∧ lexeme.token.kind ≠ .url

/-- A bare text is quoted. -/
theorem IsBare.standsUnquoted_eq {text : List Char} (h : IsBare text) :
    standsUnquoted text = false := by
  have hfunction : startsWithFunction text = false := by
    unfold startsWithFunction
    split
    · rename_i lexeme rest hlex
      obtain ⟨hname, hurl⟩ := h.notFunction lexeme rest hlex
      simp [hname, hurl]
    · rfl
  simp [standsUnquoted, h.notQuoted, h.notContent, h.notGlobal, hfunction]

/-- A string in double quotes is printed as it is. -/
theorem Setting.print_doubleQuoted (setting : Setting) (text : List Char) :
    setting.print [⟨[], ⟨.doubleQuoted, text⟩⟩] = .ok text :=
  printAfter_cons_iff.2 ⟨text, [], rfl, rfl, by simp [Lexeme.space]⟩

/-- A content need not be a number. -/
theorem checkNumeric_of_isQuoted {property : String} (h : Property.isQuoted property)
    (printed : List Char) : checkNumeric property printed = .ok () := by
  obtain rfl | rfl : property = "content" ∨ property = "quotes" := by
    simpa [Property.isQuoted] using h
  all_goals rfl

/-- A text in quotes is printed as it is. -/
theorem Setting.normalizeSource_quoted {setting : Setting} (h : Property.isQuoted setting.property)
    (cs : List Char) :
    setting.normalizeSource ('"' :: escapeQuotes cs ++ ['"']) =
      .ok (String.ofList ('"' :: escapeQuotes cs ++ ['"'])) :=
  normalizeSource_eq_ok_iff.2 ⟨_, _, by simp, reads_quoted cs, setting.print_doubleQuoted _,
    checkNumeric_of_isQuoted h _, rfl⟩

/-- Bare text is always accepted, as one string that stands for it. -/
theorem normalize_of_isBare {property : String} (options : Options) (text : String)
    (hquoted : Property.isQuoted property) (hbare : IsBare (trim text.toList)) :
    ∃ value : String, normalize options property (.single (.text text)) = .ok ⟨[value]⟩ ∧
      Token.lex value.toList = .ok [⟨[], ⟨.doubleQuoted, value.toList⟩⟩] ∧
      readEscapes (insideOf value.toList) = trim text.toList := by
  -- What is printed is the source, so that all three statements are about the quoted text.
  have hsource : sourceOfText property text =
      '"' :: escapeQuotes (trim text.toList) ++ ['"'] := by
    rw [sourceOfText, if_pos hquoted, quoteContent_eq, hbare.standsUnquoted_eq]
    rfl
  refine ⟨String.ofList ('"' :: escapeQuotes (trim text.toList) ++ ['"']), ?_, ?_, ?_⟩
  · refine normalize_eq_ok_iff.2 (.cons ?_ .nil)
    rw [Setting.normalizeScalar, hsource]
    exact Setting.normalizeSource_quoted hquoted _
  · rw [String.toList_ofList]
    exact Token.lex_eq_ok_iff.2 (reads_quoted _)
  · rw [String.toList_ofList, insideOf_quoted, readEscapes_escapeQuotes]

/-- A backslash, both kinds of quotes and a line break in one text. -/
theorem normalize_of_isBare_mixed :
    IsBare (trim " it's \\\n a \"b\\\" ".toList) ∧
      ∃ value : String,
        normalize {} "content" (.single (.text " it's \\\n a \"b\\\" ")) = .ok ⟨[value]⟩ ∧
          Token.lex value.toList = .ok [⟨[], ⟨.doubleQuoted, value.toList⟩⟩] ∧
          readEscapes (insideOf value.toList) = trim " it's \\\n a \"b\\\" ".toList := by
  have hbare : IsBare (trim " it's \\\n a \"b\\\" ".toList) := by
    refine ⟨by decide, by decide, by decide, by decide, fun lexeme rest hlex => ?_⟩
    have hfails : (Token.lex (trim " it's \\\n a \"b\\\" ".toList)).toOption = none := by
      decide +kernel
    rw [hlex] at hfails
    contradiction
  exact ⟨hbare, normalize_of_isBare {} _ rfl hbare⟩

/-! ## Other quotes -/

/-- An escape is put in front of a double quote and taken from a single one, which stand for themselves
with and without it. -/
theorem readEscapes_requoteInner (inner : List Char) :
    readEscapes (requoteInner inner) = readEscapes inner := by
  fun_induction requoteInner inner with
  | case1 rest ih =>
    rw [readEscapes_cons (by decide), ih]
    rfl
  | case2 c rest _ ih =>
    change c :: readEscapes (requoteInner rest) = c :: readEscapes rest
    rw [ih]
  | case3 rest ih =>
    change '"' :: readEscapes (requoteInner rest) = readEscapes ('"' :: rest)
    rw [ih, readEscapes_cons (by decide)]
  | case4 c rest hsingle hescape _ ih =>
    by_cases hc : c = '\\'
    · -- Only at the end is a backslash no escape.
      subst hc
      cases rest with
      | nil => rfl
      | cons d rest => exact absurd rfl (hescape d rest rfl)
    · rw [readEscapes_cons hc, readEscapes_cons hc, ih]
  | case5 => rfl

/-- A string in single quotes has an inside. -/
theorem Token.Ends.exists_inner {token : Token} {rest : List Char} (h : Ends token rest)
    (hkind : token.kind = .singleQuoted) :
    ∃ inner, token.text = '\'' :: inner ++ ['\''] ∧ IsInner '\'' inner := by
  cases h with
  | numeric h => rcases scanNumeric?_kind h with h | h <;> simp [h] at hkind
  | @singleQuoted inner _ hinner => exact ⟨inner, rfl, hinner⟩
  | punctuation hchar _ _ =>
    obtain rfl : _ = Kind.singleQuoted := hkind
    exact absurd (isPunctuation_kind hchar) Bool.false_ne_true
  | _ => contradiction

/-- A string in single quotes is read as one string after requoting, with the same text inside. -/
theorem lex_requote {cs : List Char} {lexemes : List Lexeme} {lexeme : Lexeme}
    (hlex : Token.lex cs = .ok lexemes) (hlexeme : lexeme ∈ lexemes)
    (hkind : lexeme.token.kind = .singleQuoted) :
    Token.lex (requote lexeme.token.text) =
        .ok [⟨[], ⟨.doubleQuoted, requote lexeme.token.text⟩⟩] ∧
      readEscapes (insideOf (requote lexeme.token.text)) =
        readEscapes (insideOf lexeme.token.text) := by
  obtain ⟨rest, hends⟩ := (Token.reads_of_lex hlex).exists_ends lexeme hlexeme
  obtain ⟨inner, htext, hinner⟩ := hends.exists_inner hkind
  rw [htext, requote_quoted]
  constructor
  · exact Token.lex_of_reads (reads_single (.doubleQuoted (isInner_requoteInner hinner)))
  · rw [insideOf_quoted, insideOf_quoted, readEscapes_requoteInner]

/-- Both kinds of quotes with and without an escape, an escaped backslash in front of the last quote. -/
theorem lex_requote_mixed :
    ∃ lexemes, Token.lex "a 'it\\'s \"b\\\" \\\\'".toList = .ok lexemes ∧
      ⟨[' '], ⟨.singleQuoted, "'it\\'s \"b\\\" \\\\'".toList⟩⟩ ∈ lexemes ∧
      requote "'it\\'s \"b\\\" \\\\'".toList = "\"it's \\\"b\\\" \\\\\"".toList ∧
      Token.lex "\"it's \\\"b\\\" \\\\\"".toList =
        .ok [⟨[], ⟨.doubleQuoted, "\"it's \\\"b\\\" \\\\\"".toList⟩⟩] ∧
      readEscapes (insideOf "\"it's \\\"b\\\" \\\\\"".toList) =
        readEscapes (insideOf "'it\\'s \"b\\\" \\\\'".toList) := by
  let lexemes := (Token.lex "a 'it\\'s \"b\\\" \\\\'".toList).toOption.getD []
  have hlex : Token.lex "a 'it\\'s \"b\\\" \\\\'".toList = .ok lexemes := by decide +kernel
  have hmem : ⟨[' '], ⟨.singleQuoted, "'it\\'s \"b\\\" \\\\'".toList⟩⟩ ∈ lexemes := by
    decide +kernel
  have hrequote : requote "'it\\'s \"b\\\" \\\\'".toList =
      "\"it's \\\"b\\\" \\\\\"".toList := by
    decide +kernel
  have halike := lex_requote hlex hmem rfl
  rw [hrequote] at halike
  exact ⟨lexemes, hlex, hmem, hrequote, halike⟩

end AtomicCss
