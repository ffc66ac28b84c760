import AtomicCss.Proofs.Token.Boundary
import AtomicCss.Proofs.Value.Idempotent
/-!
# Printing keeps tokens apart

Among tokens that are no numbers the printer only changes spellings: function names are in lower case,
strings in double quotes, and `!important` has no blanks (`Token.respelled`). The blanks that it drops
or inserts neither merge nor split such tokens (`printText_respelled`). Without numbers no digit begins
a token, so that no sign and no point becomes the front of a number (`startsUnsigned_spell`). The
one exception is a function `url(` in other letters, since only `url(` is followed by an address.
-/

namespace AtomicCss

open Token (Ends Reads IsName beginsWithAny isQuote startsUnsigned punctuation? urlName)

/-! ## Spellings -/

/-- A token that is no number as it is printed. -/
def Token.respelled (token : Token) : Token :=
  match token.kind with
  | .function => ⟨.function, lowercase token.text⟩
  | .singleQuoted => ⟨.doubleQuoted, requote token.text⟩
  | .important => ⟨.important, '!' :: importantWord⟩
  | _ => token

section Spelling

variable {setting : Setting} {groups : List Bool} {before : Option Token} {token : Token}
  {text : List Char} {lexemes printed : List Lexeme}

/-- Tokens other than numbers are printed in their canonical spelling. -/
theorem Setting.printed_eq_respelled (hnumeric : token.isNumeric = false)
    (hprint : setting.token groups token = .ok text) :
    (⟨token.kind.printed text, text⟩ : Token) = token.respelled := by
  obtain ⟨kind, source⟩ := token
  cases kind
  case number | dimension => contradiction
  case rightParen =>
    cases groups with
    | nil => simp [Setting.token] at hprint
    | cons =>
      obtain rfl := Except.ok.inj hprint
      rfl
  all_goals
    obtain rfl := Except.ok.inj hprint
    rfl

theorem Token.isNumeric_respelled (token : Token) : token.respelled.isNumeric = token.isNumeric := by
  obtain ⟨kind, source⟩ := token
  cases kind <;> rfl

/-- The tokens that are printed are the tokens that were read, each respelled. -/
theorem Setting.map_token_printedAfter
    (hnumeric : ∀ lexeme ∈ lexemes, lexeme.token.isNumeric = false)
    (hprint : setting.printedAfter groups before lexemes = .ok printed) :
    printed.map (·.token) = lexemes.map (·.token.respelled) := by
  induction lexemes generalizing groups before printed with
  | nil =>
    obtain ⟨-, rfl⟩ := printedAfter_nil_iff.1 hprint
    rfl
  | cons lexeme rest ih =>
    obtain ⟨text, tail, htoken, htail, rfl⟩ := printedAfter_cons_iff.1 hprint
    obtain ⟨hhead, hmore⟩ := List.forall_mem_cons.1 hnumeric
    rw [List.map_cons, List.map_cons, ih hmore htail, printed_eq_respelled hhead htoken]

/-- No number is printed where none was read. -/
theorem Setting.isNumeric_of_mem_printed
    (hnumeric : ∀ lexeme ∈ lexemes, lexeme.token.isNumeric = false)
    (hprint : setting.printedAfter groups before lexemes = .ok printed) :
    ∀ lexeme ∈ printed, lexeme.token.isNumeric = false := by
  intro lexeme hlexeme
  have hmem : lexeme.token ∈ lexemes.map (·.token.respelled) := by
    rw [← map_token_printedAfter hnumeric hprint]
    exact List.mem_map_of_mem hlexeme
  obtain ⟨source, hsource, heq⟩ := List.mem_map.1 hmem
  rw [← heq, Token.isNumeric_respelled, hnumeric source hsource]

end Spelling

/-! ## No number begins -/

theorem Token.IsName.startsUnsigned {name rest : List Char} (h : IsName name) :
    startsUnsigned (name ++ rest) = false := by
  cases h with
  | plain hc _ => exact startsUnsigned_cons (isMantissaChar_of_isNameStart hc)
  | dash _ _ => rfl
  | dashes _ _ => rfl

theorem beginsWithAny_isDigit_of_startsUnsigned {cs : List Char} (h : startsUnsigned cs = false) :
    beginsWithAny Char.isDigit cs = false := by
  cases cs with
  | nil => rfl
  | cons c cs =>
    by_contra hdigit
    rw [Token.startsUnsigned_of_isDigit (by simpa using hdigit)] at h
    contradiction

/-- A printed token that is no number begins none, and a point does not because of what follows. -/
theorem Token.IsPrinted.startsUnsigned {token : Token} {rest : List Char} (h : token.IsPrinted)
    (hnumeric : token.isNumeric = false) (hrest : startsUnsigned rest = false) :
    startsUnsigned (token.text ++ rest) = false := by
  cases h with
  | number | dimension => contradiction
  | ident hname => exact hname.startsUnsigned
  | function hname =>
    rw [List.append_assoc]
    exact hname.startsUnsigned
  | @punctuation c kind hkind =>
    cases hmantissa : isMantissaChar c with
    | false => exact startsUnsigned_cons hmantissa
    | true =>
      obtain ⟨rfl, -⟩ | ⟨rfl, -⟩ | ⟨rfl, -⟩ := mantissa_of_punctuation? hkind hmantissa
      · rfl
      · rfl
      · exact startsUnsigned_point.trans (beginsWithAny_isDigit_of_startsUnsigned hrest)
  | _ => rfl

/-- Printed lexemes without numbers do not begin like one. -/
theorem startsUnsigned_spell {printed : List Lexeme}
    (hgap : ∀ lexeme ∈ printed, lexeme.gap = [] ∨ lexeme.gap = [' '])
    (hprinted : ∀ lexeme ∈ printed, lexeme.token.IsPrinted)
    (hnumeric : ∀ lexeme ∈ printed, lexeme.token.isNumeric = false) :
    startsUnsigned (Lexeme.spell printed) = false := by
  -- By induction on the lexemes: whether a point begins a number is seen behind it.
  induction printed with
  | nil => rfl
  | cons lexeme rest ih =>
    rw [List.forall_mem_cons] at hgap hprinted hnumeric
    have hrest := ih hgap.2 hprinted.2 hnumeric.2
    rw [Lexeme.spell_cons]
    obtain hgap | hgap := hgap.1
    · rw [hgap, List.nil_append]
      exact hprinted.1.startsUnsigned hnumeric.1 hrest
    · rw [hgap]
      rfl

/-- Where no number goes on, a token makes none with what stands behind it. -/
theorem joinsNoNumber_of_startsUnsigned {token : Token} {rest : List Char}
    (hnumeric : token.isNumeric = false) (h : startsUnsigned rest = false) :
    token.JoinsNoNumber rest := by
  unfold Token.JoinsNoNumber
  split
  · rename_i hkind
    simp [Token.isNumeric, hkind] at hnumeric
  · exact h
  · exact h
  · exact fun _ => beginsWithAny_isDigit_of_startsUnsigned h
  · trivial

/-! ## Addresses -/

/-- Directly behind the function `url(` stands a string. -/
theorem string_of_urlFunction {token : Token} {rest : List Char} {lexemes : List Lexeme}
    (hends : Ends token rest) (hkind : token.kind = .function) (htext : token.text = urlName ++ ['('])
    (hreads : Reads rest lexemes) :
    ∀ lexeme ∈ lexemes.head?, lexeme.gap = [] ∧
      (lexeme.token.kind = .doubleQuoted ∨ lexeme.token.kind = .singleQuoted) := by
  have hrest := hends.behind_url hkind htext
  cases hreads with
  | nil => simp
  | @cons gap rest' token' lexemes' hgap hends' _ =>
    have hquote := hrest.resolve_left (by simp [hends'.text_ne_nil])
    rintro lexeme ⟨⟩
    obtain rfl := Token.gap_eq_nil (by decide) hgap hquote
    rw [List.nil_append] at hquote
    obtain ⟨_, rfl, -⟩ | ⟨_, rfl, -⟩ := hends'.string_of_quote hquote
    · exact ⟨rfl, .inl rfl⟩
    · exact ⟨rfl, .inr rfl⟩

/-! ## Whole texts -/

/-- Whether a token is no function `url(` in other letters. -/
def Token.hasPlainUrl (token : Token) : Bool :=
  token.kind != .function || lowercase token.text != urlName ++ ['('] ||
    token.text == urlName ++ ['(']

section Whole

variable {setting : Setting} {cs : List Char} {lexemes printed : List Lexeme}

/-- Printed lexemes stand together or have one blank between them. -/
theorem Setting.gap_of_mem_printed {groups : List Bool} {before : Option Token}
    (hprint : setting.printedAfter groups before lexemes = .ok printed) :
    ∀ lexeme ∈ printed, lexeme.gap = [] ∨ lexeme.gap = [' '] := by
  induction lexemes generalizing groups before printed with
  | nil =>
    obtain ⟨-, rfl⟩ := printedAfter_nil_iff.1 hprint
    simp
  | cons lexeme rest ih =>
    obtain ⟨text, tail, -, htail, rfl⟩ := printedAfter_cons_iff.1 hprint
    exact List.forall_mem_cons.2 ⟨Lexeme.space_cases _ _ lexeme, ih htail⟩

/-- A function that is read as `url(` is printed in front of a string. -/
theorem begins_of_urlFunction {groups : List Bool} {token : Token} {rest : List Char}
    (hends : Ends token rest) (hkind : token.kind = .function) (htext : token.text = urlName ++ ['('])
    (hreads : Reads rest lexemes)
    (htail : setting.printedAfter (groupsAfter groups token) (some token) lexemes = .ok printed)
    (hprinted : ∀ lexeme ∈ printed, lexeme.token.IsPrinted) :
    beginsWithAny isQuote (Lexeme.spell printed) := by
  have hstring := string_of_urlFunction hends hkind htext hreads
  refine begins_of_function hkind htail hprinted ?_
  cases lexemes with
  | nil => simp [Setting.printedAfter, groupsAfter, hkind] at htail
  | cons lexeme others =>
    obtain ⟨text, tail, -, -, rfl⟩ := Setting.printedAfter_cons_iff.1 htail
    rintro _ ⟨⟩
    obtain ⟨-, h | h⟩ := hstring lexeme rfl <;> rw [h] <;> rfl

/-- What is printed for a token ends in front of what is printed behind it if none of the tokens is a
number. -/
theorem endsAt_respelled {token : Token} {rest text : List Char} {groups : List Bool}
    (hends : Ends token rest) (htoken : setting.token groups token = .ok text)
    (hnumeric : token.isNumeric = false) (hurl : token.hasPlainUrl) (hreads : Reads rest lexemes)
    (hmore : ∀ lexeme ∈ lexemes, lexeme.token.isNumeric = false)
    (htail : setting.printedAfter (groupsAfter groups token) (some token) lexemes = .ok printed)
    (hrest : Reads (Lexeme.spell printed) printed)
    (hprinted : ∀ lexeme ∈ printed, lexeme.token.IsPrinted) :
    Token.EndsAt ⟨token.kind.printed text, text⟩ (Lexeme.spell printed) := by
  have hstring : token.kind = .function → text = urlName ++ ['('] →
      beginsWithAny isQuote (Lexeme.spell printed) := by
    intro hkind htext
    have hlower : lowercase token.text = text := by simpa [Setting.token, hkind] using htoken
    have hplain : token.text = urlName ++ ['('] := by
      simpa [Token.hasPlainUrl, hkind, hlower, htext] using hurl
    exact begins_of_urlFunction hends hkind hplain hreads htail hprinted
  -- What is printed behind the token begins no number.
  have hfree := startsUnsigned_spell (Setting.gap_of_mem_printed htail) hprinted
    (Setting.isNumeric_of_mem_printed hmore htail)
  refine endsAt_of_directly hreads htail hstring ?_
  rintro token' rest' text' tail rfl hends' htoken' rfl
  have hnext : token'.isNumeric = false := by
    have hprinted' := Setting.isNumeric_of_mem_printed hmore htail _ List.mem_cons_self
    by_contra hnot
    rw [Token.isNumeric_printed text' (by simpa using hnot)] at hprinted'
    contradiction
  have hjoins : Token.JoinsNoNumber ⟨token.kind.printed text, text⟩
      (Lexeme.spell (⟨[], ⟨token'.kind.printed text', text'⟩⟩ :: tail)) := by
    refine joinsNoNumber_of_startsUnsigned ?_ hfree
    rw [Setting.printed_eq_respelled hnumeric htoken, Token.isNumeric_respelled, hnumeric]
  rw [Lexeme.spell_cons, List.nil_append] at hjoins hstring
  exact endsAt_of_adjacent hends htoken hends' hnext htoken' (ends_of_reads_spell hrest) hjoins
    hstring

/-- Where no token is a number, printed text is read as what was printed. -/
theorem reads_respelled (hreads : Reads cs lexemes)
    (hnumeric : ∀ lexeme ∈ lexemes, lexeme.token.isNumeric = false)
    (hurl : ∀ lexeme ∈ lexemes, lexeme.token.hasPlainUrl) {groups : List Bool}
    {before : Option Token} (hprint : setting.printedAfter groups before lexemes = .ok printed)
    (hprinted : ∀ lexeme ∈ printed, lexeme.token.IsPrinted) :
    Reads (Lexeme.spell printed) printed := by
  induction hreads generalizing groups before printed with
  | nil =>
    obtain ⟨-, rfl⟩ := Setting.printedAfter_nil_iff.1 hprint
    exact .nil (by simp [Lexeme.spell])
  | @cons gap rest token lexemes hgap hends hreads ih =>
    obtain ⟨text, tail, htoken, htail, rfl⟩ := Setting.printedAfter_cons_iff.1 hprint
    rw [List.forall_mem_cons] at hnumeric hurl hprinted
    have hrest := ih hnumeric.2 hurl.2 htail hprinted.2
    have hendsAt := endsAt_respelled hends htoken hnumeric.1 hurl.1 hreads hnumeric.2 htail hrest
      hprinted.2
    rw [Lexeme.spell_cons]
    exact .cons Lexeme.isGap_of_mem_space (hprinted.1.ends hendsAt) hrest

end Whole

/-- A source is printed if it is read and its lexemes are printed. -/
theorem Setting.printText_eq_ok_iff {setting : Setting} {source text : List Char} :
    setting.printText source = .ok text ↔
      ∃ lexemes, Reads source lexemes ∧ setting.print lexemes = .ok text := by
  simp only [← Token.lex_eq_ok_iff]
  cases hlex : Token.lex source with
  | error rest => simp [printText, lexValue, hlex, bind, Except.bind]
  | ok lexemes =>
    cases hprint : setting.print lexemes <;>
      simp [printText, lexValue, hlex, hprint, bind, Except.bind]

theorem Setting.isSettled_of_isNumeric {setting : Setting} {token : Token}
    (h : token.isNumeric = false) : setting.isSettled token := by
  obtain ⟨kind, source⟩ := token
  cases kind
  case number | dimension => contradiction
  all_goals rfl

/-- A source without numbers and without a function `url(` in other letters is printed as a text that
is read as the same tokens, each as it is respelled. So no two tokens are merged and none is split,
and the printed text is printed as it is. -/
theorem printText_respelled {setting : Setting} {source text : List Char} {lexemes : List Lexeme}
    (hlex : Token.lex source = .ok lexemes)
    (hnumeric : ∀ lexeme ∈ lexemes, lexeme.token.isNumeric = false)
    (hurl : ∀ lexeme ∈ lexemes, lexeme.token.hasPlainUrl)
    (hprint : setting.printText source = .ok text) :
    ∃ printed, Token.lex text = .ok printed ∧
      printed.map (·.token) = lexemes.map (·.token.respelled) ∧
      setting.printText text = .ok text := by
  have hreads := Token.lex_eq_ok_iff.1 hlex
  obtain ⟨others, hothers, htext⟩ := Setting.printText_eq_ok_iff.1 hprint
  obtain rfl := hreads.unique hothers
  obtain ⟨printed, hprinted, rfl⟩ := Setting.printAfter_eq_ok_iff.1 htext
  have hsettled : ∀ lexeme ∈ lexemes, setting.isSettled lexeme.token := fun lexeme hlexeme =>
    Setting.isSettled_of_isNumeric (hnumeric lexeme hlexeme)
  obtain ⟨hform, hagain⟩ := Setting.printedAfter_printed hreads hsettled .none hprinted
  have hreads' := reads_respelled hreads hnumeric hurl hprinted hform
  exact ⟨printed, Token.lex_eq_ok_iff.2 hreads', Setting.map_token_printedAfter hnumeric hprinted,
    Setting.printText_eq_ok_iff.2
      ⟨printed, hreads', Setting.printAfter_eq_ok_iff.2 ⟨printed, hagain, rfl⟩⟩⟩

/-- A minus stays apart from the point behind it, and blanks are dropped beside parentheses. -/
theorem printText_respelled_background :
    let source := "Local( 'a\"b' , Var( --x ) ) -.  ! important".toList
    let text := "local(\"a\\\"b\",var(--x)) -.!important".toList
    Setting.printText ⟨"background", {}⟩ source = .ok text ∧
      ∃ lexemes printed, Token.lex source = .ok lexemes ∧ Token.lex text = .ok printed ∧
        printed.map (·.token) = lexemes.map (·.token.respelled) ∧
        Setting.printText ⟨"background", {}⟩ text = .ok text := by
  intro source text
  have hprint : Setting.printText ⟨"background", {}⟩ source = .ok text := by
    decide +kernel
  have hplain : (Token.lex source).toOption.any fun lexemes => lexemes.all fun lexeme =>
      !lexeme.token.isNumeric && lexeme.token.hasPlainUrl := by
    decide +kernel
  cases hlex : Token.lex source with
  | error rest =>
    rw [hlex] at hplain
    contradiction
  | ok lexemes =>
    simp only [hlex, Except.toOption, Option.any_some, List.all_eq_true, Bool.and_eq_true,
      Bool.not_eq_true'] at hplain
    obtain ⟨printed, hreads, hsame, hagain⟩ := printText_respelled hlex
      (fun lexeme hlexeme => (hplain lexeme hlexeme).1)
      (fun lexeme hlexeme => (hplain lexeme hlexeme).2) hprint
    exact ⟨hprint, lexemes, printed, rfl, hreads, hsame, hagain⟩

end AtomicCss
