import AtomicCss.Proofs.Value.Relexed
import AtomicCss.Proofs.Value.Settled
import AtomicCss.Proofs.Value.Source
import Mathlib.Data.List.Forall2
/-!
# Normalizing is idempotent

A printed token is printed as it is (`Setting.stays_printed`), between the same tokens with the same
blanks, so that printed lexemes are printed as they are (`Setting.printedAfter_printed`). Together
with `reads_printed` a normalized value is normalized to itself.
-/

namespace AtomicCss

open Token (Ends Reads beginsWithAny isQuote punctuation? spanName? urlName)

/-! ## Tokens -/

/-- Whether the numbers that a token is printed with are moderate. -/
def Setting.isSettled (setting : Setting) (token : Token) : Bool :=
  match token.kind with
  | .number => (readNumber token.text).toOption.all Binary64.isModerate
  | .dimension =>
    (readNumber (Token.splitDimension token.text).1).toOption.all fun x =>
      x.isModerate &&
        (!setting.isInRem (String.ofList (lowercase (Token.splitDimension token.text).2)) ||
          (roundDecimals x / setting.options.remBase).isModerate)
  | _ => true

section Token

variable {setting : Setting} {groups : List Bool} {token : Token} {rest text : List Char}

/-- That a printed token has the form of one and is printed as it is. -/
structure Setting.Stays (setting : Setting) (groups : List Bool) (token : Token) : Prop where
  isPrinted : token.IsPrinted
  token : setting.token groups token = .ok token.text

/-- A number is printed as before when it is printed again. -/
theorem Setting.stays_number {x : Binary64} (h : x.isModerate) :
    setting.Stays groups ⟨.number, formatNumber x⟩ := by
  obtain ⟨n, hn⟩ := exists_numeral_formatNumber (isFinite_of_isModerate h)
  obtain ⟨y, hy⟩ := exists_readsBack h
  constructor
  · rw [hn]
    exact .number n
  · simp [Setting.token, hy.read, hy.formatNumber_eq, bind, Except.bind, pure, Except.pure]

/-- A bare zero is printed as before. -/
theorem Setting.stays_zero : setting.Stays groups ⟨.number, ['0']⟩ := by
  rw [← formatNumber_of_isZero isZero_roundDecimals_zero]
  exact stays_number isModerate_zero

/-- A dimension that settles is printed as before. -/
theorem Setting.stays_dimension (h : setting.Reprints (groups.any id) text) :
    setting.Stays groups ⟨.dimension, text⟩ ∧ text ≠ ['0'] := by
  obtain ⟨x, unit, hx, hknown, rfl, hreprint⟩ := h
  obtain ⟨n, hn⟩ := exists_numeral_formatNumber (isFinite_of_isModerate hx)
  obtain ⟨y, hy⟩ := exists_readsBack hx
  obtain ⟨hunit, hlone⟩ := Dimension.isUnit_of_mem unit (Dimension.mem_of_isKnown hknown)
  refine ⟨⟨?_, ?_⟩, withUnit_ne_zero hknown⟩
  · rw [withUnit, hn]
    exact .dimension n hunit hlone
  · have hdimension := @Setting.dimension_withUnit setting (groups.any id) _ _ _ hy
      (isFinite_of_isModerate hx) hknown
    exact hdimension.trans (hreprint y hy)

/-- The printer copies the tokens that are no numbers, but for the case of function names and the kind
of quotes. -/
theorem Setting.stays_copied (hends : Ends token rest) (hnumeric : token.isNumeric = false)
    (hprint : setting.token groups token = .ok text) :
    setting.Stays groups ⟨token.kind.printed text, text⟩ := by
  refine ⟨Token.isPrinted_of_ends hends hnumeric hprint, ?_⟩
  obtain ⟨kind, source⟩ := token
  cases kind
  case number | dimension => contradiction
  case function =>
    obtain rfl := Except.ok.inj hprint
    exact congrArg Except.ok (lowercase_lowercase source)
  case rightParen =>
    cases groups with
    | nil => simp [Setting.token] at hprint
    | cons => rfl
  case important =>
    obtain rfl := Except.ok.inj hprint
    rfl
  all_goals rfl

/-- What is printed for a settled dimension is printed as before. -/
theorem Setting.stays_of_dimension {source : List Char}
    (hsettled : setting.isSettled ⟨.dimension, source⟩)
    (hprint : setting.token groups ⟨.dimension, source⟩ = .ok text) :
    setting.Stays groups ⟨Token.Kind.printed .dimension text, text⟩ := by
  have hdimension : setting.dimension (groups.any id) source = .ok text := hprint
  obtain ⟨x, hread, hspelled⟩ := Setting.dimension_eq_ok_iff.1 hdimension
  obtain ⟨hx, hrem⟩ : x.isModerate ∧
      (setting.isInRem (String.ofList (lowercase (Token.splitDimension source).2)) →
        (roundDecimals x / setting.options.remBase).isModerate) := by
    simpa [Setting.isSettled, hread, Except.toOption, ← Bool.not_eq_true, ← imp_iff_not_or]
      using hsettled
  -- A zero without a unit is a number now; all else is read as the dimension that was printed.
  obtain rfl | hreprint := Setting.dimensionOf_reads hx hrem hspelled
  · exact Setting.stays_zero
  · obtain ⟨hstays, hne⟩ := Setting.stays_dimension hreprint
    have hkind : Token.Kind.printed .dimension text = .dimension := if_neg hne
    rwa [hkind]

/-- What is printed for a token stays as it is. -/
theorem Setting.stays_printed (hends : Ends token rest) (hsettled : setting.isSettled token)
    (hprint : setting.token groups token = .ok text) :
    setting.Stays groups ⟨token.kind.printed text, text⟩ := by
  cases hnumeric : token.isNumeric with
  | false => exact stays_copied hends hnumeric hprint
  | true =>
    obtain ⟨kind, source⟩ := token
    obtain rfl | rfl : kind = .number ∨ kind = .dimension := by
      simpa [Token.isNumeric] using hnumeric
    · obtain ⟨x, hread, rfl⟩ := Setting.token_number_iff.1 hprint
      have hx : x.isModerate := by
        simpa [Setting.isSettled, hread, Except.toOption] using hsettled
      exact Setting.stays_number hx
    · exact stays_of_dimension hsettled hprint

end Token

/-! ## Blanks and groups -/

/-- A printed token has another kind only if it is a string or a dimension. -/
theorem Token.Kind.printed_cases (kind : Kind) (text : List Char) :
    kind.printed text = kind ∨ kind = .singleQuoted ∧ kind.printed text = .doubleQuoted ∨
      kind = .dimension ∧ kind.printed text = .number := by
  cases kind
  case dimension =>
    by_cases htext : text = ['0'] <;> simp [printed, htext]
  all_goals simp [printed]

theorem Token.Kind.printed_printed (kind : Kind) (text : List Char) :
    (kind.printed text).printed text = kind.printed text := by
  obtain h | ⟨-, h⟩ | ⟨-, h⟩ := kind.printed_cases text
  · rw [h, h]
  · rw [h]
    rfl
  · rw [h]
    rfl

/-- Printing changes nothing about the blanks between two tokens. -/
theorem separator_printed (before after : Token) (text text' : List Char) (spaced inMath : Bool) :
    separator ⟨before.kind.printed text, text⟩ ⟨after.kind.printed text', text'⟩ spaced inMath =
      separator before after spaced inMath := by
  obtain h | ⟨h, h'⟩ | ⟨h, h'⟩ := before.kind.printed_cases text <;>
    obtain g | ⟨g, g'⟩ | ⟨g, g'⟩ := after.kind.printed_cases text' <;>
    simp_all [separator, Token.opens, Token.isOperator]

/-- Where a blank was printed one is printed again, and nowhere else. -/
theorem separator_separator (before after : Token) (spaced inMath : Bool) :
    separator before after (!(separator before after spaced inMath).isEmpty) inMath =
      separator before after spaced inMath := by
  unfold separator
  split
  · rfl
  · split
    · rfl
    · split
      · rfl
      · split <;> rfl

/-- The token in front of a lexeme, and the one that was printed for it. -/
def IsPrintedFor (before before' : Option Token) : Prop :=
  Option.Rel (fun token token' => ∃ text, token' = ⟨token.kind.printed text, text⟩) before before'

/-- What stands in front of a printed lexeme is printed again. -/
theorem Lexeme.space_printed {before before' : Option Token} (h : IsPrintedFor before before')
    (lexeme : Lexeme) (text : List Char) (inMath : Bool) :
    Lexeme.space inMath before'
        ⟨lexeme.space inMath before, ⟨lexeme.token.kind.printed text, text⟩⟩ =
      lexeme.space inMath before := by
  cases h with
  | none => rfl
  | some h =>
    obtain ⟨text', rfl⟩ := h
    simp only [Lexeme.space]
    rw [separator_printed, separator_separator]

/-- A function is a math function in either case. -/
theorem isMathFunction_lowercase (text : List Char) :
    isMathFunction (lowercase text) = isMathFunction text := by
  have hfilter : lowercase ((lowercase text).filter (· != '(')) =
      lowercase (text.filter (· != '(')) := by
    have hparen : (fun c : Char => c.toLower != '(') = (· != '(') :=
      funext fun c => congrArg Bool.not (toLower_beq (by decide))
    have hmap : (lowercase text).filter (· != '(') = lowercase (text.filter (· != '(')) := by
      rw [lowercase, List.filter_map, Function.comp_def, hparen, lowercase]
    rw [hmap, lowercase_lowercase]
  simp only [isMathFunction, hfilter]

/-- A printed token opens and closes the groups that its source does. -/
theorem groupsAfter_printed {setting : Setting} {groups : List Bool} {token : Token}
    {text : List Char} (hprint : setting.token groups token = .ok text) :
    groupsAfter groups ⟨token.kind.printed text, text⟩ = groupsAfter groups token := by
  obtain ⟨kind, source⟩ := token
  obtain h | ⟨rfl, h⟩ | ⟨rfl, h⟩ := kind.printed_cases text
  · rw [h]
    cases kind
    case function =>
      obtain rfl := Except.ok.inj hprint
      exact congrArg (· :: groups) (isMathFunction_lowercase source)
    all_goals rfl
  · rfl
  · simp only [h]
    rfl

/-! ## Lexemes -/

/-- Printed lexemes have the form of printed tokens and are printed as they are. -/
theorem Setting.printedAfter_printed {setting : Setting} {cs : List Char} {lexemes : List Lexeme}
    (hreads : Reads cs lexemes) (hsettled : ∀ lexeme ∈ lexemes, setting.isSettled lexeme.token)
    {groups : List Bool} {before before' : Option Token} (hbefore : IsPrintedFor before before')
    {printed : List Lexeme} (hprint : setting.printedAfter groups before lexemes = .ok printed) :
    (∀ lexeme ∈ printed, lexeme.token.IsPrinted) ∧
      setting.printedAfter groups before' printed = .ok printed := by
  induction hreads generalizing groups before before' printed with
  | nil =>
    obtain ⟨hgroups, rfl⟩ := printedAfter_nil_iff.1 hprint
    exact ⟨by simp, printedAfter_nil_iff.2 ⟨hgroups, rfl⟩⟩
  | @cons gap rest token lexemes hgap hends hreads ih =>
    obtain ⟨text, tail, htoken, htail, rfl⟩ := printedAfter_cons_iff.1 hprint
    obtain ⟨hhead, hmore⟩ := List.forall_mem_cons.1 hsettled
    have hstays := stays_printed hends hhead htoken
    obtain ⟨hprinted, hagain⟩ := ih hmore (.some ⟨text, rfl⟩) htail
    refine ⟨List.forall_mem_cons.2 ⟨hstays.isPrinted, hprinted⟩, ?_⟩
    refine printedAfter_cons_iff.2 ⟨text, tail, hstays.token, ?_, ?_⟩
    -- The printed token opens and closes the groups that the token does.
    · rw [groupsAfter_printed htoken]
      exact hagain
    · rw [Lexeme.space_printed hbefore ⟨gap, token⟩ text, Token.Kind.printed_printed]

/-! ## Values -/

/-- Whether what is printed for lexemes stays apart and has moderate numbers. -/
def Setting.printsApart (setting : Setting) (lexemes : List Lexeme) : Bool :=
  lexemes.all (setting.isSettled ·.token) &&
    (setting.printedAfter [] none lexemes).toOption.all Lexeme.standApart

/-- Whether a scalar is printed with moderate numbers only, and with tokens that stay apart. -/
def Setting.isStable (setting : Setting) (scalar : Scalar) : Bool :=
  match setting.source? scalar, scalar with
  | some source, _ => (Token.lex source).toOption.all setting.printsApart
  | none, .number x => x.isModerate
  | none, .text _ => true

section Values

variable {setting : Setting} {source : List Char} {lexemes : List Lexeme} {text : List Char}

/-- The printed text of a source is read as what was printed, which is printed as it is. -/
theorem Setting.reads_print (hreads : Reads source lexemes) (hapart : setting.printsApart lexemes)
    (hprint : setting.print lexemes = .ok text) :
    ∃ printed, setting.printedAfter [] none lexemes = .ok printed ∧ text = Lexeme.spell printed ∧
      (∀ lexeme ∈ printed, lexeme.token.IsPrinted) ∧ Reads text printed ∧
      setting.print printed = .ok text := by
  obtain ⟨printed, hprinted, rfl⟩ := printAfter_eq_ok_iff.1 hprint
  simp only [printsApart, Bool.and_eq_true, List.all_eq_true, hprinted] at hapart
  obtain ⟨hform, hagain⟩ := printedAfter_printed hreads hapart.1 .none hprinted
  exact ⟨printed, hprinted, rfl, hform, reads_printed hreads hprinted hform hapart.2,
    printAfter_eq_ok_iff.2 ⟨printed, hagain, rfl⟩⟩

/-- A text stands unquoted if it begins with a quote, is a keyword, or begins with a function. -/
theorem standsUnquoted_iff {cs : List Char} :
    standsUnquoted cs ↔ cs ≠ [] ∧ (beginsWithAny isQuote cs ∨
      String.ofList cs ∈ contentKeywords ++ Property.globalKeywords ∨ startsWithFunction cs) := by
  cases cs with
  | nil => simp [standsUnquoted]
  | cons c cs => simp [standsUnquoted, isQuote, or_assoc]

/-- A text that begins with no gap begins with a token. -/
theorem exists_token_of_reads (hreads : Reads source lexemes) (hne : source ≠ [])
    (hfront : beginsWithAny Token.isGap source = false) :
    ∃ token rest tail, lexemes = ⟨[], token⟩ :: rest ∧ source = token.text ++ tail ∧
      Ends token tail := by
  cases hreads with
  | nil hblanks =>
    cases source with
    | nil => exact absurd rfl hne
    | cons c cs =>
      rw [Token.beginsWithAny_cons, hblanks c (by simp)] at hfront
      contradiction
  | @cons gap tail token rest hgap hends _ =>
    cases gap with
    | nil => exact ⟨token, rest, tail, rfl, rfl, hends⟩
    | cons c gap =>
      rw [List.cons_append, Token.beginsWithAny_cons, hgap c (by simp)] at hfront
      contradiction

/-- A keyword is printed as it is. -/
theorem print_keyword (hreads : Reads source lexemes)
    (hword : String.ofList source ∈ contentKeywords ++ Property.globalKeywords)
    (hprint : setting.print lexemes = .ok text) : text = source := by
  have hwords : ∀ word ∈ contentKeywords ++ Property.globalKeywords,
      spanName? word.toList = some (word.toList, []) := by
    decide
  have hspan := hwords _ hword
  rw [String.toList_ofList] at hspan
  obtain ⟨-, hname, -⟩ := Token.spanName?_eq_some_iff.1 hspan
  have hident : Reads source [⟨[], ⟨.ident, source⟩⟩] :=
    @reads_single ⟨.ident, source⟩ (.ident hname rfl (by simp))
  obtain rfl := hreads.unique hident
  simpa [Setting.print, Setting.printAfter, Setting.token, groupsAfter, bind, Except.bind, pure,
    Except.pure] using hprint.symm

/-- A text begins with a function if its first token is one, or a url. -/
theorem startsWithFunction_iff {cs : List Char} {lexeme : Lexeme} {rest : List Lexeme}
    (hreads : Reads cs (lexeme :: rest)) :
    startsWithFunction cs ↔ lexeme.token.kind = .function ∨ lexeme.token.kind = .url := by
  simp [startsWithFunction, Token.lex_eq_ok_iff.2 hreads]

/-- What is printed for a text that stands without quotes stands without quotes. -/
theorem standsUnquoted_print (hreads : Reads source lexemes)
    (hfront : beginsWithAny Token.isGap source = false) (hunquoted : standsUnquoted source)
    (hapart : setting.printsApart lexemes) (hprint : setting.print lexemes = .ok text) :
    standsUnquoted text := by
  obtain ⟨hne, hcases⟩ := standsUnquoted_iff.1 hunquoted
  obtain ⟨token, rest, tail, rfl, rfl, hends⟩ := exists_token_of_reads hreads hne hfront
  obtain ⟨printed, hprinted, rfl, hform, hreads', -⟩ := Setting.reads_print hreads hapart hprint
  obtain ⟨text, others, htoken, -, rfl⟩ := Setting.printedAfter_cons_iff.1 hprinted
  obtain ⟨hhead, -⟩ := List.forall_mem_cons.1 hform
  have hspell : ∀ lexeme : Lexeme, lexeme.gap = [] →
      Lexeme.spell (lexeme :: others) = lexeme.token.text ++ Lexeme.spell others := by
    intro lexeme hgap
    rw [Lexeme.spell_cons, hgap, List.nil_append]
  obtain hquote | hword | hfunction := hcases
  · -- A string is printed as a string.
    have hkind : token.kind.printed text = .doubleQuoted := by
      obtain ⟨_, rfl, -⟩ | ⟨_, rfl, -⟩ := hends.string_of_quote hquote <;> rfl
    have hbegins := hhead.begins_of_doubleQuoted (Lexeme.spell others) hkind
    rw [← hspell _ rfl] at hbegins
    refine standsUnquoted_iff.2 ⟨?_, .inl hbegins⟩
    intro hnil
    rw [hnil] at hbegins
    contradiction
  · -- A keyword is not changed.
    rwa [print_keyword hreads hword hprint]
  · -- A function or an address is printed as one.
    have hkind : token.kind = .function ∨ token.kind = .url :=
      (startsWithFunction_iff hreads).1 hfunction
    have hsame : token.kind.printed text = token.kind := by
      obtain h | h := hkind <;> rw [h] <;> rfl
    refine standsUnquoted_iff.2 ⟨?_, .inr (.inr ((startsWithFunction_iff hreads').2 ?_))⟩
    · rw [hspell _ rfl]
      simp [hhead.text_ne_nil]
    · rwa [hsame]

/-! ## The source of a printed text -/

theorem isBlank_of_isGap {c : Char} (h : Token.isGap c) : isBlank c := by
  obtain (((rfl | rfl) | rfl) | rfl) | rfl : (((c = ' ' ∨ c = '\t') ∨ c = '\r') ∨ c = '\n') ∨
      c = '\x0c' := by
    simpa only [Token.isGap, Bool.or_eq_true, beq_iff_eq] using h
  all_goals decide

theorem isGap_trim (cs : List Char) : beginsWithAny Token.isGap (trim cs) = false :=
  Token.beginsWithAny_mono (isBlank_trim cs) fun _ => isBlank_of_isGap

/-- The text of a content begins with no blank. -/
theorem isGap_quoteContent (cs : List Char) :
    beginsWithAny Token.isGap (quoteContent cs) = false := by
  rw [quoteContent_eq]
  split
  · exact isGap_trim cs
  · rfl

/-- A source does not begin with a gap. -/
theorem Setting.isGap_source {scalar : Scalar} {value : String}
    (hsource : setting.source? scalar = some source)
    (hvalue : setting.normalizeScalar scalar = .ok value) :
    beginsWithAny Token.isGap source = false := by
  cases scalar with
  | text text =>
    obtain rfl := Option.some.inj hsource
    unfold sourceOfText
    split
    · exact isGap_quoteContent _
    · exact isGap_trim _
  | number x =>
    have hx := isFinite_of_normalizeScalar hvalue
    rw [source?] at hsource
    split at hsource
    · contradiction
    · obtain rfl := Option.some.inj hsource
      -- The source of a number is read as one token without a gap.
      have hreads := reads_sourceOfNumber setting.property hx
      generalize sourceOfNumber setting.property x = source at *
      cases hreads with
      | cons _ hends _ => exact hends.front

/-- The text of a content needs no more quotes. -/
theorem standsUnquoted_quoteContent (cs : List Char) : standsUnquoted (quoteContent cs) := by
  rw [quoteContent_eq]
  split
  · assumption
  · exact standsUnquoted_iff.2 ⟨by simp, .inl rfl⟩

/-- The source of a content needs no more quotes. -/
theorem Setting.standsUnquoted_source {scalar : Scalar} (hquoted : Property.isQuoted setting.property)
    (hsource : setting.source? scalar = some source) : standsUnquoted source := by
  cases scalar with
  | text text =>
    obtain rfl := Option.some.inj hsource
    rw [sourceOfText, if_pos hquoted]
    exact standsUnquoted_quoteContent _
  | number x =>
    rw [source?, hquoted] at hsource
    obtain rfl := Option.some.inj hsource
    rw [sourceOfNumber, if_pos hquoted]
    exact standsUnquoted_quoteContent _

/-- A value that was printed from its source is normalized to itself. -/
theorem Setting.normalizeScalar_print {scalar : Scalar} {value : String}
    (hsource : setting.source? scalar = some source)
    (hvalue : setting.normalizeScalar scalar = .ok value)
    (hnormal : setting.normalizeSource source = .ok value)
    (hstable : setting.isStable scalar) : setting.normalizeScalar (.text value) = .ok value := by
  obtain ⟨lexemes, text, hne, hreads, hprint, hcheck, rfl⟩ := normalizeSource_eq_ok_iff.1 hnormal
  have hfront := isGap_source hsource hvalue
  have hapart : setting.printsApart lexemes := by
    simpa [isStable, hsource, Token.lex_eq_ok_iff.2 hreads, Except.toOption] using hstable
  obtain ⟨printed, hprinted, htext, hform, hreads', hprint'⟩ := reads_print hreads hapart hprint
  have htrimmed : IsTrimmed text := by
    obtain ⟨token, rest, -, rfl, -, -⟩ := exists_token_of_reads hreads hne hfront
    obtain ⟨_, others, -, -, rfl⟩ := printedAfter_cons_iff.1 hprinted
    rw [htext] at hreads' ⊢
    exact isTrimmed_of_reads hreads' rfl
  -- The value is its own source: nothing is trimmed off it, and it needs no quotes.
  have hsame : sourceOfText setting.property (String.ofList text) = text := by
    rw [sourceOfText, String.toList_ofList]
    split
    · rename_i hquoted
      have hunquoted := standsUnquoted_print hreads hfront (standsUnquoted_source hquoted hsource)
        hapart hprint
      rw [quoteContent_eq, htrimmed.trim_eq, if_pos hunquoted]
    · exact htrimmed.trim_eq
  have hfilled : text ≠ [] := by
    rintro rfl
    exact absurd htrimmed.front (by decide)
  rw [normalizeScalar, hsame]
  exact normalizeSource_eq_ok_iff.2 ⟨printed, text, hfilled, hreads', hprint', hcheck, rfl⟩

theorem checkNumeric_number (property : String) (hreads : Reads source [⟨[], ⟨.number, source⟩⟩]) :
    checkNumeric property source = .ok () := by
  unfold checkNumeric
  split
  · rfl
  · simp [lexValue, Token.lex_eq_ok_iff.2 hreads, isNumeric, bind, Except.bind]

/-- A number that was printed bare is normalized to itself. -/
theorem Setting.normalizeScalar_bare {x : Binary64} (hx : x.isModerate)
    (hsource : setting.source? (.number x) = none) :
    setting.normalizeScalar (.text (String.ofList (formatNumber x))) =
      .ok (String.ofList (formatNumber x)) := by
  obtain ⟨n, hn⟩ := exists_numeral_formatNumber (isFinite_of_isModerate hx)
  have hreads : Reads (formatNumber x) [⟨[], ⟨.number, formatNumber x⟩⟩] := by
    rw [hn]
    exact reads_spell n
  have hquoted : Property.isQuoted setting.property = false := by
    by_contra hquoted
    simp [source?, hquoted] at hsource
  have hsame : sourceOfText setting.property (String.ofList (formatNumber x)) = formatNumber x := by
    rw [sourceOfText, hquoted, String.toList_ofList, hn]
    exact (isTrimmed_spell n).trim_eq
  have hprint : setting.print [⟨[], ⟨.number, formatNumber x⟩⟩] = .ok (formatNumber x) :=
    printAfter_cons_iff.2 ⟨_, [], (stays_number hx).token, rfl, by simp [Lexeme.space]⟩
  rw [normalizeScalar, hsame]
  exact normalizeSource_eq_ok_iff.2 ⟨_, _, by rw [hn]; exact n.spell_ne_nil, hreads, hprint,
    checkNumeric_number setting.property hreads, rfl⟩

/-- A stable value is its own canonical form. -/
theorem Setting.normalizeScalar_text {scalar : Scalar} {value : String}
    (hvalue : setting.normalizeScalar scalar = .ok value) (hstable : setting.isStable scalar) :
    setting.normalizeScalar (.text value) = .ok value := by
  obtain ⟨source, hsource, hnormal⟩ | ⟨x, rfl, hsource, rfl⟩ := normalizeScalar_cases hvalue
  · exact normalizeScalar_print hsource hvalue hnormal hstable
  · have hx : x.isModerate := by simpa [isStable, hsource] using hstable
    exact normalizeScalar_bare hx hsource

end Values

theorem scalars_toRaw (value : Value) : value.toRaw.scalars = value.texts.map .text := by
  unfold Value.toRaw
  split
  · rename_i text heq
    rw [heq]
    rfl
  · rfl

/-- A value whose scalars are stable is normalized to itself. -/
theorem normalize_toRaw {options : Options} {property : String} {raw : RawValue} {value : Value}
    (h : normalize options property raw = .ok value)
    (hstable : ∀ scalar ∈ raw.scalars, Setting.isStable ⟨property, options⟩ scalar) :
    normalize options property value.toRaw = .ok value := by
  rw [normalize_eq_ok_iff, scalars_toRaw, List.forall₂_map_left_iff, List.forall₂_same]
  intro text htext
  obtain ⟨scalar, hscalar, hvalue⟩ := exists_scalar_of_mem h htext
  exact Setting.normalizeScalar_text hvalue (hstable scalar hscalar)

theorem normalize_toRaw_fontSize :
    normalize { fontSizeInRem := true } "font-size"
        (.fallbacks [.text " Max(0.50EM,24PX  -  +1ex) ", .number 20]) =
          .ok ⟨["max(.5em,1.5rem - 1ex)", "1.25rem"]⟩ ∧
      normalize { fontSizeInRem := true } "font-size"
          (⟨["max(.5em,1.5rem - 1ex)", "1.25rem"]⟩ : Value).toRaw =
        .ok ⟨["max(.5em,1.5rem - 1ex)", "1.25rem"]⟩ := by
  have hnormal : normalize { fontSizeInRem := true } "font-size"
      (.fallbacks [.text " Max(0.50EM,24PX  -  +1ex) ", .number 20]) =
        .ok ⟨["max(.5em,1.5rem - 1ex)", "1.25rem"]⟩ := by
    decide +kernel
  exact ⟨hnormal, normalize_toRaw hnormal (by decide +kernel)⟩

/-- A zero loses its unit and becomes the first digit of the length behind it. -/
theorem normalize_toRaw_joined :
    normalize {} "margin" (.single (.text "0px1px")) = .ok ⟨["01px"]⟩ ∧
      normalize {} "margin" (⟨["01px"]⟩ : Value).toRaw = .ok ⟨["1px"]⟩ := by
  decide +kernel

end AtomicCss
