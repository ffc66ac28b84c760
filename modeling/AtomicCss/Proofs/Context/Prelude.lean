import AtomicCss.Context
import AtomicCss.Proofs.Token.Spacing
import AtomicCss.Proofs.Token.Trimmed
/-!
# The canonical spelling of at-rules

The canonical prelude of an at-rule is read as the tokens of the prelude that was authored
(`reads_tidy`): a space is left wherever a gap keeps two tokens apart, and those gaps are dropped that
stand beside a parenthesis, a colon or a comma. So the canonical spelling is its own canonical spelling,
and two at-rules have the same one just if they differ in such gaps only (`condition_canonical`).
-/

namespace AtomicCss

open Token (Reads Ends JoinsLess joinsToken isSign isQuote urlName beginsWithAny)

namespace AtRule

/-- The word that an at-rule begins with. -/
def keywordOf (text : List Char) : List Char :=
  (trim text).takeWhile (!endsKeyword ·)

/-- What stands behind the word. -/
def preludeOf (text : List Char) : List Char :=
  trim ((trim text).dropWhile (!endsKeyword ·))

/-- An at-rule whose prelude is read as lexemes. -/
structure IsReadable (condition : String) (lexemes : List Lexeme) : Prop where
  front : (trim condition.toList).head? = some '@'
  reads : Token.lex (preludeOf condition.toList) = .ok lexemes

/-- The boundaries of a prelude at which a gap does not count: behind an opening parenthesis, a colon or
a comma, and in front of a closing parenthesis, a colon or a comma. -/
def isLoose (_ : List Token) (before after : Token) : Bool :=
  [.leftParen, .function, .colon, .comma].contains before.kind ||
    [.rightParen, .colon, .comma].contains after.kind

theorem isLoose_eq_isTight (front : List Token) (before after : Token) :
    isLoose front before after = isTight before after := by
  obtain ⟨kind, _⟩ := before
  obtain ⟨kind', _⟩ := after
  cases kind <;> cases kind' <;> rfl

/-! ## The lexemes of a canonical prelude -/

/-- The gap that is kept in front of a lexeme. -/
def keptGap (before : Option Token) (lexeme : Lexeme) : List Char :=
  match before with
  | none => []
  | some before => if lexeme.gap.isEmpty || isTight before lexeme.token then [] else [' ']

/-- Lexemes with the gaps that are kept, behind the token `before`. -/
def tidy : Option Token → List Lexeme → List Lexeme
  | _, [] => []
  | before, lexeme :: rest => ⟨keptGap before lexeme, lexeme.token⟩ :: tidy (some lexeme.token) rest

/-- Tidy lexemes spell the prelude. -/
theorem spell_tidy (before : Option Token) (lexemes : List Lexeme) :
    Lexeme.spell (tidy before lexemes) = spellPrelude before lexemes := by
  induction lexemes generalizing before with
  | nil => rfl
  | cons lexeme rest ih =>
    rw [tidy, Lexeme.spell_cons, ih]
    cases before with
    | none => rfl
    | some before => rw [spellPrelude, keptGap, List.append_assoc]

/-- Tidying leaves the tokens as they are. -/
@[simp]
theorem map_token_tidy (before : Option Token) (lexemes : List Lexeme) :
    (tidy before lexemes).map (·.token) = lexemes.map (·.token) := by
  induction lexemes generalizing before with
  | nil => rfl
  | cons lexeme rest ih => rw [tidy, List.map_cons, List.map_cons, ih]

theorem isGap_of_mem_keptGap {before : Option Token} {lexeme : Lexeme} :
    ∀ c ∈ keptGap before lexeme, Token.isGap c := by
  cases before with
  | none => simp [keptGap]
  | some before =>
    rw [keptGap]
    split
    · simp
    · exact List.forall_mem_singleton.2 rfl

end AtRule

/-! ## What a canonical prelude is read as -/

namespace Token

variable {token : Token} {rest rest' : List Char}

/-- An opening parenthesis, a colon and a comma end in front of every text. -/
theorem Ends.of_opening (h : Ends token rest)
    (hkind : token.opens || token.kind == .colon || token.kind == .comma)
    (hurl : token.kind = .function → token.text ≠ urlName ++ ['(']) : Ends token rest' := by
  -- Of the calls only `url(` looks at what follows, and of the marks only those of numbers.
  cases h with
  | numeric h =>
    rcases scanNumeric?_kind h with h | h <;> simp [opens, h] at hkind
  | function hname hnot hdashes => exact .function hname hnot hdashes
  | urlFunction => exact absurd rfl (hurl rfl)
  | @punctuation c kind _ hchar =>
    have hmantissa : isMantissaChar c = false := by
      refine Bool.eq_false_iff.2 fun hmantissa => ?_
      rcases mantissa_of_punctuation? hchar hmantissa with ⟨-, rfl⟩ | ⟨-, rfl⟩ | ⟨-, rfl⟩ <;>
        exact absurd hkind Bool.false_ne_true
    refine .punctuation hchar (startsNumber_cons hmantissa) (spanName?_cons ?_ ?_)
    · rintro rfl
      exact absurd hmantissa (by decide)
    · exact (punctuation_apart hchar).1
  | _ => exact absurd hkind Bool.false_ne_true

/-- A closing parenthesis, a colon and a comma continue no token. -/
theorem Ends.apart_of_closing (h : Ends token rest)
    (hkind : token.kind = .rightParen ∨ token.kind = .colon ∨ token.kind = .comma)
    (rest' : List Char) : beginsWithAny joinsToken (token.text ++ rest') = false := by
  obtain ⟨c, hchar, htext⟩ := h.punctuation_of_kind (by rcases hkind with h | h | h <;> rw [h] <;> rfl)
  have hall : Token.punctuation.all fun row =>
      !joinsToken row.1 || !(row.2 == .rightParen || row.2 == .colon || row.2 == .comma) := by
    decide
  have hrow := List.all_eq_true.1 hall _ (mem_punctuation hchar)
  rw [htext, List.singleton_append, beginsWithAny_cons]
  rcases hkind with hkind | hkind | hkind <;> simpa [hkind] using hrow

end Token

namespace AtRule

variable {token : Token} {rest : List Char} {lexemes : List Lexeme}

/-- A token in front of the lexemes of a text also ends in front of the same lexemes with the gaps that
are kept. -/
theorem ends_tidy (hends : Ends token rest) (hreads : Reads rest lexemes)
    (hreads' : Reads (Lexeme.spell (tidy (some token) lexemes)) (tidy (some token) lexemes)) :
    Ends token (Lexeme.spell (tidy (some token) lexemes)) := by
  cases hreads with
  | nil hblanks =>
    cases rest with
    | nil => exact hends
    | cons c blanks => exact hends.of_gap (hblanks c List.mem_cons_self) rfl
  | @cons gap rest token' lexemes hgap hends' hreads =>
    have hends'' := ends_of_reads_spell hreads'
    rw [tidy, Lexeme.spell_cons]
    cases gap with
    | nil => exact hends.of_adjacent hends' hends''
    | cons c gap =>
      have hfront : beginsWithAny Token.isGap (c :: gap ++ (token'.text ++ rest)) :=
        hgap c List.mem_cons_self
      have hspace : ∀ more, beginsWithAny joinsToken ([' '] ++ more) = false := fun _ => rfl
      rw [keptGap]
      split
      · -- The gap was dropped, since one of the tokens ends every token beside it.
        rename_i htight
        obtain hkind | hkind : (token.opens || token.kind == .colon || token.kind == .comma) ∨
            (token'.kind = .rightParen ∨ token'.kind = .colon ∨ token'.kind = .comma) := by
          simpa [isTight, or_assoc] using htight
        · exact hends.of_opening hkind fun hfunction => hends.ne_url_of_gap hfront hfunction
        · exact hends.of_gap hfront (hends'.apart_of_closing hkind _)
      · exact hends.of_gap hfront (hspace _)

/-- The lexemes with the gaps that are kept are read from their text. -/
theorem reads_tidy {cs : List Char} (hreads : Reads cs lexemes) (before : Option Token) :
    Reads (Lexeme.spell (tidy before lexemes)) (tidy before lexemes) := by
  induction hreads generalizing before with
  | nil => exact .nil (by simp [Lexeme.spell, tidy])
  | @cons gap rest token lexemes _ hends hreads ih =>
    have hrest := ih (some token)
    rw [tidy, Lexeme.spell_cons]
    exact .cons isGap_of_mem_keptGap (ends_tidy hends hreads hrest) hrest

/-! ## Canonical at-rules -/

theorem keptGap_keptGap (before : Option Token) (lexeme : Lexeme) :
    keptGap before ⟨keptGap before lexeme, lexeme.token⟩ = keptGap before lexeme := by
  cases before with
  | none => rfl
  | some before =>
    simp only [keptGap]
    split
    · rfl
    · rename_i hkept
      have htight : isTight before lexeme.token = false := by simp_all
      rw [htight]
      rfl

/-- Tidy lexemes stay as they are. -/
theorem tidy_tidy (before : Option Token) (lexemes : List Lexeme) :
    tidy before (tidy before lexemes) = tidy before lexemes := by
  induction lexemes generalizing before with
  | nil => rfl
  | cons lexeme rest ih => rw [tidy, tidy, keptGap_keptGap, ih]

/-- The canonical text is the keyword and the tidied prelude, with a blank between them. -/
theorem canonicalText_of_lex {text : List Char} (h : Token.lex (preludeOf text) = .ok lexemes) :
    canonicalText text = keywordOf text ++
      if lexemes.isEmpty then [] else ' ' :: Lexeme.spell (tidy none lexemes) := by
  rw [preludeOf] at h
  simp only [canonicalText, h, spell_tidy]
  cases lexemes with
  | nil => exact (List.append_nil _).symm
  | cons => rfl

theorem begins_at {word : List Char} (hfront : word.head? = some '@') (tail : List Char) :
    beginsWithAny isBlank (word ++ tail) = false := by
  cases word with
  | nil => contradiction
  | cons c word =>
    obtain rfl := Option.some.inj hfront
    rfl

/-- A word alone is a keyword without a prelude. -/
theorem parts_word {word : List Char} (hword : ∀ c ∈ word, endsKeyword c = false)
    (hfront : word.head? = some '@') :
    trim word = word ∧ keywordOf word = word ∧ preludeOf word = [] := by
  have hkeep : ∀ c ∈ word, (!endsKeyword c) = true := fun c hc => by rw [hword c hc]; rfl
  have hblank := begins_at hfront []
  rw [List.append_nil] at hblank
  have htrim : trim word = word := by
    refine trim_eq_self hblank fun c hc => ?_
    have hc := hword c (List.mem_of_getLast? hc)
    simp only [endsKeyword, Bool.or_eq_false_iff] at hc
    exact hc.1
  rw [keywordOf, preludeOf, htrim, List.takeWhile_eq_self_iff.2 hkeep,
    List.dropWhile_eq_nil_iff.2 hkeep]
  exact ⟨rfl, rfl, rfl⟩

/-- A blank behind a word begins the prelude. -/
theorem parts_word_append {word tail : List Char} (hword : ∀ c ∈ word, endsKeyword c = false)
    (hfront : word.head? = some '@') (htail : IsTrimmed tail) :
    trim (word ++ ' ' :: tail) = word ++ ' ' :: tail ∧
      keywordOf (word ++ ' ' :: tail) = word ∧ preludeOf (word ++ ' ' :: tail) = tail := by
  have hkeep : ∀ c ∈ word, (!endsKeyword c) = true := fun c hc => by rw [hword c hc]; rfl
  obtain ⟨init, c, hlast, hc⟩ := htail.back
  -- The text begins with an at sign and ends with a visible character.
  have htrim : trim (word ++ ' ' :: tail) = word ++ ' ' :: tail := by
    refine trim_eq_self (begins_at hfront _) fun d hd => ?_
    rw [hlast, ← List.cons_append, ← List.append_assoc, List.getLast?_concat] at hd
    obtain rfl := Option.some.inj hd
    exact isBlank_of_isGraphic hc
  have hend : beginsWithAny (!endsKeyword ·) (' ' :: tail) = false := rfl
  have hdrop : trim (' ' :: tail) = trim tail := rfl
  rw [keywordOf, preludeOf, htrim, Token.takeWhile_append_eq hkeep hend,
    Token.dropWhile_append_eq hkeep hend, hdrop, htail.trim_eq]
  exact ⟨rfl, rfl, rfl⟩

/-- The parts of an at-rule are found again: a word without blanks and parentheses, and a prelude that
begins and ends with visible characters. -/
theorem parts_append {word tail : List Char} (hword : ∀ c ∈ word, endsKeyword c = false)
    (hfront : word.head? = some '@') (htail : tail = [] ∨ IsTrimmed tail) :
    let text := word ++ if tail.isEmpty then [] else ' ' :: tail
    trim text = text ∧ keywordOf text = word ∧ preludeOf text = tail := by
  intro text
  rcases htail with rfl | htrimmed
  · have htext : text = word := List.append_nil word
    rw [htext]
    exact parts_word hword hfront
  · have hne : tail.isEmpty = false := by
      obtain ⟨init, c, rfl, -⟩ := htrimmed.back
      simp
    have htext : text = word ++ ' ' :: tail := by
      simp only [text, hne]
      rfl
    rw [htext]
    exact parts_word_append hword hfront htrimmed

section Readable

variable {condition other : String} {others : List Lexeme}

/-- The keyword begins with an at sign. -/
theorem IsReadable.keyword_front (h : IsReadable condition lexemes) :
    (keywordOf condition.toList).head? = some '@' := by
  have hfront := h.front
  rw [keywordOf]
  cases htrim : trim condition.toList with
  | nil => rw [htrim] at hfront; contradiction
  | cons c rest =>
    rw [htrim] at hfront
    obtain rfl := Option.some.inj hfront
    rfl

/-- A canonical at-rule is read as the lexemes with the gaps that are kept. -/
theorem IsReadable.canonical (h : IsReadable condition lexemes) :
    IsReadable (AtRule.canonical condition) (tidy none lexemes) ∧
      keywordOf (AtRule.canonical condition).toList = keywordOf condition.toList ∧
      trim (AtRule.canonical condition).toList = (AtRule.canonical condition).toList := by
  have hreads := reads_tidy (Token.lex_eq_ok_iff.1 h.reads) none
  have hwords : ∀ c ∈ keywordOf condition.toList, endsKeyword c = false := fun c hc => by
    simpa using List.mem_takeWhile_imp hc
  have htail : Lexeme.spell (tidy none lexemes) = [] ∨ IsTrimmed (Lexeme.spell (tidy none lexemes)) := by
    cases lexemes with
    | nil => exact .inl rfl
    | cons lexeme rest => exact .inr (isTrimmed_of_reads hreads rfl)
  -- Lexemes have a text just if there are any.
  have hempty : (Lexeme.spell (tidy none lexemes)).isEmpty = lexemes.isEmpty := by
    cases lexemes with
    | nil => rfl
    | cons lexeme rest =>
      have hne := (ends_of_reads_spell hreads).text_ne_nil
      simp only at hne
      simp [tidy, Lexeme.spell_cons, hne]
  obtain ⟨htrim, hkeyword, hprelude⟩ := parts_append hwords h.keyword_front htail
  have htext : (AtRule.canonical condition).toList = keywordOf condition.toList ++
      if (Lexeme.spell (tidy none lexemes)).isEmpty then []
      else ' ' :: Lexeme.spell (tidy none lexemes) := by
    rw [AtRule.canonical, String.toList_ofList, canonicalText_of_lex h.reads, hempty]
  rw [← htext] at htrim hkeyword hprelude
  refine ⟨⟨?_, ?_⟩, hkeyword, htrim⟩
  · rw [htrim, htext, List.head?_append, h.keyword_front]
    rfl
  · rw [hprelude]
    exact Token.lex_eq_ok_iff.2 hreads

/-- Blanks around a condition do not count. -/
theorem canonical_trim (text : List Char) : canonicalText (trim text) = canonicalText text := by
  simp only [canonicalText, trim_trim]

/-- An at-rule opens the context of its canonical spelling. -/
theorem IsReadable.ofKey? (h : IsReadable condition lexemes) :
    Context.ofKey? condition = some (.atRule (AtRule.canonical condition)) := by
  have hfront := h.front
  cases htrim : trim condition.toList with
  | nil => rw [htrim] at hfront; contradiction
  | cons c rest =>
    rw [htrim] at hfront
    obtain rfl := Option.some.inj hfront
    have hkey : Context.ofKey? condition =
        some (.atRule (AtRule.canonical (String.ofList ('@' :: rest)))) := by
      rw [Context.ofKey?, htrim]
      rfl
    rw [hkey, AtRule.canonical, String.toList_ofList, ← htrim, canonical_trim, AtRule.canonical]

/-- A canonical condition stays as it is. -/
theorem IsReadable.canonical_canonical (h : IsReadable condition lexemes) :
    AtRule.canonical (AtRule.canonical condition) = AtRule.canonical condition := by
  obtain ⟨hreadable, hkeyword, -⟩ := h.canonical
  have htext := canonicalText_of_lex hreadable.reads
  have hempty : (tidy none lexemes).isEmpty = lexemes.isEmpty := by
    cases lexemes <;> rfl
  rw [hkeyword, tidy_tidy, hempty, ← canonicalText_of_lex h.reads] at htext
  rw [AtRule.canonical, htext]
  rfl

/-! ## At-rules with the same spelling -/

/-- Alike tokens are tight in the same places. -/
theorem isTight_congr {before before' after after' : Token} (hbefore : Token.Alike before before')
    (hafter : Token.Alike after after') : isTight before after = isTight before' after' := by
  have hkind : ∀ {a b : Token} (kind : Token.Kind), kind ≠ .number → kind ≠ .dimension →
      Token.Alike a b → (a.kind == kind) = (b.kind == kind) := by
    intro a b kind hnumber hdimension halike
    rw [Bool.eq_iff_iff, beq_iff_eq, beq_iff_eq]
    exact halike.kind_eq_iff hnumber hdimension
  simp only [isTight, Token.opens]
  rw [hkind .function (by decide) (by decide) hbefore, hkind .leftParen (by decide) (by decide) hbefore,
    hkind .colon (by decide) (by decide) hbefore, hkind .comma (by decide) (by decide) hbefore,
    hkind .rightParen (by decide) (by decide) hafter, hkind .colon (by decide) (by decide) hafter,
    hkind .comma (by decide) (by decide) hafter]

/-- Between tokens that are not tight a gap stays a gap. -/
theorem keptGap_eq_nil_iff {before : Token} {lexeme : Lexeme} (h : isTight before lexeme.token = false) :
    keptGap (some before) lexeme = [] ↔ lexeme.gap = [] := by
  rw [keptGap, h, Bool.or_false]
  split <;> simp_all

/-- Where the gaps agree, the same spaces are left. -/
theorem spell_tidy_congr {x y : Lexeme} {a b : List Lexeme}
    (halike : List.Forall₂ (fun x y => Token.Alike x.token y.token) (x :: a) (y :: b))
    (hgaps : Lexeme.GapsAgree isLoose (x :: a) (y :: b)) :
    Lexeme.spell (tidy (some x.token) a) = Lexeme.spell (tidy (some y.token) b) := by
  -- Along both lists: a gap that is not the same on both sides stands where it is dropped.
  induction a generalizing x y b with
  | nil =>
    cases halike with
    | cons _ hrest =>
      cases hrest
      rfl
  | cons x' a ih =>
    cases halike with
    | @cons _ _ _ _ hfirst hrest =>
      cases hrest with
      | @cons _ y' _ b hnext hmore =>
        obtain ⟨hgap, hgaps⟩ := Lexeme.gapsAgree_cons_iff.1 hgaps
        have hkept : keptGap (some x.token) x' = keptGap (some y.token) y' := by
          rw [isLoose_eq_isTight] at hgap
          rw [keptGap, keptGap, ← isTight_congr hfirst hnext]
          cases htight : isTight x.token x'.token with
          | true => rw [Bool.or_true, Bool.or_true]
          | false =>
            have hempty : x'.gap.isEmpty = y'.gap.isEmpty := by
              rw [Bool.eq_iff_iff, List.isEmpty_iff, List.isEmpty_iff]
              exact hgap htight
            rw [hempty]
        rw [tidy, tidy, Lexeme.spell_cons, Lexeme.spell_cons, hkept, hnext.text_eq,
          ih (.cons hnext hmore) hgaps]

/-- Where the same spaces are left, the gaps agree. -/
theorem gapsAgree_of_tidy {x y : Lexeme} {a b : List Lexeme} (htoken : x.token = y.token)
    (htidy : tidy (some x.token) a = tidy (some y.token) b) :
    Lexeme.GapsAgree isLoose (x :: a) (y :: b) := by
  induction a generalizing x y b with
  | nil => exact Lexeme.gapsAgree_singleton
  | cons x' a ih =>
    cases b with
    | nil => contradiction
    | cons y' b =>
      obtain ⟨hlexeme, hrest⟩ := List.cons.inj htidy
      obtain ⟨hkept, htoken'⟩ := Lexeme.mk.inj hlexeme
      refine Lexeme.gapsAgree_cons_iff.2 ⟨fun hloose => ?_, ih htoken' hrest⟩
      rw [isLoose_eq_isTight] at hloose
      have hloose' : isTight y.token y'.token = false := by rw [← htoken, ← htoken', hloose]
      rw [← keptGap_eq_nil_iff hloose, ← keptGap_eq_nil_iff hloose', hkept]

/-- The canonical prelude is read in one way only. -/
theorem IsReadable.tidy_eq (h : IsReadable condition lexemes) (h' : IsReadable other others)
    (hsame : AtRule.canonical condition = AtRule.canonical other) :
    tidy none lexemes = tidy none others := by
  obtain ⟨hreadable, -⟩ := h.canonical
  obtain ⟨hreadable', -⟩ := h'.canonical
  rw [hsame] at hreadable
  exact Except.ok.inj (hreadable.reads.symm.trans hreadable'.reads)

/-- The same spaces are left in the same texts, gap by gap. -/
theorem texts_and_gaps_of_tidy (htidy : tidy none lexemes = tidy none others) :
    lexemes.map (·.token.text) = others.map (·.token.text) ∧
      Lexeme.GapsAgree isLoose lexemes others := by
  have htokens : lexemes.map (·.token) = others.map (·.token) := by
    rw [← map_token_tidy none, htidy, map_token_tidy]
  constructor
  · simpa only [List.map_map, Function.comp_def] using congrArg (List.map Token.text) htokens
  · cases lexemes with
    | nil => exact fun i hi => absurd hi (Nat.not_lt_zero i)
    | cons x a =>
      cases others with
      | nil => contradiction
      | cons y b =>
        obtain ⟨hlexeme, hrest⟩ := List.cons.inj htidy
        exact gapsAgree_of_tidy (Lexeme.mk.inj hlexeme).2 hrest

/-- Conditions are the same if their keywords, their slices and their gaps agree. -/
theorem IsReadable.canonical_eq_iff (h : IsReadable condition lexemes) (h' : IsReadable other others) :
    AtRule.canonical condition = AtRule.canonical other ↔
      keywordOf condition.toList = keywordOf other.toList ∧
        lexemes.map (·.token.text) = others.map (·.token.text) ∧
        Lexeme.GapsAgree isLoose lexemes others := by
  constructor
  · intro hsame
    obtain ⟨-, hkeyword, -⟩ := h.canonical
    obtain ⟨-, hkeyword', -⟩ := h'.canonical
    rw [hsame] at hkeyword
    exact ⟨hkeyword.symm.trans hkeyword', texts_and_gaps_of_tidy (h.tidy_eq h' hsame)⟩
  · rintro ⟨hkeyword, htexts, hgaps⟩
    -- Tokens with the same texts are the same up to what is cut short, which prints alike.
    have halike := alike_of_reads (Token.lex_eq_ok_iff.1 h.reads) (Token.lex_eq_ok_iff.1 h'.reads) htexts
    have htail : (if lexemes.isEmpty then [] else ' ' :: Lexeme.spell (tidy none lexemes)) =
        if others.isEmpty then [] else ' ' :: Lexeme.spell (tidy none others) := by
      cases halike with
      | nil => rfl
      | @cons x y a b hfirst hrest =>
        have hspell := spell_tidy_congr (.cons hfirst hrest) hgaps
        simp only [List.isEmpty_cons, tidy, Lexeme.spell_cons, keptGap, hspell, hfirst.text_eq]
    rw [AtRule.canonical, AtRule.canonical, canonicalText_of_lex h.reads,
      canonicalText_of_lex h'.reads, hkeyword, htail]

end Readable

end AtRule

/-- An at-rule whose prelude can be read opens a context whose text opens the same context again and is
read as the same tokens. Two such at-rules open the same context if and only if they have the same
keyword, the same tokens, and gaps at the same boundaries, apart from those that stand beside a
parenthesis, a colon or a comma. -/
theorem canonical_atRule {key other : String} {lexemes others : List Lexeme}
    (hkey : AtRule.IsReadable key lexemes) (hother : AtRule.IsReadable other others) :
    (∃ context printed, Context.ofKey? key = some context ∧
      Context.ofKey? context.text = some context ∧
      AtRule.IsReadable context.text printed ∧
      AtRule.keywordOf context.text.toList = AtRule.keywordOf key.toList ∧
      printed.map (·.token) = lexemes.map (·.token)) ∧
    (Context.ofKey? key = Context.ofKey? other ↔
      AtRule.keywordOf key.toList = AtRule.keywordOf other.toList ∧
      lexemes.map (·.token.text) = others.map (·.token.text) ∧
      Lexeme.GapsAgree AtRule.isLoose lexemes others) := by
  constructor
  · obtain ⟨hreadable, hkeyword, -⟩ := hkey.canonical
    have hagain := hreadable.ofKey?
    rw [hkey.canonical_canonical] at hagain
    exact ⟨_, _, hkey.ofKey?, hagain, hreadable, hkeyword, AtRule.map_token_tidy none lexemes⟩
  · rw [hkey.ofKey?, hother.ofKey?, ← hkey.canonical_eq_iff hother]
    constructor
    · intro hsame
      exact Context.atRule.inj (Option.some.inj hsame)
    · intro hsame
      rw [hsame]

/-- Gaps beside the parentheses and the colon do not count, and of the others only where they are. -/
theorem canonical_atRule_media :
    let key := "@media  ( min-width : 48em )and screen"
    let other := "@media(min-width:48em) and screen"
    let third := "@media(min-width:48em)and  screen "
    ∃ lexemes others thirds, AtRule.IsReadable key lexemes ∧ AtRule.IsReadable other others ∧
      AtRule.IsReadable third thirds ∧
      Context.ofKey? key ≠ Context.ofKey? other ∧ Context.ofKey? key = Context.ofKey? third ∧
      ∃ context printed, Context.ofKey? key = some context ∧
        Context.ofKey? context.text = some context ∧ AtRule.IsReadable context.text printed ∧
        printed.map (·.token) = lexemes.map (·.token) := by
  intro key other third
  let read := fun condition : String =>
    (Token.lex (AtRule.preludeOf condition.toList)).toOption.getD []
  have hkey : AtRule.IsReadable key (read key) := ⟨by decide +kernel, by decide +kernel⟩
  have hother : AtRule.IsReadable other (read other) := ⟨by decide +kernel, by decide +kernel⟩
  have hthird : AtRule.IsReadable third (read third) := ⟨by decide +kernel, by decide +kernel⟩
  obtain ⟨⟨context, printed, hcontext, hagain, hreads, -, htokens⟩, hsame⟩ :=
    canonical_atRule hkey hother
  refine ⟨_, _, _, hkey, hother, hthird, ?_, ?_, context, printed, hcontext, hagain, hreads, htokens⟩
  · rw [Ne, hsame]
    decide +kernel
  · rw [(canonical_atRule hkey hthird).2]
    decide +kernel

end AtomicCss
