import AtomicCss.Proofs.Token.Trimmed
import AtomicCss.Proofs.Value.Printed
import AtomicCss.Value.Normalize
/-!
# What a value is printed from

The source of a number is one token, a string or a dimension (`reads_sourceOfNumber`). Quoting a text
gives one string in double quotes.
-/

namespace AtomicCss

open Token (Reads Ends IsInner IsUnit beginsWithAny)

theorem isTrimmed_spell (n : Decimal.Numeral) : IsTrimmed n.spell :=
  isTrimmed_of_forall n.spell_ne_nil fun c hc =>
    isGraphic_of_isMantissaChar (Token.isMantissaChar_of_mem_spell c hc)

/-! ## Quoting -/

/-- Escaped text may stand between double quotes. -/
theorem isInner_escapeQuotes (cs : List Char) : IsInner '"' (escapeQuotes cs) := by
  induction cs with
  | nil => exact .nil
  | cons c cs ih =>
    rw [escapeQuotes, List.flatMap_cons, ← escapeQuotes]
    split
    · rename_i hescaped
      refine .escaped ?_ ih
      obtain rfl | rfl := hescaped <;> decide
    · rename_i hplain
      obtain ⟨hquote, hslash⟩ := not_or.1 hplain
      exact .plain hquote hslash ih

/-- A token that may end at the end of the source is read alone. -/
theorem reads_single {token : Token} (h : Ends token []) : Reads token.text [⟨[], token⟩] := by
  have hreads : Reads ([] ++ (token.text ++ [])) [⟨[], token⟩] :=
    .cons (by simp) h (.nil (by simp))
  rwa [List.nil_append, List.append_nil] at hreads

/-- A text in quotes is one string. -/
theorem reads_quoted (cs : List Char) :
    Reads ('"' :: escapeQuotes cs ++ ['"'])
      [⟨[], ⟨.doubleQuoted, '"' :: escapeQuotes cs ++ ['"']⟩⟩] :=
  reads_single (.doubleQuoted (isInner_escapeQuotes cs))

/-- A text that `quoteContent` does not put in quotes. -/
def standsUnquoted (text : List Char) : Bool :=
  !text.isEmpty && ((text.head? == some '"' || text.head? == some '\'') ||
    contentKeywords.contains (String.ofList text) ||
    Property.globalKeywords.contains (String.ofList text) || startsWithFunction text)

/-- A content is quoted unless it can stand unquoted. -/
theorem quoteContent_eq (text : List Char) :
    quoteContent text =
      if standsUnquoted (trim text) then trim text
      else '"' :: escapeQuotes (trim text) ++ ['"'] :=
  rfl

/-! ## Numbers -/

/-- A numeral is read as a number. -/
theorem reads_spell (n : Decimal.Numeral) : Reads n.spell [⟨[], ⟨.number, n.spell⟩⟩] :=
  @reads_single ⟨.number, n.spell⟩ (.numeric (Token.scanNumeric?_spell rfl rfl))

/-- A numeral with a unit is read as a dimension. -/
theorem reads_spell_unit (n : Decimal.Numeral) {unit : List Char} (hunit : IsUnit unit)
    (hlone : unit ≠ ['e'] ∧ unit ≠ ['E']) :
    Reads (n.spell ++ unit) [⟨[], ⟨.dimension, n.spell ++ unit⟩⟩] := by
  refine @reads_single ⟨.dimension, n.spell ++ unit⟩ (.numeric ?_)
  rw [List.append_assoc]
  exact Token.scanNumeric?_spell_unit hunit hlone (.inr rfl)

/-- Without quotes and backslashes nothing is escaped. -/
theorem escapeQuotes_eq_self {cs : List Char} (h : ∀ c ∈ cs, c ≠ '"' ∧ c ≠ '\\') :
    escapeQuotes cs = cs := by
  induction cs with
  | nil => rfl
  | cons c cs ih =>
    obtain ⟨hc, hcs⟩ := List.forall_mem_cons.1 h
    have hplain : ¬(c = '"' ∨ c = '\\') := not_or.2 hc
    rw [escapeQuotes, List.flatMap_cons, if_neg hplain, ← escapeQuotes, ih hcs]
    rfl

theorem escapeQuotes_spell (n : Decimal.Numeral) : escapeQuotes n.spell = n.spell := by
  refine escapeQuotes_eq_self fun c hc => ⟨?_, ?_⟩
  · rintro rfl
    exact absurd (Token.isMantissaChar_of_mem_spell _ hc) (by decide)
  · rintro rfl
    exact absurd (Token.isMantissaChar_of_mem_spell _ hc) (by decide)

/-- A numeral is no keyword, since every keyword has a letter. -/
theorem contains_spell_eq_false (n : Decimal.Numeral) {words : List String}
    (hsub : ∀ word ∈ words, word ∈ contentKeywords ++ Property.globalKeywords) :
    words.contains (String.ofList n.spell) = false := by
  have hwords : ∀ word ∈ contentKeywords ++ Property.globalKeywords,
      word.toList.all Token.isMantissaChar = false := by
    decide
  refine Bool.eq_false_iff.2 fun hmem => ?_
  have hall := hwords _ (hsub _ (List.contains_iff_mem.1 hmem))
  rw [String.toList_ofList, List.all_eq_true.2 Token.isMantissaChar_of_mem_spell] at hall
  contradiction

/-- A numeral does not stand unquoted. -/
theorem standsUnquoted_spell (n : Decimal.Numeral) : standsUnquoted n.spell = false := by
  have hquote : ∀ c, Token.isMantissaChar c = false → (n.spell.head? == some c) = false := by
    intro c hc
    refine Bool.eq_false_iff.2 fun hhead => ?_
    have hmem := List.mem_of_mem_head? (beq_iff_eq.1 hhead)
    rw [Token.isMantissaChar_of_mem_spell c hmem] at hc
    contradiction
  have hfunction : startsWithFunction n.spell = false := by
    rw [startsWithFunction, Token.lex_eq_ok_iff.2 (reads_spell n)]
    rfl
  have hcontent : contentKeywords.contains (String.ofList n.spell) = false :=
    contains_spell_eq_false n fun _ => List.mem_append_left _
  have hglobal : Property.globalKeywords.contains (String.ofList n.spell) = false :=
    contains_spell_eq_false n fun _ => List.mem_append_right _
  -- A numeral is no string, no keyword, and it begins with no call.
  rw [standsUnquoted, hquote '"' rfl, hquote '\'' rfl, hcontent, hglobal, hfunction]
  simp

/-- A numeral is put in quotes. -/
theorem quoteContent_spell (n : Decimal.Numeral) :
    quoteContent n.spell = '"' :: n.spell ++ ['"'] := by
  rw [quoteContent_eq, (isTrimmed_spell n).trim_eq, standsUnquoted_spell, escapeQuotes_spell]
  rfl

/-- The token that a number stands for. -/
def tokenOfNumber (property : String) (x : Binary64) : Token :=
  if Property.isQuoted property then ⟨.doubleQuoted, '"' :: formatNumber x ++ ['"']⟩
  else if Property.isTime property then ⟨.dimension, withUnit x "ms"⟩
  else ⟨.dimension, withUnit x "px"⟩

/-- A finite number is read as one token. -/
theorem reads_sourceOfNumber (property : String) {x : Binary64} (h : x.isFinite) :
    Reads (sourceOfNumber property x) [⟨[], tokenOfNumber property x⟩] := by
  obtain ⟨n, hn⟩ := exists_numeral_formatNumber h
  unfold sourceOfNumber tokenOfNumber
  simp only [withUnit, hn]
  split
  · have hreads := reads_quoted n.spell
    rw [escapeQuotes_spell] at hreads
    rwa [quoteContent_spell]
  · split
    · obtain ⟨hunit, hlone⟩ := Dimension.isUnit_of_mem "ms" (by decide)
      exact reads_spell_unit n hunit hlone
    · obtain ⟨hunit, hlone⟩ := Dimension.isUnit_of_mem "px" (by decide)
      exact reads_spell_unit n hunit hlone

/-! ## From sources to values -/

section Normalize

variable {setting : Setting} {source : List Char} {text : String}

/-- A source is normalized if it is read, printed and passes the last check. -/
theorem Setting.normalizeSource_eq_ok_iff :
    setting.normalizeSource source = .ok text ↔
      ∃ lexemes printed, source ≠ [] ∧ Reads source lexemes ∧
        setting.print lexemes = .ok printed ∧ checkNumeric setting.property printed = .ok () ∧
        text = String.ofList printed := by
  simp only [← Token.lex_eq_ok_iff]
  cases source with
  | nil => simp [normalizeSource]
  | cons c cs =>
    cases hlex : Token.lex (c :: cs) with
    | error rest => simp [normalizeSource, printText, lexValue, hlex, bind, Except.bind]
    | ok lexemes =>
      cases hprint : setting.print lexemes with
      | error fault =>
        simp [normalizeSource, printText, lexValue, hlex, hprint, bind, Except.bind]
      | ok printed =>
        cases hcheck : checkNumeric setting.property printed with
        | error error =>
          simp [normalizeSource, printText, lexValue, hlex, hprint, hcheck, bind, Except.bind]
        | ok =>
          simp [normalizeSource, printText, lexValue, hlex, hprint, hcheck, bind, Except.bind, pure,
            Except.pure, eq_comm]

/-- The source of a value that is printed from one. -/
def Setting.source? (setting : Setting) : Scalar → Option (List Char)
  | .text text => some (sourceOfText setting.property text)
  | .number x =>
    if !Property.isQuoted setting.property && Property.isUnitless setting.property then none
    else some (sourceOfNumber setting.property x)

/-- A number that is normalized is finite. -/
theorem Setting.isFinite_of_normalizeScalar {x : Binary64}
    (h : setting.normalizeScalar (.number x) = .ok text) : x.isFinite := by
  rw [normalizeScalar] at h
  split at h
  · contradiction
  · rename_i hfinite
    simpa using hfinite

/-- A scalar is normalized through its source, or it is a number that is printed bare. -/
theorem Setting.normalizeScalar_cases {scalar : Scalar}
    (h : setting.normalizeScalar scalar = .ok text) :
    (∃ source, setting.source? scalar = some source ∧ setting.normalizeSource source = .ok text) ∨
      ∃ x, scalar = .number x ∧ setting.source? scalar = none ∧
        text = String.ofList (formatNumber x) := by
  cases scalar with
  | text text => exact .inl ⟨_, rfl, h⟩
  | number x =>
    have hfinite := isFinite_of_normalizeScalar h
    rw [normalizeScalar, hfinite] at h
    simp only [Bool.not_true, Bool.false_eq_true, if_false] at h
    split at h
    · rename_i hbare
      obtain rfl := Except.ok.inj h
      exact .inr ⟨x, rfl, by rw [source?, if_pos hbare], rfl⟩
    · rename_i hbare
      exact .inl ⟨_, by rw [source?, if_neg hbare], h⟩

/-- The source of a finite number is read as its token. -/
theorem Setting.reads_source? {x : Binary64} {lexemes : List Lexeme} (hx : x.isFinite)
    (hsource : setting.source? (.number x) = some source) (hreads : Reads source lexemes) :
    lexemes = [⟨[], tokenOfNumber setting.property x⟩] := by
  rw [source?] at hsource
  split at hsource
  · contradiction
  · obtain rfl := Option.some.inj hsource
    exact hreads.unique (reads_sourceOfNumber setting.property hx)

end Normalize

/-- Every item of a list has its result. -/
theorem forall₂_of_mapM {α β ε : Type} {f : α → Except ε β} {items : List α} {results : List β}
    (h : items.mapM f = .ok results) :
    List.Forall₂ (fun item result => f item = .ok result) items results := by
  induction items generalizing results with
  | nil =>
    obtain rfl := Except.ok.inj h
    exact .nil
  | cons item items ih =>
    rw [List.mapM_cons] at h
    cases hitem : f item with
    | error error => simp [hitem, bind, Except.bind] at h
    | ok result =>
      cases hitems : items.mapM f with
      | error error => simp [hitem, hitems, bind, Except.bind] at h
      | ok others =>
        obtain rfl : result :: others = results := by
          simpa [hitem, hitems, bind, Except.bind, pure, Except.pure] using h
        exact .cons hitem (ih hitems)

theorem mapM_of_forall₂ {α β ε : Type} {f : α → Except ε β} {items : List α} {results : List β}
    (h : List.Forall₂ (fun item result => f item = .ok result) items results) :
    items.mapM f = .ok results := by
  induction h with
  | nil => rfl
  | cons hitem _ ih => simp [hitem, ih, bind, Except.bind, pure, Except.pure]

/-- A value is normalized if all its scalars are. -/
theorem normalize_eq_ok_iff {options : Options} {property : String} {raw : RawValue}
    {value : Value} :
    normalize options property raw = .ok value ↔
      List.Forall₂ (fun scalar text =>
        Setting.normalizeScalar ⟨property, options⟩ scalar = .ok text) raw.scalars value.texts := by
  constructor
  · intro h
    cases htexts : raw.scalars.mapM (Setting.normalizeScalar ⟨property, options⟩) with
    | error error => simp [normalize, htexts, bind, Except.bind] at h
    | ok texts =>
      obtain rfl : ⟨texts⟩ = value := by
        simpa [normalize, htexts, bind, Except.bind, pure, Except.pure] using h
      exact forall₂_of_mapM htexts
  · intro h
    simp [normalize, mapM_of_forall₂ h, bind, Except.bind, pure, Except.pure]

section Results

variable {α β ε : Type} {f : α → Except ε β} {items : List α} {results : List β}

/-- Each item of a list that is mapped without an error has its result. -/
theorem exists_result_of_forall₂
    (h : List.Forall₂ (fun item result => f item = .ok result) items results) {item : α}
    (hitem : item ∈ items) : ∃ result ∈ results, f item = .ok result := by
  induction h with
  | nil => cases hitem
  | @cons head result _ _ hhead _ ih =>
    rcases List.mem_cons.1 hitem with rfl | hrest
    · exact ⟨result, List.mem_cons_self, hhead⟩
    · obtain ⟨other, hother, hresult⟩ := ih hrest
      exact ⟨other, List.mem_cons_of_mem _ hother, hresult⟩

/-- There are no other results than those of the items. -/
theorem mem_iff_of_forall₂
    (h : List.Forall₂ (fun item result => f item = .ok result) items results) {result : β} :
    result ∈ results ↔ ∃ item ∈ items, f item = .ok result := by
  constructor
  · intro hresult
    induction h with
    | nil => cases hresult
    | @cons item head _ _ hhead _ ih =>
      rcases List.mem_cons.1 hresult with rfl | hrest
      · exact ⟨item, List.mem_cons_self, hhead⟩
      · obtain ⟨other, hother, hf⟩ := ih hrest
        exact ⟨other, List.mem_cons_of_mem _ hother, hf⟩
  · rintro ⟨item, hitem, hf⟩
    -- An item has one result only.
    obtain ⟨other, hother, hf'⟩ := exists_result_of_forall₂ h hitem
    cases hf.symm.trans hf'
    exact hother

end Results

section Texts

variable {options : Options} {property : String} {raw : RawValue} {value : Value}

/-- The texts of a value are those of its scalars. -/
theorem mem_texts_iff (h : normalize options property raw = .ok value) {text : String} :
    text ∈ value.texts ↔
      ∃ scalar ∈ raw.scalars, Setting.normalizeScalar ⟨property, options⟩ scalar = .ok text :=
  mem_iff_of_forall₂ (normalize_eq_ok_iff.1 h)

/-- Each scalar of a value has its text. -/
theorem exists_text_of_mem (h : normalize options property raw = .ok value) {scalar : Scalar}
    (hscalar : scalar ∈ raw.scalars) :
    ∃ text ∈ value.texts, Setting.normalizeScalar ⟨property, options⟩ scalar = .ok text :=
  exists_result_of_forall₂ (normalize_eq_ok_iff.1 h) hscalar

/-- Every text of a value comes from one of the scalars. -/
theorem exists_scalar_of_mem (h : normalize options property raw = .ok value) {text : String}
    (htext : text ∈ value.texts) :
    ∃ scalar ∈ raw.scalars, Setting.normalizeScalar ⟨property, options⟩ scalar = .ok text :=
  (mem_texts_iff h).1 htext

end Texts

end AtomicCss
