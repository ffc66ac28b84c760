import AtomicCss.Proofs.Build.Emitted
import AtomicCss.Proofs.ClassName.Digits
import AtomicCss.Proofs.Compile.Correspondence
import AtomicCss.Proofs.Compile.Declarations
import AtomicCss.Proofs.Lint.Clean
import AtomicCss.Proofs.Lint.Walk
import AtomicCss.Proofs.Value.Marks
/-!
# What linting says about emitted declarations

The rules `valid-property` and `no-important` look at what is authored, before keys are resolved and
values are normalized. Where a sheet lints clean, the declarations of its classes have known
properties and are not important. The two rules do not look into the steps of keyframes, as the rule
`valid-value` does, and there everything depends on the steps (`legal_iff_steps_legal`).
-/

namespace AtomicCss

open Token (Ends Reads)

namespace Lint

/-! ## Important texts -/

theorem mentionsImportant_append (front : List Char) {cs : List Char} (h : mentionsImportant cs) :
    mentionsImportant (front ++ cs) := by
  induction front with
  | nil => exact h
  | cons c front ih => rw [List.cons_append, mentionsImportant, ih, Bool.or_true]

theorem mentionsImportant_mark {blanks : List Char} (hblanks : ∀ c ∈ blanks, Token.isInnerBlank c)
    (back : List Char) : mentionsImportant ('!' :: (blanks ++ (Token.importantWord ++ back))) := by
  have hblank : ∀ c ∈ blanks, isBlank c := by
    intro c hc
    obtain rfl | rfl : c = ' ' ∨ c = '\t' := by simpa [Token.isInnerBlank] using hblanks c hc
    · rfl
    · rfl
  have hword : Token.beginsWithAny isBlank (Token.importantWord ++ back) = false := by
    rw [Token.importantWord, List.cons_append, Token.beginsWithAny_cons]
    decide
  have hlower : lowercase (Token.importantWord ++ back) = Token.importantWord ++ lowercase back :=
    List.map_append
  rw [mentionsImportant, Token.dropWhile_append_eq hblank hword, hlower,
    List.isPrefixOf_iff_prefix.2 (List.prefix_append _ _)]
  rfl

theorem blanks_of_important {token : Token} {rest : List Char} (h : Ends token rest)
    (hkind : token.kind = .important) :
    ∃ blanks, token.text = '!' :: blanks ++ Token.importantWord ∧
      ∀ c ∈ blanks, Token.isInnerBlank c := by
  cases h with
  | numeric h => obtain h | h := Token.scanNumeric?_kind h <;> simp [h] at hkind
  | important hblanks => exact ⟨_, rfl, hblanks⟩
  | punctuation hchar =>
    obtain rfl : _ = Token.Kind.important := hkind
    exact absurd (Token.isPunctuation_kind hchar) Bool.false_ne_true
  | _ => contradiction

/-- A text mentions what it is read as, whatever stands behind it. -/
theorem mentionsImportant_of_reads {cs : List Char} {lexemes : List Lexeme} (h : Reads cs lexemes)
    (hmark : ∃ lexeme ∈ lexemes, lexeme.token.kind = .important) (back : List Char) :
    mentionsImportant (cs ++ back) := by
  induction h with
  | nil => simp at hmark
  | @cons gap rest token lexemes _ hends _ ih =>
    rw [List.append_assoc, List.append_assoc]
    refine mentionsImportant_append gap ?_
    obtain ⟨lexeme, hlexeme, hkind⟩ := hmark
    rcases List.mem_cons.1 hlexeme with rfl | hlater
    · obtain ⟨blanks, htext, hblanks⟩ := blanks_of_important hends hkind
      rw [htext, List.append_assoc]
      exact mentionsImportant_mark hblanks _
    · exact mentionsImportant_append _ (ih ⟨lexeme, hlater, hkind⟩)

theorem exists_append_trim (cs : List Char) : ∃ front back, cs = front ++ (trim cs ++ back) := by
  have hend : ∀ cs : List Char, ∃ back, cs = trimEnd cs ++ back := by
    intro cs
    induction cs with
    | nil => exact ⟨[], rfl⟩
    | cons c cs ih =>
      obtain ⟨back, hback⟩ := ih
      rw [trimEnd, List.foldr_cons, ← trimEnd]
      split
      · exact ⟨c :: cs, rfl⟩
      · exact ⟨back, by rw [List.cons_append, ← hback]⟩
  obtain ⟨back, hback⟩ := hend (cs.dropWhile isBlank)
  exact ⟨cs.takeWhile isBlank, back, by rw [trim, ← hback, List.takeWhile_append_dropWhile]⟩

/-- An authored text that is read with an `!important` mentions it. -/
theorem mentionsImportant_of_lexemes {property text : String} {lexeme : Lexeme}
    (hlexeme : lexeme ∈ Scalar.lexemes property (.text text))
    (hkind : lexeme.token.kind = .important) : mentionsImportant text.toList := by
  rw [Scalar.lexemes] at hlexeme
  cases hlex : Token.lex (sourceOfText property text) with
  | error rest =>
    rw [hlex] at hlexeme
    cases hlexeme
  | ok lexemes =>
    rw [hlex] at hlexeme
    have hmark : ∃ lexeme ∈ lexemes, lexeme.token.kind = .important := ⟨lexeme, hlexeme, hkind⟩
    have hreads := Token.reads_of_lex hlex
    have htrimmed : Reads (trim text.toList) lexemes → mentionsImportant text.toList := by
      intro htrim
      obtain ⟨front, back, htext⟩ := exists_append_trim text.toList
      rw [htext]
      exact mentionsImportant_append front (mentionsImportant_of_reads htrim hmark back)
    -- The text is read as it is, or it is quoted.
    rw [sourceOfText] at hreads
    split at hreads
    · rw [quoteContent_eq] at hreads
      split at hreads
      · exact htrimmed hreads
      · -- What is put in quotes is one string.
        obtain rfl := hreads.unique (reads_quoted (trim text.toList))
        obtain rfl := List.mem_singleton.1 hlexeme
        contradiction
    · exact htrimmed hreads

theorem eq_string_of_ofJson? {value : Json} {text : String}
    (h : Scalar.ofJson? value = some (.text text)) : value = .string text := by
  cases value with
  | string s =>
    cases h
    rfl
  | _ => cases h

/-- A text among the items of a list that is loaded was a string there. -/
theorem string_mem_of_mapM {items : List Json} {scalars : List Scalar} {text : String}
    (h : items.mapM Scalar.ofJson? = some scalars) (htext : Scalar.text text ∈ scalars) :
    .string text ∈ items := by
  induction items generalizing scalars with
  | nil =>
    cases h
    cases htext
  | cons item rest ih =>
    rw [List.mapM_cons] at h
    obtain ⟨first, hfirst, h⟩ := Option.bind_eq_some_iff.1 h
    obtain ⟨others, hothers, ⟨⟩⟩ := Option.bind_eq_some_iff.1 h
    rcases List.mem_cons.1 htext with rfl | htext
    · rw [eq_string_of_ofJson? hfirst]
      exact List.mem_cons_self
    · exact List.mem_cons_of_mem _ (ih hothers htext)

/-- The texts of a value are shown to the rule on `!important`. -/
theorem mem_textsOf {key : String} {value : Json} {raw : RawValue}
    (hraw : RawValue.ofJson key value = .ok raw) {text : String}
    (htext : Scalar.text text ∈ raw.scalars) : text ∈ textsOf value := by
  cases value with
  | array items =>
    rw [RawValue.ofJson] at hraw
    -- All items of a list are texts or numbers, or it is not loaded.
    split at hraw
    · rename_i first rest hmap
      cases hraw
      exact List.mem_filterMap.2 ⟨.string text, string_mem_of_mapM hmap htext, rfl⟩
    · cases hraw
  | string s =>
    cases hraw
    cases List.mem_singleton.1 htext
    exact List.mem_singleton_self _
  | number n =>
    cases hraw
    cases List.mem_singleton.1 htext
  | _ => cases hraw

/-! ## Legal declarations -/

/-- That a declaration has a known property and can be read without an `!important`. -/
def IsLegal (written : String × String) : Prop :=
  Property.isKnown written.1 ∧ isUnmarked written.2

/-- The same of what is authored for a property. -/
def IsLegalSource (source : String × Scalar) : Prop :=
  Property.isKnown source.1 ∧
    ∀ lexeme ∈ source.2.lexemes source.1, lexeme.token.kind ≠ .important

/-- That nothing is authored with a function `url(` in other letters. -/
def HasPlainUrls (source : String × Scalar) : Prop :=
  ∀ lexeme ∈ source.2.lexemes source.1, lexeme.token.hasPlainUrl

/-- A declaration is legal just if its source is. -/
theorem isLegal_iff {options : Options} {name text : String} {scalar : Scalar}
    (h : Setting.normalizeScalar ⟨name, options⟩ scalar = .ok text)
    (hplain : HasPlainUrls (name, scalar)) : IsLegal (name, text) ↔ IsLegalSource (name, scalar) :=
  and_congr_right fun _ => isUnmarked_iff_of_normalizeScalar h hplain

end Lint

theorem ClassName.isNameChar_of_mem_base36 (n : Nat) : ∀ c ∈ base36 n, Token.isNameChar c := by
  have hdigit : ∀ d < 36, Token.isNameChar (digitChar d) := by decide
  induction n using Nat.strongRecOn with
  | ind n ih =>
    by_cases h : n < 36
    · rw [base36_of_lt h]
      simpa using hdigit n h
    · rw [base36_of_le (by omega)]
      intro c hc
      rcases List.mem_append.1 hc with hc | hc
      · exact ih (n / 36) (by omega) c hc
      · obtain rfl := List.mem_singleton.1 hc
        exact hdigit _ (Nat.mod_lt n (by omega))

/-- The name of a block is read as a name. -/
theorem isUnmarked_block_name (block : Keyframes.Block) : isUnmarked (block.name "x") := by
  have hname : Token.IsName (block.name "x").toList := by
    have hchars := ClassName.isNameChar_of_mem_base36 (ClassName.checksum block.body).toNat
    have hlist : (block.name "x").toList =
        'x' :: (ClassName.base36 (ClassName.checksum block.body).toNat ++ ['-', 'B']) := by
      rw [Keyframes.Block.name, String.toList_append, ClassName.toList_ofText]
      rfl
    rw [hlist]
    refine .plain rfl fun c hc => ?_
    rcases List.mem_append.1 hc with hc | hc
    · exact hchars c hc
    · obtain rfl | rfl : c = '-' ∨ c = 'B' := by simpa using hc
      · rfl
      · rfl
  have hends : Ends ⟨.ident, (block.name "x").toList⟩ [] := .ident hname rfl (by simp)
  rw [isUnmarked_of_reads (reads_single hends)]
  rfl

namespace Lint

/-- An assignment has the key that it is loaded from, and its value unless that is a reset or
keyframes. -/
theorem key_and_value_of_ofJson {key : String} {value : Json} {assignment : Assignment}
    (hload : Assignment.ofJson (key, value) = .ok assignment) :
    assignment.key = key ∧
      ∀ raw, assignment.assigned = .value raw → RawValue.ofJson key value = .ok raw := by
  cases value with
  | null =>
    cases hload
    exact ⟨rfl, fun raw h => by cases h⟩
  | object steps =>
    simp only [Assignment.ofJson] at hload
    split at hload
    · obtain ⟨_, -, ⟨⟩⟩ := Except.bind_eq_ok_iff.1 hload
      exact ⟨rfl, fun raw h => by cases h⟩
    · cases hload
  | _ =>
    obtain ⟨raw, hraw, ⟨⟩⟩ := Except.bind_eq_ok_iff.1 hload
    refine ⟨rfl, ?_⟩
    rintro _ ⟨⟩
    exact hraw

/-- What the default rules do not complain about has a known property, and its value does not
mention `!important`. -/
theorem legal_of_checkPropertyAt {path key : String} {value : Json} {assignment : Assignment}
    (hload : Assignment.ofJson (key, value) = .ok assignment)
    (hnone : checkPropertyAt defaultRules path key value = []) :
    Property.isKnown assignment.property ∧
      ∀ raw, assignment.assigned = .value raw → ∀ scalar ∈ raw.scalars,
        IsLegalSource (assignment.property, scalar) := by
  rw [checkPropertyAt, List.flatMap_eq_nil_iff] at hnone
  have hknown : checkKnown ⟨key, value, path ++ "." ++ key⟩ = [] :=
    hnone validProperty (by simp [defaultRules])
  have himportant : checkImportance ⟨key, value, path ++ "." ++ key⟩ = [] :=
    hnone noImportant (by simp [defaultRules])
  obtain ⟨hkey, hvalue⟩ := key_and_value_of_ofJson hload
  have hproperty : Property.isKnown assignment.property := by
    rw [Assignment.property, hkey]
    by_contra hnot
    rw [checkKnown, if_neg hnot] at hknown
    cases hknown
  refine ⟨hproperty, fun raw hassigned scalar hscalar => ⟨hproperty, ?_⟩⟩
  -- A text with such a token mentions it, and then the rule would report it.
  intro lexeme hlexeme hkind
  cases scalar with
  | number x => cases hlexeme
  | text text =>
    have hmention := mentionsImportant_of_lexemes hlexeme hkind
    have hany : (textsOf value).any (mentionsImportant ·.toList) :=
      List.any_eq_true.2 ⟨text, mem_textsOf (hvalue raw hassigned) hscalar, hmention⟩
    rw [checkImportance, if_pos hany] at himportant
    cases himportant

/-- What is said about the assignments of a sheet on which nothing is reported. -/
theorem legal_of_lints_clean {sheet : Json} {loaded : Sheet}
    (hclean : checkSheet defaultRules sheet = []) (hload : Sheet.ofJson sheet = .ok loaded)
    {item : Context × Assignment} (hitem : item ∈ loaded.assignments) :
    Property.isKnown item.2.property ∧
      ∀ raw, item.2.assigned = .value raw → ∀ scalar ∈ raw.scalars,
        IsLegalSource (item.2.property, scalar) := by
  obtain ⟨path, key, value, hproperty, hsaid⟩ := (walk_sheet defaultRules hload).exists_check hitem
  rw [hclean] at hsaid
  exact legal_of_checkPropertyAt hproperty (List.eq_nil_of_subset_nil hsaid)

/-- Where nothing is reported, all keyframes have a canonical form. -/
theorem exists_block_of_lints_clean {sheet : Json} {loaded : Sheet}
    (hclean : checkSheet defaultRules sheet = []) (hload : Sheet.ofJson sheet = .ok loaded)
    {item : Context × Assignment} (hitem : item ∈ loaded.assignments) {keyframes : Keyframes}
    (hassigned : item.2.assigned = .keyframes keyframes) :
    ∃ block, keyframes.normalize {} = .ok block := by
  have hpasses : Passes (checkSheet defaultRules sheet) := by
    rw [hclean]
    intro d hd
    cases hd
  have hsound : item.2.error? {} = none := sound_of_mem hpasses hload item hitem
  cases hblock : keyframes.normalize {} with
  | ok block => exact ⟨block, rfl⟩
  | error error =>
    rw [Assignment.error?, hassigned] at hsound
    simp only [hblock] at hsound
    cases hsound

end Lint

/-- The declaration of a class is legal if its source is. -/
theorem isLegal_of_declares {item : Context × Assignment} {d : Declaration}
    (hd : item.2.Declares {} item.1 d) (hknown : Property.isKnown item.2.property)
    (hvalue : ∀ raw, item.2.assigned = .value raw → ∀ scalar ∈ raw.scalars,
      Lint.IsLegalSource (item.2.property, scalar))
    (hplain : ∀ source ∈ item.2.authored, Lint.HasPlainUrls source) :
    ∀ written ∈ (Origin.declaration d).declarations, Lint.IsLegal written := by
  obtain ⟨context, assignment⟩ := item
  intro written hwritten
  obtain ⟨text, htext, rfl⟩ := List.mem_map.1 hwritten
  cases hd with
  | value h =>
    obtain ⟨scalar, hscalar, hnormal⟩ := (mem_texts_iff h).1 htext
    exact (Lint.isLegal_iff hnormal (hplain _ (List.mem_map_of_mem hscalar))).2
      (hvalue _ rfl scalar hscalar)
  | keyframes h =>
    -- The text is the name of the block.
    obtain rfl := List.mem_singleton.1 htext
    exact ⟨hknown, isUnmarked_block_name _⟩

/-- A block is legal just if what is authored in its steps is. -/
theorem forall_isLegal_block_iff {keyframes : Keyframes} {block : Keyframes.Block}
    (hblock : keyframes.normalize {} = .ok block)
    (hplain : ∀ source ∈ keyframes.authored, Lint.HasPlainUrls source) :
    (∀ written ∈ (Origin.keyframes block).declarations, Lint.IsLegal written) ↔
      ∀ source ∈ keyframes.authored, Lint.IsLegalSource source := by
  constructor
  · rintro hlegal ⟨name, scalar⟩ hsource
    obtain ⟨text, hnormal⟩ := Keyframes.exists_text_of_authored hblock hsource
    have hwritten : (name, text) ∈ (Origin.keyframes block).declarations :=
      (Keyframes.mem_declarations_iff hblock).2 ⟨scalar, hsource, hnormal⟩
    exact (Lint.isLegal_iff hnormal (hplain _ hsource)).1 (hlegal _ hwritten)
  · rintro hlegal ⟨name, text⟩ hwritten
    obtain ⟨scalar, hsource, hnormal⟩ := (Keyframes.mem_declarations_iff hblock).1 hwritten
    exact (Lint.isLegal_iff hnormal (hplain _ hsource)).2 (hlegal _ hsource)

/-- In a sheet on which the default rules report nothing, and that has no function `url(` in other
letters, all declarations of classes are legal. Those of keyframes are legal as well just if what is
authored in the steps is, which no rule has looked at. The rules of the compiled module are those of
these classes and keyframes. -/
theorem legal_iff_steps_legal {sheet : Json} {loaded : Sheet} {store : Store}
    {file : Option String} {compiled : CompiledModule}
    (hclean : Lint.checkSheet Lint.defaultRules sheet = [])
    (hload : Sheet.ofJson sheet = .ok loaded)
    (hcompiled : (store.compile {} file loaded).2 = .ok compiled)
    (hplain : ∀ item ∈ loaded.assignments, ∀ source ∈ item.2.authored,
      Lint.HasPlainUrls source) :
    let step : Build.Step := .compile ⟨{}, file, loaded⟩
    (∀ rule ∈ compiled.rules, ∃ origin, step.Makes origin "x" ∧ rule = origin.rule "x") ∧
      (∀ d, step.Makes (.declaration d) "x" →
        ∀ written ∈ (Origin.declaration d).declarations, Lint.IsLegal written) ∧
      ((∀ origin, step.Makes origin "x" → ∀ written ∈ origin.declarations, Lint.IsLegal written) ↔
        ∀ item ∈ loaded.assignments, ∀ keyframes, item.2.assigned = .keyframes keyframes →
          ∀ source ∈ keyframes.authored, Lint.IsLegalSource source) := by
  intro step
  have hauthored : ∀ item ∈ loaded.assignments, ∀ keyframes,
      item.2.assigned = .keyframes keyframes →
        ∀ source ∈ keyframes.authored, Lint.HasPlainUrls source := by
    intro item hitem keyframes hassigned source hsource
    refine hplain item hitem source ?_
    rwa [Assignment.authored, hassigned]
  have hclasses : ∀ d, step.Makes (.declaration d) "x" →
      ∀ written ∈ (Origin.declaration d).declarations, Lint.IsLegal written := by
    intro d (hmakes : Build.Step.Makes (.compile ⟨{}, file, loaded⟩) _ _)
    cases hmakes with
    | declared hitem hd =>
      obtain ⟨hknown, hvalue⟩ := Lint.legal_of_lints_clean hclean hload hitem
      exact isLegal_of_declares hd hknown hvalue (hplain _ hitem)
  refine ⟨?_, hclasses, ?_, ?_⟩
  · intro rule hrule
    obtain ⟨-, rfl⟩ := compile_eq_ok_iff.1 hcompiled
    obtain ⟨item, hitem, ⟨block, hblock, rfl⟩ | ⟨d, hd, rfl⟩⟩ := Sheet.exists_origin hrule
    · exact ⟨.keyframes block, .defined hitem hblock, rfl⟩
    · exact ⟨.declaration d, .declared hitem hd, rfl⟩
  · rintro hlegal ⟨context, ⟨key, assigned⟩⟩ hitem keyframes rfl
    obtain ⟨block, hblock⟩ := Lint.exists_block_of_lints_clean hclean hload hitem rfl
    exact (forall_isLegal_block_iff hblock (hauthored _ hitem _ rfl)).1
      (hlegal _ (.defined hitem (.keyframes hblock)))
  · intro hsteps origin (hmakes : Build.Step.Makes (.compile ⟨{}, file, loaded⟩) _ _)
    cases hmakes with
    | declared hitem hd => exact hclasses _ (.declared hitem hd)
    | @defined _ item hitem block hdefines =>
      obtain ⟨context, assignment⟩ := item
      cases hdefines with
      | keyframes hblock =>
        exact (forall_isLegal_block_iff hblock (hauthored _ hitem _ rfl)).2
          (hsteps _ hitem _ rfl)

/-- Keyframes with one step that sets one property. -/
def pulsingIn (key text : String) : Json :=
  .object [("pulse", .object [("animationName", .object [("50%", .object [(key, .string text)])])])]

/-- With a known property and no `!important` in the step all is legal. -/
theorem legal_iff_steps_legal_background :
    Lint.checkSheet Lint.defaultRules (pulsingIn "background" "Local('a'), url( b )") = [] ∧
      ∃ loaded compiled,
        Sheet.ofJson (pulsingIn "background" "Local('a'), url( b )") = .ok loaded ∧
        ((∅ : Store).compile {} none loaded).2 = .ok compiled ∧
        ∀ rule ∈ compiled.rules, ∃ origin : Origin, rule = origin.rule "x" ∧
          ∀ written ∈ origin.declarations, Lint.IsLegal written := by
  have hclean : Lint.checkSheet Lint.defaultRules
      (pulsingIn "background" "Local('a'), url( b )") = [] := by
    decide +kernel
  obtain ⟨loaded, hload⟩ : ∃ loaded,
      Sheet.ofJson (pulsingIn "background" "Local('a'), url( b )") = .ok loaded := ⟨_, rfl⟩
  obtain ⟨compiled, hcompiled⟩ : ∃ compiled,
      ((∅ : Store).compile {} none loaded).2 = .ok compiled := by
    obtain rfl := Except.ok.inj hload
    exact ⟨_, compile_eq_ok_iff.2 ⟨by decide +kernel, rfl⟩⟩
  have hsources : loaded.assignments.all fun item => item.2.authored.all fun source =>
      Property.isKnown source.1 && (source.2.lexemes source.1).all fun lexeme =>
        lexeme.token.hasPlainUrl && lexeme.token.kind != .important := by
    obtain rfl := Except.ok.inj hload
    decide +kernel
  simp only [List.all_eq_true, Bool.and_eq_true, bne_iff_ne] at hsources
  obtain ⟨horigins, -, hlegal⟩ := legal_iff_steps_legal hclean hload hcompiled
    fun item hitem source hsource lexeme hlexeme =>
      ((hsources item hitem source hsource).2 lexeme hlexeme).1
  refine ⟨hclean, loaded, compiled, hload, hcompiled, fun rule hrule => ?_⟩
  obtain ⟨origin, hmakes, hrule⟩ := horigins rule hrule
  refine ⟨origin, hrule, hlegal.2 ?_ origin hmakes⟩
  intro item hitem keyframes hassigned source hsource
  rw [show keyframes.authored = item.2.authored by rw [Assignment.authored, hassigned]] at hsource
  obtain ⟨hknown, hlexemes⟩ := hsources item hitem source hsource
  exact ⟨hknown, fun lexeme hlexeme => (hlexemes lexeme hlexeme).2⟩

/-- An unknown property that is important lints clean in a step, and it is emitted. -/
theorem important_in_step_lints_clean :
    Lint.checkSheet Lint.defaultRules (pulsingIn "colour" "red !important") = [] ∧
      ∃ loaded compiled, Sheet.ofJson (pulsingIn "colour" "red !important") = .ok loaded ∧
        ((∅ : Store).compile {} none loaded).2 = .ok compiled ∧
        (∃ rule ∈ compiled.rules,
          rule.text = "@keyframes x74ba3e-B\x7b50%\x7bcolour:red!important;\x7d\x7d") ∧
        Property.isKnown "colour" = false ∧ isUnmarked "red!important" = false := by
  let pulse : Keyframes := ⟨[⟨"50%", [("colour", .single (.text "red !important"))]⟩]⟩
  let loaded : Sheet := ⟨[⟨"pulse", [.single ⟨"animationName", .keyframes pulse⟩]⟩]⟩
  have hload : Sheet.ofJson (pulsingIn "colour" "red !important") = .ok loaded := rfl
  have htext : (pulse.normalize {}).toOption.any fun block => (block.toAtomic "x").rule.text ==
      "@keyframes x74ba3e-B\x7b50%\x7bcolour:red!important;\x7d\x7d" := by
    decide +kernel
  have haccepted : ((∅ : Store).insertAll (loaded.emissions {})).2 = .ok () := by
    decide +kernel
  refine ⟨by decide +kernel, loaded, loaded.plan {} none, hload,
    compile_eq_ok_iff.2 ⟨haccepted, rfl⟩, ?_, by decide +kernel, by decide +kernel⟩
  cases hblock : pulse.normalize {} with
  | error error =>
    rw [hblock] at htext
    cases htext
  | ok block =>
    rw [hblock] at htext
    have hitem : (.plain, ⟨"animationName", .keyframes pulse⟩) ∈ loaded.assignments :=
      List.mem_singleton_self _
    have hserved := Sheet.serves haccepted none hitem (.keyframes hblock)
    exact ⟨(block.toAtomic "x").rule, (hserved.keyframes block (.keyframes hblock)).2,
      by simpa [Except.toOption] using htext⟩

/-- A function `url(` in other letters is printed as a text that is read as no tokens. -/
example : normalize {} "background" (.single (.text "URL(a 'b')")) = .ok ⟨["url(a \"b\")"]⟩ ∧
    isUnmarked "url(a \"b\")" = false := by
  decide +kernel

end AtomicCss
