import AtomicCss.Proofs.Token.Boundary
/-!
# What the lexer keeps of a text

The spans of tokens cut a text into slices, between which there are nothing but gaps, so the text
can be put together again from both. Where the lexer stops, no token and no gap stands, and the text
in front of that place is read on its own (`lex_lossless`).

A text that is cut in two joins less at the cut, so the tokens in front of it stay as they are
(`Ends.of_append`). The exception would be a number that loses the sign behind its `e`, but the
lexer never stops at a sign.
-/

namespace AtomicCss

/-! ## Bytes -/

/-- The bytes of two texts together. -/
@[simp]
theorem byteLength_append (front rest : List Char) :
    byteLength (front ++ rest) = byteLength front + byteLength rest := by
  induction front with
  | nil => simp [byteLength]
  | cons c front ih => simp [byteLength, ih, Nat.add_assoc]

theorem byteLength_pos {cs : List Char} (h : cs ≠ []) : 0 < byteLength cs := by
  cases cs with
  | nil => contradiction
  | cons c cs => exact Nat.add_pos_left c.utf8Size_pos _

/-- The part of a text that stands between two places. These are counted in bytes and lie between
characters. -/
def IsSlice (cs : List Char) (first last : Nat) (part : List Char) : Prop :=
  ∃ before after, cs = before ++ part ++ after ∧ byteLength before = first ∧
    first + byteLength part = last

/-- A slice ends within the text. -/
theorem IsSlice.le_byteLength {cs part : List Char} {first last : Nat}
    (h : IsSlice cs first last part) : last ≤ byteLength cs := by
  obtain ⟨before, after, rfl, rfl, rfl⟩ := h
  rw [byteLength_append, byteLength_append]
  exact Nat.le_add_right _ _

/-- The front of a text is known by its length. -/
theorem append_inj_of_byteLength {front front' rest rest' : List Char}
    (h : front ++ rest = front' ++ rest') (hlength : byteLength front = byteLength front') :
    front = front' ∧ rest = rest' := by
  induction front generalizing front' with
  | nil =>
    cases front' with
    | nil => exact ⟨rfl, h⟩
    | cons c tail =>
      -- A front of no bytes is empty, as each character takes at least one.
      have hpos := byteLength_pos (List.cons_ne_nil c tail)
      rw [← hlength] at hpos
      contradiction
  | cons c tail ih =>
    cases front' with
    | nil =>
      have hpos := byteLength_pos (List.cons_ne_nil c tail)
      rw [hlength] at hpos
      contradiction
    | cons d tail' =>
      obtain ⟨rfl, htail⟩ := List.cons.inj h
      obtain ⟨rfl, hrest⟩ := ih htail (Nat.add_left_cancel hlength)
      exact ⟨rfl, hrest⟩

/-- Between two places stands one text. -/
theorem IsSlice.unique {cs part other : List Char} {first last : Nat}
    (h : IsSlice cs first last part) (hother : IsSlice cs first last other) : part = other := by
  obtain ⟨before, after, rfl, rfl, rfl⟩ := h
  obtain ⟨before', after', hcs, hbefore, hpart⟩ := hother
  -- First the texts in front agree, then the parts themselves.
  rw [List.append_assoc, List.append_assoc] at hcs
  obtain ⟨rfl, hrest⟩ := append_inj_of_byteLength hcs hbefore.symm
  exact (append_inj_of_byteLength hrest (Nat.add_left_cancel hpart.symm)).1

/-- A character of two texts in a row stands in the first one or behind it. -/
theorem append_eq_append_cons {a b before after : List Char} {c : Char}
    (h : a ++ b = before ++ c :: after) :
    (∃ more, a = before ++ c :: more) ∨ ∃ front, before = a ++ front ∧ b = front ++ c :: after := by
  rcases List.append_eq_append_iff.1 h with ⟨front, hbefore, hb⟩ | ⟨more, ha, hmore⟩
  · exact .inr ⟨front, hbefore, hb⟩
  · cases more with
    | nil => exact .inr ⟨[], by simpa using ha.symm, hmore.symm⟩
    | cons d more =>
      obtain ⟨rfl, -⟩ := List.cons.inj hmore
      exact .inl ⟨more, ha⟩

namespace Token

/-! ## Spans -/

/-- The span of a token: it has the kind of the token, is not empty, and cuts out just its text. -/
structure IsSpanOf (cs : List Char) (lexeme : Lexeme) (span : Kind × Nat × Nat) : Prop where
  kind : span.1 = lexeme.token.kind
  lt : span.2.1 < span.2.2
  within : span.2.2 ≤ byteLength cs
  slice : ∀ part, IsSlice cs span.2.1 span.2.2 part ↔ part = lexeme.token.text

/-- A span that slices the text of a token is the span of the token. -/
theorem isSpanOf_of_isSlice {cs : List Char} {lexeme : Lexeme} {first last : Nat}
    (hlt : first < last) (h : IsSlice cs first last lexeme.token.text) :
    IsSpanOf cs lexeme (lexeme.token.kind, first, last) where
  kind := rfl
  lt := hlt
  within := h.le_byteLength
  slice _ := ⟨fun hpart => hpart.unique h, fun hpart => hpart ▸ h⟩

section Spans

variable {lexemes : List Lexeme} {blanks : List Char} {start : Nat}

/-- The spans of lexemes slice what the lexemes spell. -/
theorem forall₂_spans (hne : ∀ lexeme ∈ lexemes, lexeme.token.text ≠ [])
    (front blanks : List Char) :
    List.Forall₂ (IsSpanOf (front ++ Lexeme.spell lexemes ++ blanks)) lexemes
      (Lexeme.spans (byteLength front) lexemes) := by
  induction lexemes generalizing front with
  | nil => exact .nil
  | cons lexeme rest ih =>
    obtain ⟨hlexeme, hrest⟩ := List.forall_mem_cons.1 hne
    have hslice : IsSlice (front ++ Lexeme.spell (lexeme :: rest) ++ blanks)
        (byteLength front + byteLength lexeme.gap)
        (byteLength front + byteLength lexeme.gap + byteLength lexeme.token.text)
        lexeme.token.text := by
      refine ⟨front ++ lexeme.gap, Lexeme.spell rest ++ blanks, ?_, byteLength_append _ _, rfl⟩
      simp [Lexeme.spell_cons]
    have hlt := Nat.lt_add_of_pos_right (n := byteLength front + byteLength lexeme.gap)
      (byteLength_pos hlexeme)
    refine .cons (isSpanOf_of_isSlice hlt hslice) ?_
    -- For the tokens behind it, the token and its gap belong to the text in front.
    have htail := ih hrest (front ++ lexeme.gap ++ lexeme.token.text)
    rw [byteLength_append, byteLength_append] at htail
    simpa [Lexeme.spell_cons] using htail

/-- No span begins before the first lexeme does. -/
theorem le_of_mem_spans {span : Kind × Nat × Nat} (h : span ∈ Lexeme.spans start lexemes) :
    start ≤ span.2.1 := by
  induction lexemes generalizing start with
  | nil => contradiction
  | cons lexeme rest ih =>
    rcases List.mem_cons.1 h with rfl | hrest
    · exact Nat.le_add_right _ _
    · have hle := ih hrest
      omega

/-- A span ends before the next one begins. -/
theorem pairwise_spans (start : Nat) (lexemes : List Lexeme) :
    (Lexeme.spans start lexemes).Pairwise fun a b => a.2.2 ≤ b.2.1 := by
  induction lexemes generalizing start with
  | nil => exact .nil
  | cons lexeme rest ih => exact .cons (fun _ hspan => le_of_mem_spans hspan) (ih _)

/-- A character at a place that no span covers is a gap. -/
theorem isGap_of_outside (hgaps : ∀ lexeme ∈ lexemes, ∀ c ∈ lexeme.gap, isGap c)
    (hblanks : ∀ c ∈ blanks, isGap c) {before after : List Char} {c : Char} {place : Nat}
    (hcs : Lexeme.spell lexemes ++ blanks = before ++ c :: after)
    (hplace : place = start + byteLength before)
    (houtside : ∀ span ∈ Lexeme.spans start lexemes, place < span.2.1 ∨ span.2.2 ≤ place) :
    isGap c := by
  induction lexemes generalizing start before with
  | nil =>
    obtain rfl : blanks = before ++ c :: after := hcs
    exact hblanks c (List.mem_append_right _ List.mem_cons_self)
  | cons lexeme rest ih =>
    obtain ⟨hgap, hrest⟩ := List.forall_mem_cons.1 hgaps
    obtain ⟨hfirst, hothers⟩ := List.forall_mem_cons.1 houtside
    rw [Lexeme.spell_cons, List.append_assoc, List.append_assoc] at hcs
    rcases append_eq_append_cons hcs with ⟨more, htext⟩ | ⟨inside, rfl, hinside⟩
    · -- The character stands in the gap in front of the token.
      exact hgap c (htext ▸ List.mem_append_right _ List.mem_cons_self)
    -- It stands further back: in the token, or behind it.
    rw [byteLength_append, ← Nat.add_assoc] at hplace
    rcases append_eq_append_cons hinside with ⟨more, htext⟩ | ⟨behind, rfl, hbehind⟩
    · -- The span of the token covers every character of it.
      have hlt : byteLength inside < byteLength lexeme.token.text := by
        rw [htext, byteLength_append]
        exact Nat.lt_add_of_pos_right (byteLength_pos (List.cons_ne_nil c more))
      rcases hfirst with hfirst | hfirst
      · exact absurd hfirst (by simp only; omega)
      · exact absurd hfirst (by simp only; omega)
    · rw [byteLength_append, ← Nat.add_assoc] at hplace
      exact ih hrest hbehind hplace hothers

end Spans

/-! ## Texts that are cut in two -/

section Cut

variable {front rest : List Char}

theorem beginsWithAny_append {p : Char → Bool} (h : beginsWithAny p front) :
    beginsWithAny p (front ++ rest) := by
  cases front with
  | nil => contradiction
  | cons => exact h

theorem startsUnsigned_append (h : startsUnsigned front) : startsUnsigned (front ++ rest) := by
  cases front with
  | nil => contradiction
  | cons c tail =>
    by_cases hc : c = '.'
    · subst hc
      rw [startsUnsigned_point] at h
      rw [List.cons_append, startsUnsigned_point]
      exact beginsWithAny_append h
    · rwa [List.cons_append, startsUnsigned_cons_of_ne hc] at *

/-- A text joins no more than one that goes on behind it. -/
theorem JoinsLess.of_append (front rest : List Char) : JoinsLess (front ++ rest) front := by
  cases front with
  | nil => exact .of_apart rfl
  | cons c tail =>
    constructor
    · exact fun _ h => h
    · exact startsUnsigned_append
    · intro h
      cases hc : isSign c with
      | true =>
        rw [List.cons_append, spanSign_cons_of_isSign hc] at *
        exact beginsWithAny_append h
      | false =>
        rw [List.cons_append, spanSign_cons_of_not_isSign hc] at *
        exact h
    · intro h
      obtain ⟨hstart, hdash⟩ := spanName?_dash_eq_none_iff.1 h
      refine spanName?_dash_eq_none_iff.2 ⟨hstart, ?_⟩
      rintro _ ⟨⟩
      have hmore : beginsWithAny isNameStart (tail ++ rest) = false := hdash _ rfl
      refine Bool.eq_false_iff.2 fun hbegins => ?_
      rw [beginsWithAny_append hbegins] at hmore
      contradiction

/-- A token also ends where the text behind it is cut in front of no sign. -/
theorem Ends.of_append {token : Token} (h : Ends token (front ++ rest))
    (hrest : beginsWithAny isSign rest = false) : Ends token front := by
  -- What is left out is a number that loses the sign behind its `e`: that sign would begin `rest`.
  cases front with
  | nil =>
    rcases h.of_joinsLess (.of_append [] rest) fun _ _ => .inl rfl with h | ⟨-, hsign, -⟩
    · exact h
    · exact absurd hsign (Bool.eq_false_iff.1 hrest)
  | cons c tail =>
    have hurl : token.kind = .function → token.text = urlName ++ ['('] →
        c :: tail = [] ∨ beginsWithAny isQuote (c :: tail) := fun hkind htext =>
      (h.behind_url hkind htext).imp_left fun hnil => by contradiction
    rcases h.of_joinsLess (.of_append (c :: tail) rest) hurl with h | ⟨-, hsign, hnot⟩
    · exact h
    · exact absurd hsign (Bool.eq_false_iff.1 hnot)

end Cut

/-! ## Where the lexer stops -/

/-- Every sign is a token. -/
theorem beginsWithAny_isSign_of_scan? {cs : List Char} (h : scan? cs = none) :
    beginsWithAny isSign cs = false := by
  simp only [scan?, Option.orElse_eq_none] at h
  obtain ⟨-, -, -, -, -, hpunctuation⟩ := h
  cases cs with
  | nil => rfl
  | cons c tail =>
    have hkind : punctuation? c = none := Option.map_eq_none_iff.1 hpunctuation
    refine Bool.eq_false_iff.2 fun hsign => ?_
    rcases isSign_iff.1 hsign with rfl | rfl
    · contradiction
    · contradiction

/-- A place of a text at which no token stands: a character that is no gap either, and the text in
front of it is read on its own. -/
structure StopsAt (cs rest : List Char) : Prop where
  exists_front : ∃ front lexemes, cs = front ++ rest ∧ Reads front lexemes
  exists_char : ∃ c tail, rest = c :: tail ∧ isGap c = false
  scan : scan? rest = none

/-- A text that stops somewhere also stops there behind a token. -/
theorem StopsAt.cons {gap left rest : List Char} {token : Token} (hgap : ∀ c ∈ gap, isGap c)
    (hends : Ends token left) (h : StopsAt left rest) :
    StopsAt (gap ++ (token.text ++ left)) rest where
  exists_front := by
    obtain ⟨front, lexemes, rfl, hreads⟩ := h.exists_front
    -- The token was read in front of all that is left, and has to be read in front of a part of it.
    have hfront := hends.of_append (beginsWithAny_isSign_of_scan? h.scan)
    exact ⟨gap ++ (token.text ++ front), ⟨gap, token⟩ :: lexemes, by simp, .cons hgap hfront hreads⟩
  exists_char := h.exists_char
  scan := h.scan

/-- Where the lexer fails, the text in front of that place can be read, and no token begins there.
-/
theorem stopsAt_of_lex {cs rest : List Char} (h : lex cs = .error rest) : StopsAt cs rest := by
  fun_induction lex cs with
  | case1 => contradiction
  | case2 cs c more hgap hscan =>
    -- The scanner fails at the first character behind the blanks.
    obtain rfl := Except.error.inj h
    have hcs := List.takeWhile_append_dropWhile (p := isGap) (l := cs)
    have hfront : beginsWithAny isGap (cs.dropWhile isGap) = false := beginsWithAny_dropWhile
    rw [hgap] at hcs hfront
    exact ⟨⟨cs.takeWhile isGap, [], hcs.symm, .nil forall_mem_takeWhile⟩, ⟨c, more, rfl, hfront⟩,
      hscan⟩
  | case3 cs c more hgap token left hscan _ error hlex ih =>
    obtain rfl := Except.error.inj h
    obtain ⟨hsplit, hends⟩ := scan?_eq_some_iff.1 hscan
    have hcs := List.takeWhile_append_dropWhile (p := isGap) (l := cs)
    rw [hgap, hsplit] at hcs
    have hstops : StopsAt (cs.takeWhile isGap ++ (token.text ++ left)) error :=
      (ih hlex).cons forall_mem_takeWhile hends
    rwa [hcs] at hstops
  | case4 => contradiction

/-! ## Both outcomes -/

/-- The spans of lexemes cut a text into their tokens, from front to back and with nothing but gaps
around them, so that gaps and tokens spell the text. -/
structure IsLossless (cs : List Char) (lexemes : List Lexeme) : Prop where
  spans : List.Forall₂ (IsSpanOf cs) lexemes (Lexeme.spans 0 lexemes)
  ordered : (Lexeme.spans 0 lexemes).Pairwise fun a b => a.2.2 ≤ b.2.1
  outside : ∀ before c after, cs = before ++ c :: after →
    (∀ span ∈ Lexeme.spans 0 lexemes,
      byteLength before < span.2.1 ∨ span.2.2 ≤ byteLength before) → isGap c
  gaps : ∀ lexeme ∈ lexemes, ∀ c ∈ lexeme.gap, isGap c
  spell : ∃ blanks, Lexeme.spell lexemes ++ blanks = cs ∧ ∀ c ∈ blanks, isGap c

/-- Gaps have only blanks in them, and no token is empty. -/
theorem Reads.gaps_and_texts {cs : List Char} {lexemes : List Lexeme} (h : Reads cs lexemes) :
    ∀ lexeme ∈ lexemes, (∀ c ∈ lexeme.gap, isGap c) ∧ lexeme.token.text ≠ [] := by
  induction h with
  | nil => exact List.forall_mem_nil _
  | cons hgap hends _ ih => exact List.forall_mem_cons.2 ⟨⟨hgap, hends.text_ne_nil⟩, ih⟩

/-- What the lexer finds loses nothing of the text. -/
theorem isLossless_of_lex {cs : List Char} {lexemes : List Lexeme} (h : lex cs = .ok lexemes) :
    IsLossless cs lexemes := by
  have hlexemes := (reads_of_lex h).gaps_and_texts
  obtain ⟨blanks, rfl, hblanks⟩ := spell_lex h
  have hgaps : ∀ lexeme ∈ lexemes, ∀ c ∈ lexeme.gap, isGap c :=
    fun lexeme hlexeme => (hlexemes lexeme hlexeme).1
  constructor
  · exact forall₂_spans (fun lexeme hlexeme => (hlexemes lexeme hlexeme).2) [] blanks
  · exact pairwise_spans 0 lexemes
  · exact fun before c after hcs =>
      isGap_of_outside hgaps hblanks hcs (Nat.zero_add _).symm
  · exact hgaps
  · exact ⟨blanks, rfl, hblanks⟩

/-- The lexer keeps all of a text. It gives the tokens with spans that cut the text, or it stops in
front of one of its characters and could have read everything that stands before that. -/
theorem lex_lossless (cs : List Char) :
    match lex cs with
    | .ok lexemes => IsLossless cs lexemes
    | .error rest =>
      ∃ front c tail, cs = front ++ rest ∧ rest = c :: tail ∧ isGap c = false ∧
        offsetOf cs rest = byteLength front ∧ offsetOf cs rest < byteLength cs ∧
        ∃ lexemes, lex front = .ok lexemes := by
  cases hlex : lex cs with
  | ok lexemes => exact isLossless_of_lex hlex
  | error rest =>
    obtain ⟨⟨front, lexemes, rfl, hreads⟩, ⟨c, tail, rfl, hc⟩, -⟩ := stopsAt_of_lex hlex
    have hoffset : offsetOf (front ++ c :: tail) (c :: tail) = byteLength front := by
      rw [offsetOf, byteLength_append, Nat.add_sub_cancel]
    have hlt : byteLength front < byteLength (front ++ c :: tail) := by
      rw [byteLength_append]
      exact Nat.lt_add_of_pos_right (byteLength_pos (List.cons_ne_nil c tail))
    exact ⟨front, c, tail, rfl, rfl, hc, hoffset, hoffset ▸ hlt, lexemes, lex_of_reads hreads⟩

/-- Places are counted in bytes, of which `é` has two. -/
example : (lex "\"é\" + \tb ".toList).map (Lexeme.spans 0) =
    .ok [(.doubleQuoted, 0, 4), (.plus, 5, 6), (.ident, 8, 9)] := by
  decide +kernel

end Token

end AtomicCss
