import AtomicCss.Proofs.Token.Spacing
import AtomicCss.Proofs.Value.Accepted
/-!
# Values that differ in blanks

Two texts with the same tokens are printed alike if they have gaps at the same boundaries, apart from
those beside parentheses, commas and slashes, in front of `!important`, and beside the operators of a
math group (`printText_respaced`): there the printer does not look at the gap. The printer's groups are
the same for both, since only the tokens decide them.

One pair of texts is told apart. A number is cut short in front of a dangling exponent, as `5e` in
`5e-`, and is a dimension with the unit `e` in front of a gap. Both are rejected, but not for the same
cause (`dangling_exponent_spaced`).
-/

namespace AtomicCss

open Token (IsCutShort Reads)

/-! ## Boundaries where a gap does not count -/

/-- The boundaries of a value at which a gap does not count, given all tokens in front of them: behind an
opening parenthesis, a function or a comma, in front of a closing parenthesis, a comma or `!important`,
beside a slash, and directly inside a math group beside an operator. -/
def isLooseInValue (front : List Token) (before after : Token) : Bool :=
  [.leftParen, .function, .comma].contains before.kind ||
    [.rightParen, .comma, .important].contains after.kind ||
    before.kind == .slash || after.kind == .slash ||
    isMathGroup (openers front) && (before.isOperator || after.isOperator)

theorem separator_congr {front : List Token} {before after : Token} {spaced spaced' : Bool}
    (h : isLooseInValue front before after = false → spaced = spaced') :
    separator before after spaced (isMathGroup (openers front)) =
      separator before after spaced' (isMathGroup (openers front)) := by
  cases hloose : isLooseInValue front before after with
  | false => rw [h hloose]
  | true =>
    -- Each kind of loose boundary is decided before the printer looks at the gap.
    unfold separator
    split
    · rfl
    · split
      · rfl
      · split
        · rfl
        · simp_all [isLooseInValue, Token.opens]

section Respaced

variable {token other : Token} {x y : Lexeme} {a b : List Lexeme}

/-- Where the gaps agree, the same is printed, or the same fault is reported. -/
theorem Setting.printAfter_respaced (setting : Setting) (front : List Token)
    (htokens : (x :: a).map (·.token) = (y :: b).map (·.token))
    (hgaps : Lexeme.GapsAgree (fun behind => isLooseInValue (front ++ behind)) (x :: a) (y :: b)) :
    setting.printAfter (flags (openers (front ++ [x.token]))) (some x.token) a =
      setting.printAfter (flags (openers (front ++ [y.token]))) (some y.token) b := by
  -- Both printers are in the same groups, so a boundary is inside a math group for both or for none.
  induction a generalizing front x y b with
  | nil =>
    cases b with
    | nil =>
      have hfirst : x.token = y.token := (List.cons.inj htokens).1
      rw [hfirst]
    | cons => exact absurd (List.cons.inj htokens).2 (by simp)
  | cons x' a ih =>
    cases b with
    | nil => exact absurd (List.cons.inj htokens).2 (by simp)
    | cons y' b =>
      obtain ⟨hgap, hmore⟩ := Lexeme.gapsAgree_cons_iff.1 hgaps
      have hrest : (x' :: a).map (·.token) = (y' :: b).map (·.token) := (List.cons.inj htokens).2
      have hfirst : x.token = y.token := (List.cons.inj htokens).1
      have hnext : x'.token = y'.token := (List.cons.inj hrest).1
      have hspace : x'.space (isMathGroup (openers (front ++ [x.token]))) (some x.token) =
          y'.space (isMathGroup (openers (front ++ [x.token]))) (some x.token) := by
        rw [Lexeme.space, Lexeme.space, ← hnext]
        refine separator_congr fun hloose => ?_
        rw [Bool.not_inj_iff, Bool.eq_iff_iff, List.isEmpty_iff, List.isEmpty_iff]
        exact hgap hloose
      have htail := ih (front ++ [x.token]) hrest (by simpa using hmore)
      rw [openers_concat _ x'.token, openers_concat _ y'.token, ← groupsAfter_flags,
        ← groupsAfter_flags] at htail
      rw [printAfter_cons, printAfter_cons, ← hfirst, headD_flags, hspace, htail, hnext]

theorem Setting.print_respaced (setting : Setting) (htokens : a.map (·.token) = b.map (·.token))
    (hgaps : Lexeme.GapsAgree isLooseInValue a b) : setting.print a = setting.print b := by
  cases a with
  | nil =>
    cases b with
    | nil => rfl
    | cons => contradiction
  | cons x a =>
    cases b with
    | nil => contradiction
    | cons y b =>
      have hfirst : x.token = y.token := (List.cons.inj htokens).1
      have htail := setting.printAfter_respaced [] htokens hgaps
      rw [openers_concat, openers_concat, ← groupsAfter_flags, ← groupsAfter_flags, ← hfirst] at htail
      have hopen : flags (openers []) = [] := rfl
      rw [hopen] at htail
      rw [print, print, printAfter_cons, printAfter_cons, ← hfirst, htail]
      rfl

/-! ## Tokens that were cut short -/

theorem fault?_of_isCutShort (h : IsCutShort token) : token.fault? = some .expectedNumber := by
  obtain ⟨mantissa, e, rfl, -, he⟩ := h
  rw [Token.fault?, numberFault?, Decimal.read?_concat_exponent mantissa he]

/-- As a dimension, what was cut short has the unit `e`, which is not known. -/
theorem fault?_dimension_of_isCutShort (h : IsCutShort token) :
    Token.fault? ⟨.dimension, token.text⟩ ≠ none := by
  obtain ⟨mantissa, e, rfl, hmantissa, he⟩ := h
  have hsplit := Token.splitDimension_append hmantissa.isMantissaChar (.inl rfl)
    (Token.isUnit_exponentLetter he)
  have hunknown : unitFault? [e] ≠ none := by
    rcases he with rfl | rfl
    · decide
    · decide
  rw [List.nil_append, List.append_nil] at hsplit
  simp only [Token.fault?, hsplit]
  rw [Ne, Option.or_eq_none_iff]
  exact fun hnone => hunknown hnone.2

/-- Tokens that are alike are the same, or both are unfit and their kinds differ. -/
theorem Token.Alike.eq_or_fault? (h : Token.Alike token other) :
    token = other ∨ token.fault? ≠ none ∧ other.fault? ≠ none ∧ token.kind ≠ other.kind := by
  rcases h with rfl | ⟨hcut, rfl⟩ | ⟨hcut, rfl⟩
  · exact .inl rfl
  · refine .inr ⟨by simp [fault?_of_isCutShort hcut], fault?_dimension_of_isCutShort hcut, ?_⟩
    obtain ⟨_, _, rfl, -⟩ := hcut
    simp
  · refine .inr ⟨fault?_dimension_of_isCutShort hcut, by simp [fault?_of_isCutShort hcut], ?_⟩
    obtain ⟨_, _, rfl, -⟩ := hcut
    simp

theorem eq_or_fault?_of_alike (h : List.Forall₂ (fun x y => Token.Alike x.token y.token) a b) :
    a.map (·.token) = b.map (·.token) ∨
      (∃ token ∈ a.map (·.token), token.fault? ≠ none) ∧
      (∃ token ∈ b.map (·.token), token.fault? ≠ none) ∧
      a.map (·.token.kind) ≠ b.map (·.token.kind) := by
  -- By induction on the pairs: where the first two tokens differ, they are unfit.
  induction h with
  | nil => exact .inl rfl
  | @cons x y a b hfirst _ ih =>
    rcases hfirst.eq_or_fault? with hsame | ⟨hfault, hfault', hkind⟩
    · rcases ih with hrest | ⟨⟨token, htoken, hfault⟩, ⟨other, hother, hfault'⟩, hkinds⟩
      · exact .inl (by rw [List.map_cons, List.map_cons, hsame, hrest])
      · refine .inr ⟨⟨token, List.mem_cons_of_mem _ htoken, hfault⟩,
          ⟨other, List.mem_cons_of_mem _ hother, hfault'⟩, fun hsame' => ?_⟩
        exact hkinds (List.cons.inj hsame').2
    · refine .inr ⟨⟨x.token, by simp, hfault⟩, ⟨y.token, by simp, hfault'⟩, fun hsame' => ?_⟩
      exact hkind (List.cons.inj hsame').1

theorem Setting.exists_print_eq_error (setting : Setting)
    (h : ∃ token ∈ a.map (·.token), token.fault? ≠ none) :
    ∃ fault, setting.print a = .error fault := by
  obtain ⟨token, htoken, hfault⟩ := h
  cases hprint : setting.print a with
  | error fault => exact ⟨fault, rfl⟩
  | ok text =>
    have hfit := (exists_print_eq_ok_iff.1 ⟨text, hprint⟩).2
    exact absurd (hfit token htoken) hfault

end Respaced

/-- Two texts with the same texts of tokens, and with gaps at the same boundaries where a gap counts, are
both printed, as the same text, or both rejected. If the tokens also are of the same kinds, they are
rejected for the same fault. -/
theorem printText_respaced {setting : Setting} {source source' : List Char} {lexemes others : List Lexeme}
    (hlex : Token.lex source = .ok lexemes) (hlex' : Token.lex source' = .ok others)
    (htexts : lexemes.map (·.token.text) = others.map (·.token.text))
    (hgaps : Lexeme.GapsAgree isLooseInValue lexemes others) :
    (∃ text, setting.printText source = .ok text ∧ setting.printText source' = .ok text) ∨
      ∃ fault other : Fault, setting.printText source = .error (fault.inValue setting.property source) ∧
        setting.printText source' = .error (other.inValue setting.property source') ∧
        (lexemes.map (·.token.kind) = others.map (·.token.kind) → fault = other) := by
  have hreads := Token.lex_eq_ok_iff.1 hlex
  have hreads' := Token.lex_eq_ok_iff.1 hlex'
  have herror : ∀ {source : List Char} {lexemes : List Lexeme} {fault : Fault}, Token.lex source = .ok lexemes →
      setting.print lexemes = .error fault →
      setting.printText source = .error (fault.inValue setting.property source) :=
    fun hlex hprint => Setting.printText_eq_error_iff.2 (.inr ⟨_, _, hlex, hprint, rfl⟩)
  rcases eq_or_fault?_of_alike (alike_of_reads hreads hreads' htexts) with
    hsame | ⟨hfault, hfault', hkinds⟩
  · have hprint := setting.print_respaced hsame hgaps
    cases hresult : setting.print lexemes with
    | ok text =>
      refine .inl ⟨text, Setting.printText_eq_ok_iff.2 ⟨_, hreads, hresult⟩, ?_⟩
      exact Setting.printText_eq_ok_iff.2 ⟨_, hreads', hprint ▸ hresult⟩
    | error fault =>
      refine .inr ⟨fault, fault, herror hlex hresult, herror hlex' ?_, fun _ => rfl⟩
      rw [← hprint, hresult]
  · obtain ⟨fault, hprint⟩ := setting.exists_print_eq_error hfault
    obtain ⟨other, hprint'⟩ := setting.exists_print_eq_error hfault'
    exact .inr ⟨fault, other, herror hlex hprint, herror hlex' hprint', fun h => absurd h hkinds⟩

/-- Gaps beside parentheses, the comma and the slash do not count, nor beside the star inside of `calc`. -/
theorem printText_respaced_calc :
    let source := "max( calc(2*1em) ,3ex)/ a b !important".toList
    let source' := "max(calc( 2 * 1em ), 3ex) /a  b!important".toList
    ∃ lexemes others, Token.lex source = .ok lexemes ∧ Token.lex source' = .ok others ∧
      lexemes.map (·.token.text) = others.map (·.token.text) ∧
      Lexeme.GapsAgree isLooseInValue lexemes others ∧
      ∃ text, Setting.printText ⟨"grid-area", {}⟩ source = .ok text ∧
        Setting.printText ⟨"grid-area", {}⟩ source' = .ok text := by
  intro source source'
  let read := fun text : List Char => (Token.lex text).toOption.getD []
  have hlex : Token.lex source = .ok (read source) := by decide +kernel
  have hlex' : Token.lex source' = .ok (read source') := by decide +kernel
  have htexts : (read source).map (·.token.text) = (read source').map (·.token.text) := by
    decide +kernel
  have hgaps : Lexeme.GapsAgree isLooseInValue (read source) (read source') := by decide +kernel
  refine ⟨_, _, hlex, hlex', htexts, hgaps, ?_⟩
  rcases printText_respaced hlex hlex' htexts hgaps with htext | ⟨fault, -, herror, -⟩
  · exact htext
  · have hprint : (Setting.printText ⟨"grid-area", {}⟩ source).isOk := by decide +kernel
    rw [herror] at hprint
    contradiction

/-- The gap in front of the minus is in a math group, so it does not count. But without it `5e` is a
number without the digits of its exponent, and with it a dimension with an unknown unit. -/
theorem dangling_exponent_spaced :
    let source := "calc(5e- 1px)".toList
    let source' := "calc(5e - 1px)".toList
    ∃ lexemes others, Token.lex source = .ok lexemes ∧ Token.lex source' = .ok others ∧
      lexemes.map (·.token.text) = others.map (·.token.text) ∧
      Lexeme.GapsAgree isLooseInValue lexemes others ∧
      Setting.printText ⟨"width", {}⟩ source =
        .error (.expectedNumber "width" "calc(5e- 1px)") ∧
      Setting.printText ⟨"width", {}⟩ source' =
        .error (.unknownUnit "width" "calc(5e - 1px)" "e") := by
  intro source source'
  let read := fun text : List Char => (Token.lex text).toOption.getD []
  exact ⟨read source, read source', by decide +kernel⟩

end AtomicCss
