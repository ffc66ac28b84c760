import AtomicCss.Proofs.Value.Groups
import AtomicCss.Proofs.Value.Respelled
/-!
# Accepted values

A text is printed if and only if it is read as balanced tokens and each number and dimension is fit to be
printed when it stands alone. Of a text that is not, the leftmost fault is reported
(`printText_outcome`): up to it the printer's groups are the openers that nothing has closed, so that a
closing parenthesis is at fault just if as many were closed in front of it as were opened.
-/

namespace AtomicCss

/-! ## Faults of a token -/

/-- What is wrong with the text of a number. -/
def numberFault? (text : List Char) : Option Fault :=
  match Decimal.read? text with
  | none => some .expectedNumber
  | some x => if x.isFinite then none else some .nonFiniteNumber

/-- What is wrong with the text of a unit. -/
def unitFault? (text : List Char) : Option Fault :=
  let unit := String.ofList (lowercase text)
  if Dimension.isKnown unit then none else some (.unknownUnit unit)

/-- What is wrong with a token that stands alone. Only numbers and dimensions can be unfit. -/
def Token.fault? (token : Token) : Option Fault :=
  match token.kind with
  | .number => numberFault? token.text
  | .dimension =>
    (numberFault? (splitDimension token.text).1).or (unitFault? (splitDimension token.text).2)
  | _ => none

/-- What is wrong with a token, outside of all groups or inside one. -/
def Token.faultInside? (outside : Bool) (token : Token) : Option Fault :=
  if token.closes && outside then some .unbalancedParenthesis else token.fault?

/-- What is wrong with a token behind others: with a closing parenthesis, that all groups in front of it
are closed. -/
def faultBehind? (front : List Token) (token : Token) : Option Fault :=
  token.faultInside? (front.countP (·.opens) ≤ front.countP (·.closes))

/-- What is wrong with the token at a position. -/
def faultAt? (tokens : List Token) (i : Nat) : Option Fault :=
  tokens[i]?.bind (faultBehind? (tokens.take i))

/-- The fault that is reported of tokens: the leftmost one, or if no token is at fault, that a group is
left open. -/
inductive Reports (tokens : List Token) : Fault → Prop where
  | leftmost {i : Nat} {fault : Fault} (hfault : faultAt? tokens i = some fault)
      (hfirst : ∀ j < i, faultAt? tokens j = none) : Reports tokens fault
  | unclosed (hnone : ∀ i, faultAt? tokens i = none)
      (hopen : tokens.countP (·.closes) ≠ tokens.countP (·.opens)) : Reports tokens .unclosedFunction

section Faults

variable {setting : Setting} {token : Token} {tokens : List Token} {groups : List Bool}
  {insideMath : Bool} {text : List Char} {fault : Fault}

theorem readNumber_eq_error_iff : readNumber text = .error fault ↔ numberFault? text = some fault := by
  unfold readNumber numberFault?
  cases Decimal.read? text with
  | none => simp
  | some x =>
    simp only
    split <;> simp

theorem Dimension.isKnown_of_isAngle {unit : String} (h : isAngle unit) : isKnown unit := by
  rw [isKnown, h, Bool.or_true, Bool.true_or]

/-- Only a dimension with an unknown unit has no spelling. -/
theorem Setting.dimensionOf_eq_error_iff {x : Binary64} {unit : String} :
    setting.dimensionOf insideMath x unit = .error fault ↔
      Dimension.isKnown unit = false ∧ fault = .unknownUnit unit := by
  have hms : Dimension.isKnown "ms" := by decide
  have hs : Dimension.isKnown "s" := by decide
  -- Every branch but the last has a spelling, and its unit is a known one.
  unfold dimensionOf
  split
  · rename_i hangle
    simp [Dimension.isKnown_of_isAngle hangle]
  · split
    · rename_i hunit
      simp [hunit, hms]
    · split
      · rename_i hunit
        simp [hunit.1, hs]
      · split
        · rename_i hknown
          simp [hknown]
        · rename_i hunknown
          simp [hunknown, eq_comm]

theorem Setting.dimension_eq_error_iff :
    setting.dimension insideMath text = .error fault ↔
      (numberFault? (Token.splitDimension text).1).or (unitFault? (Token.splitDimension text).2) =
        some fault := by
  cases hread : readNumber (Token.splitDimension text).1 with
  | error other =>
    have hdimension : setting.dimension insideMath text = .error other := by
      rw [dimension, hread]
      rfl
    rw [hdimension, readNumber_eq_error_iff.1 hread]
    simp
  | ok x =>
    have hnone : numberFault? (Token.splitDimension text).1 = none := by
      by_contra hsome
      obtain ⟨other, hother⟩ := Option.ne_none_iff_exists'.1 hsome
      rw [readNumber_eq_error_iff.2 hother] at hread
      contradiction
    rw [dimension_of_read hread, hnone, Option.none_or, dimensionOf_eq_error_iff]
    simp only [unitFault?]
    split
    · rename_i hknown
      simp [hknown]
    · rename_i hunknown
      simp [hunknown, eq_comm]

/-- A token has no spelling just if something is wrong with it, and then that is reported. -/
theorem Setting.token_eq_error_iff :
    setting.token groups token = .error fault ↔
      token.faultInside? groups.isEmpty = some fault := by
  obtain ⟨kind, text⟩ := token
  cases kind
  case number =>
    have hnumber : setting.token groups ⟨.number, text⟩ = .error fault ↔
        readNumber text = .error fault := by
      cases hread : readNumber text <;> simp [token, hread, bind, Except.bind, pure, Except.pure]
    rw [hnumber, readNumber_eq_error_iff]
    rfl
  case dimension => exact dimension_eq_error_iff
  case rightParen =>
    cases groups with
    | nil => simp [token, Token.faultInside?, Token.closes]
    | cons => simp [token, Token.faultInside?, Token.closes, Token.fault?]
  all_goals simp [token, Token.faultInside?, Token.closes, Token.fault?]

theorem Setting.exists_token_eq_ok (setting : Setting) (h : token.faultInside? groups.isEmpty = none) :
    ∃ printed, setting.token groups token = .ok printed := by
  cases htoken : setting.token groups token with
  | ok printed => exact ⟨printed, rfl⟩
  | error fault =>
    rw [token_eq_error_iff.1 htoken] at h
    contradiction

end Faults

/-! ## Faults of tokens -/

section Reports

variable {token : Token} {tokens front : List Token} {fault other : Fault} {i n : Nat}

theorem faultAt?_eq_none_of_length_le (h : tokens.length ≤ i) : faultAt? tokens i = none := by
  rw [faultAt?, List.getElem?_eq_none h]
  rfl

theorem faultAt?_of_getElem? (h : tokens[i]? = some token) :
    faultAt? tokens i = faultBehind? (tokens.take i) token := by
  rw [faultAt?, h]
  rfl

theorem take_succ_of_getElem? (h : tokens[i]? = some token) :
    tokens.take (i + 1) = tokens.take i ++ [token] := by
  rw [List.take_add_one, h]
  rfl

/-- Up to the first fault no group is closed that is not open. -/
theorem closesOpen_take (h : ∀ j < n, faultAt? tokens j = none) : ClosesOpen (tokens.take n) := by
  intro m
  rw [List.take_take]
  generalize hk : min m n = k
  have hn : k ≤ n := by omega
  clear hk
  -- The first front part that closes too much would end in a parenthesis that is at fault.
  induction k with
  | zero => exact Nat.le_refl _
  | succ k ih =>
    have hcount := ih (by omega)
    cases htoken : tokens[k]? with
    | none =>
      have hlength := List.getElem?_eq_none_iff.1 htoken
      rw [List.take_of_length_le (by omega)]
      rw [List.take_of_length_le hlength] at hcount
      exact hcount
    | some token =>
      have hfault := h k (by omega)
      rw [faultAt?_of_getElem? htoken, faultBehind?, Token.faultInside?] at hfault
      rw [take_succ_of_getElem? htoken, List.countP_append, List.countP_append,
        List.countP_singleton, List.countP_singleton]
      cases hcloses : token.closes with
      | false =>
        simp only [Bool.false_eq_true, if_false]
        omega
      | true =>
        rw [hcloses] at hfault
        have hopen : ¬ (tokens.take k).countP (·.opens) ≤ (tokens.take k).countP (·.closes) := by
          intro hopen
          simp [hopen] at hfault
        simp only [if_true]
        omega

/-- Nothing is at fault just if no group is closed that is not open, and each token alone is fit. -/
theorem forall_faultAt?_eq_none_iff :
    (∀ i, faultAt? tokens i = none) ↔ ClosesOpen tokens ∧ ∀ token ∈ tokens, token.fault? = none := by
  constructor
  · intro h
    constructor
    · have hclosed := closesOpen_take (n := tokens.length) fun j _ => h j
      rwa [List.take_length] at hclosed
    · intro token htoken
      obtain ⟨i, hi⟩ := List.getElem?_of_mem htoken
      have hfault := h i
      rw [faultAt?_of_getElem? hi, faultBehind?, Token.faultInside?] at hfault
      split at hfault
      · contradiction
      · exact hfault
  · rintro ⟨hclosed, hfit⟩ i
    cases htoken : tokens[i]? with
    | none => rw [faultAt?, htoken]; rfl
    | some token =>
      rw [faultAt?_of_getElem? htoken, faultBehind?, Token.faultInside?, if_neg,
        hfit token (List.mem_of_getElem? htoken)]
      rw [Bool.and_eq_true, decide_eq_true_iff]
      rintro ⟨hcloses, hcount⟩
      -- One more closed group would be one too many in front of the next token.
      have hnext := hclosed (i + 1)
      rw [take_succ_of_getElem? htoken, List.countP_append, List.countP_append,
        List.countP_singleton, List.countP_singleton, hcloses, Token.opens_of_closes hcloses] at hnext
      simp only [if_true, Bool.false_eq_true, if_false] at hnext
      omega

/-- Where no more groups are closed than were open, all are closed just if the printer is outside. -/
theorem ClosesOpen.isEmpty_flags_iff (h : ClosesOpen front) :
    (flags (openers front)).isEmpty = decide (front.countP (·.opens) ≤ front.countP (·.closes)) := by
  have hlength := h.length_openers
  rw [isEmpty_flags, Bool.eq_iff_iff, decide_eq_true_iff, List.isEmpty_iff, ← List.length_eq_zero_iff]
  omega

/-- Only one fault is reported. -/
theorem Reports.unique (h : Reports tokens fault) (h' : Reports tokens other) : fault = other := by
  -- Of two leftmost faults each is no further right than the other.
  cases h with
  | @leftmost i _ hfault hfirst =>
    cases h' with
    | @leftmost j _ hother hfirst' =>
      rcases Nat.lt_trichotomy i j with hlt | rfl | hlt
      · rw [hfirst' i hlt] at hfault
        contradiction
      · rw [hfault] at hother
        exact Option.some.inj hother
      · rw [hfirst j hlt] at hother
        contradiction
    | unclosed hnone =>
      rw [hnone i] at hfault
      contradiction
  | unclosed hnone =>
    cases h' with
    | @leftmost j _ hother =>
      rw [hnone j] at hother
      contradiction
    | unclosed => rfl

/-- Something is reported, or the tokens are balanced and each of them is fit. -/
theorem reports_or_isBalanced (tokens : List Token) :
    (∃ fault, Reports tokens fault) ∨
      IsBalanced tokens ∧ ∀ token ∈ tokens, token.fault? = none := by
  by_cases hnone : ∀ i, faultAt? tokens i = none
  · obtain ⟨hclosed, hfit⟩ := forall_faultAt?_eq_none_iff.1 hnone
    by_cases hcounts : tokens.countP (·.closes) = tokens.countP (·.opens)
    · exact .inr ⟨⟨hclosed, hcounts⟩, hfit⟩
    · exact .inl ⟨_, .unclosed hnone hcounts⟩
  · classical
    have hsome : ∃ i, faultAt? tokens i ≠ none := by
      simpa using hnone
    obtain ⟨fault, hfault⟩ := Option.ne_none_iff_exists'.1 (Nat.find_spec hsome)
    refine .inl ⟨fault, .leftmost hfault fun j hj => ?_⟩
    by_contra hj'
    exact Nat.find_min hsome hj hj'

end Reports

/-! ## What is reported -/

section Printer

variable {setting : Setting} {groups : List Bool} {before : Option Token} {lexeme : Lexeme}
  {lexemes rest : List Lexeme} {fault : Fault} {n : Nat}

/-- The printer gets past tokens that are not at fault, and then is inside the groups that they left
open. -/
theorem Setting.print_eq_error_iff_drop (setting : Setting) (hn : n ≤ lexemes.length)
    (h : ∀ j < n, faultAt? (lexemes.map (·.token)) j = none) :
    ∃ before, ∀ fault, setting.print lexemes = .error fault ↔
      setting.printAfter (flags (openers ((lexemes.map (·.token)).take n))) before
        (lexemes.drop n) = .error fault := by
  -- By induction on the number of tokens passed; each has a spelling, so only the rest can fail.
  induction n with
  | zero => exact ⟨none, fun fault => Iff.rfl⟩
  | succ n ih =>
    obtain ⟨before, hiff⟩ := ih (by omega) fun j hj => h j (by omega)
    have hlt : n < lexemes.length := hn
    have htoken : (lexemes.map (·.token))[n]? = some lexemes[n].token := by
      simp [hlt]
    have hclosed := closesOpen_take (n := n) fun j hj => h j (by omega)
    have hfault := h n (Nat.lt_succ_self n)
    rw [faultAt?_of_getElem? htoken, faultBehind?, ← hclosed.isEmpty_flags_iff] at hfault
    have hprinted := setting.exists_token_eq_ok hfault
    refine ⟨some lexemes[n].token, fun fault => ?_⟩
    rw [hiff fault, List.drop_eq_getElem_cons hlt, printAfter_cons_eq_error_iff, groupsAfter_flags,
      take_succ_of_getElem? htoken, openers_concat]
    constructor
    · rintro (herror | ⟨-, hrest⟩)
      · obtain ⟨printed, hok⟩ := hprinted
        rw [hok] at herror
        contradiction
      · exact hrest
    · intro hrest
      exact .inr ⟨hprinted, hrest⟩

/-- Where no token is at fault, only a group that is left open is an error. -/
theorem Setting.print_eq_error_iff_unclosed (setting : Setting)
    (hnone : ∀ i, faultAt? (lexemes.map (·.token)) i = none) :
    setting.print lexemes = .error fault ↔
      (lexemes.map (·.token)).countP (·.closes) ≠ (lexemes.map (·.token)).countP (·.opens) ∧
        fault = .unclosedFunction := by
  obtain ⟨before, hiff⟩ := print_eq_error_iff_drop setting (Nat.le_refl lexemes.length)
    fun j _ => hnone j
  have hclosed := (forall_faultAt?_eq_none_iff.1 hnone).1
  have hcounts := hclosed.length_openers
  -- All tokens are printed, and what is left is the check at the end.
  rw [hiff, List.drop_length, ← List.length_map (·.token), List.take_length, printAfter,
    hclosed.isEmpty_flags_iff]
  split
  · rename_i hall
    rw [decide_eq_true_iff] at hall
    have hsame : (lexemes.map (·.token)).countP (·.closes) =
        (lexemes.map (·.token)).countP (·.opens) := by
      omega
    constructor
    · intro heq
      contradiction
    · rintro ⟨hne, -⟩
      exact absurd hsame hne
  · rename_i hsome
    rw [decide_eq_true_iff] at hsome
    have hne : (lexemes.map (·.token)).countP (·.closes) ≠
        (lexemes.map (·.token)).countP (·.opens) := by
      omega
    constructor
    · intro heq
      exact ⟨hne, (Except.error.inj heq).symm⟩
    · rintro ⟨-, rfl⟩
      rfl

/-- What is reported of the tokens is the printer's error. -/
theorem Setting.print_eq_error_of_reports (setting : Setting)
    (h : Reports (lexemes.map (·.token)) fault) :
    setting.print lexemes = .error fault := by
  cases h with
  | @leftmost i _ hfault hfirst =>
    have hlt : i < lexemes.length := by
      by_contra hlength
      rw [faultAt?_eq_none_of_length_le (by simpa using hlength)] at hfault
      contradiction
    have htoken : (lexemes.map (·.token))[i]? = some lexemes[i].token := by
      simp [hlt]
    obtain ⟨before, hiff⟩ := print_eq_error_iff_drop setting (Nat.le_of_lt hlt) hfirst
    rw [hiff, List.drop_eq_getElem_cons hlt, printAfter_cons_eq_error_iff, token_eq_error_iff,
      (closesOpen_take hfirst).isEmpty_flags_iff]
    rw [faultAt?_of_getElem? htoken] at hfault
    exact .inl hfault
  | unclosed hnone hopen => exact (setting.print_eq_error_iff_unclosed hnone).2 ⟨hopen, rfl⟩

theorem Setting.exists_print_eq_ok (setting : Setting)
    (hbalanced : IsBalanced (lexemes.map (·.token)))
    (hfit : ∀ token ∈ lexemes.map (·.token), token.fault? = none) :
    ∃ text, setting.print lexemes = .ok text := by
  cases hprint : setting.print lexemes with
  | ok text => exact ⟨text, rfl⟩
  | error fault =>
    have hnone := forall_faultAt?_eq_none_iff.2 ⟨hbalanced.closesOpen, hfit⟩
    obtain ⟨hne, -⟩ := (setting.print_eq_error_iff_unclosed hnone).1 hprint
    exact absurd hbalanced.counts_eq hne

theorem Setting.print_eq_error_iff :
    setting.print lexemes = .error fault ↔ Reports (lexemes.map (·.token)) fault := by
  constructor
  · intro herror
    rcases reports_or_isBalanced (lexemes.map (·.token)) with ⟨other, hreports⟩ | ⟨hbalanced, hfit⟩
    · have hsame := setting.print_eq_error_of_reports hreports
      rw [herror] at hsame
      rwa [Except.error.inj hsame]
    · obtain ⟨text, hok⟩ := setting.exists_print_eq_ok hbalanced hfit
      rw [herror] at hok
      contradiction
  · intro hreports
    exact setting.print_eq_error_of_reports hreports

theorem Setting.exists_print_eq_ok_iff :
    (∃ text, setting.print lexemes = .ok text) ↔
      IsBalanced (lexemes.map (·.token)) ∧
        ∀ token ∈ lexemes.map (·.token), token.fault? = none := by
  constructor
  · rintro ⟨text, hok⟩
    rcases reports_or_isBalanced (lexemes.map (·.token)) with ⟨fault, hreports⟩ | hfit
    · rw [setting.print_eq_error_of_reports hreports] at hok
      contradiction
    · exact hfit
  · rintro ⟨hbalanced, hfit⟩
    exact setting.exists_print_eq_ok hbalanced hfit

/-- A text is not printed if it is not read, or else if its lexemes are not printed. -/
theorem Setting.printText_eq_error_iff {source : List Char} {error : ValueError} :
    setting.printText source = .error error ↔
      (∃ rest, Token.lex source = .error rest ∧ error = .unexpectedInput setting.property
        (String.ofList source) (Token.offsetOf source rest)) ∨
      ∃ lexemes fault, Token.lex source = .ok lexemes ∧ setting.print lexemes = .error fault ∧
        error = fault.inValue setting.property source := by
  cases hlex : Token.lex source with
  | error rest => simp [printText, lexValue, hlex, bind, Except.bind, eq_comm]
  | ok lexemes =>
    cases hprint : setting.print lexemes <;>
      simp [printText, lexValue, hlex, hprint, bind, Except.bind, eq_comm]

end Printer

/-- A text is printed if and only if it is read as tokens, every front part of them opens at least as
many groups as it closes, all of them as many, and each number and dimension is fit alone. Else the text
that could not be read is reported, or the leftmost token that closes a group too many or is unfit, or
else that a group is left open. -/
theorem printText_outcome (setting : Setting) (source : List Char) :
    ((∃ text, setting.printText source = .ok text) ↔
      ∃ lexemes, Token.lex source = .ok lexemes ∧ IsBalanced (lexemes.map (·.token)) ∧
        ∀ token ∈ lexemes.map (·.token), token.fault? = none) ∧
    ∀ error, setting.printText source = .error error ↔
      (∃ rest, Token.lex source = .error rest ∧ error = .unexpectedInput setting.property
        (String.ofList source) (Token.offsetOf source rest)) ∨
      ∃ lexemes fault, Token.lex source = .ok lexemes ∧
        Reports (lexemes.map (·.token)) fault ∧ error = fault.inValue setting.property source := by
  constructor
  · constructor
    · rintro ⟨text, htext⟩
      obtain ⟨lexemes, hreads, hprint⟩ := Setting.printText_eq_ok_iff.1 htext
      exact ⟨lexemes, Token.lex_eq_ok_iff.2 hreads, Setting.exists_print_eq_ok_iff.1 ⟨text, hprint⟩⟩
    · rintro ⟨lexemes, hlex, hfit⟩
      obtain ⟨text, hprint⟩ := Setting.exists_print_eq_ok_iff.2 hfit
      exact ⟨text, Setting.printText_eq_ok_iff.2 ⟨lexemes, Token.lex_eq_ok_iff.1 hlex, hprint⟩⟩
  · intro error
    simp only [Setting.printText_eq_error_iff, Setting.print_eq_error_iff]

/-- The unknown unit stands in front of the parenthesis that closes nothing. -/
example : Setting.printText ⟨"width", {}⟩ "max(1PT, 2zz))".toList =
    .error (.unknownUnit "width" "max(1PT, 2zz))" "zz") := by
  decide +kernel

end AtomicCss
