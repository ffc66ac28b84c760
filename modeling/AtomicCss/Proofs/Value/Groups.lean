import AtomicCss.Proofs.Value.Printed
/-!
# Open groups

The printer keeps a flag for every group that is open. The flags are those of the openers that nothing
closes, innermost first (`groupsAfter_flags`): a flag tells whether the group is a call of a math
function or a plain parenthesis directly inside one. What was opened and closed again leaves no trace, so
the innermost opener is the last one that only balanced tokens follow (`openers_eq_cons_iff`).
-/

namespace AtomicCss

/-! ## Balanced tokens -/

/-- Tokens that close a group. -/
def Token.closes (token : Token) : Bool :=
  token.kind == .rightParen

/-- The openers that are left behind a token. -/
def openersAfter (left : List Token) (token : Token) : List Token :=
  if token.opens then token :: left else if token.closes then left.tail else left

/-- The openers of tokens that nothing closes, innermost first. -/
def openers (tokens : List Token) : List Token :=
  tokens.foldl openersAfter []

/-- That no front part of the tokens closes more groups than it opens. -/
def ClosesOpen (tokens : List Token) : Prop :=
  ∀ n, (tokens.take n).countP (·.closes) ≤ (tokens.take n).countP (·.opens)

/-- That every opener is closed, and nothing else is. -/
structure IsBalanced (tokens : List Token) : Prop where
  closesOpen : ClosesOpen tokens
  counts_eq : tokens.countP (·.closes) = tokens.countP (·.opens)

section Balanced

variable {token opener : Token} {tokens front inner inner' left outer : List Token}

/-- No token opens a group and closes one. -/
theorem Token.closes_of_opens (h : token.opens) : token.closes = false := by
  obtain ⟨kind, _⟩ := token
  cases kind
  case rightParen => contradiction
  all_goals rfl

theorem Token.opens_of_closes (h : token.closes) : token.opens = false := by
  by_contra hopens
  rw [closes_of_opens (by simpa using hopens)] at h
  contradiction

/-- A token that opens a group comes on top. -/
theorem openersAfter_of_opens (h : token.opens) : openersAfter left token = token :: left := by
  rw [openersAfter, if_pos h]

/-- A token that closes a group takes away the one on top. -/
theorem openersAfter_of_closes (h : token.closes) : openersAfter left token = left.tail := by
  rw [openersAfter, Token.opens_of_closes h, if_neg Bool.false_ne_true, if_pos h]

/-- Other tokens leave the groups as they are. -/
theorem openersAfter_of_inert (hopens : token.opens = false) (hcloses : token.closes = false) :
    openersAfter left token = left := by
  rw [openersAfter, hopens, hcloses, if_neg Bool.false_ne_true, if_neg Bool.false_ne_true]

theorem openers_concat (tokens : List Token) (token : Token) :
    openers (tokens ++ [token]) = openersAfter (openers tokens) token := by
  rw [openers, List.foldl_append]
  rfl

/-- Tokens that close no more than they open and `extra` groups besides leave the others open. -/
theorem foldl_openersAfter (extra left : List Token)
    (h : ∀ n, (tokens.take n).countP (·.closes) ≤ (tokens.take n).countP (·.opens) + extra.length) :
    ∃ extra', tokens.foldl openersAfter (extra ++ left) = extra' ++ left ∧
      extra'.length + tokens.countP (·.closes) = extra.length + tokens.countP (·.opens) := by
  -- The extra openers grow and shrink with the tokens, and those below are never reached.
  induction tokens generalizing extra with
  | nil => exact ⟨extra, rfl, rfl⟩
  | cons token tokens ih =>
    rw [List.foldl_cons, List.countP_cons, List.countP_cons]
    have hrest := fun n => h (n + 1)
    simp only [List.take_succ_cons, List.countP_cons] at hrest
    cases hopens : token.opens with
    | true =>
      have hcloses := Token.closes_of_opens hopens
      simp only [hopens, hcloses, if_true, Bool.false_eq_true, if_false] at hrest ⊢
      rw [openersAfter_of_opens hopens, ← List.cons_append]
      obtain ⟨extra', hfold, hlength⟩ := ih (token :: extra) fun n => by
        have hcount := hrest n
        rw [List.length_cons]
        omega
      refine ⟨extra', hfold, ?_⟩
      rw [List.length_cons] at hlength
      omega
    | false =>
      cases hcloses : token.closes with
      | true =>
        simp only [hopens, hcloses, if_true, Bool.false_eq_true, if_false] at hrest ⊢
        -- The token closes a group, which must be one of the extra ones.
        cases extra with
        | nil => exact absurd (hrest 0) (by simp)
        | cons last extra =>
          rw [openersAfter_of_closes hcloses, List.cons_append, List.tail_cons]
          obtain ⟨extra', hfold, hlength⟩ := ih extra fun n => by
            have hcount := hrest n
            rw [List.length_cons] at hcount
            omega
          refine ⟨extra', hfold, ?_⟩
          rw [List.length_cons]
          omega
      | false =>
        simp only [hopens, hcloses, Bool.false_eq_true, if_false] at hrest ⊢
        rw [openersAfter_of_inert hopens hcloses]
        exact ih extra hrest

/-- Each opened group is still open or has been closed. -/
theorem ClosesOpen.length_openers (h : ClosesOpen tokens) :
    (openers tokens).length + tokens.countP (·.closes) = tokens.countP (·.opens) := by
  obtain ⟨extra, hfold, hlength⟩ := foldl_openersAfter [] [] h
  rw [List.append_nil, List.append_nil] at hfold
  rw [openers, hfold, hlength]
  exact Nat.zero_add _

/-- Balanced tokens leave the groups around them as they are. -/
theorem IsBalanced.foldl_openersAfter (h : IsBalanced tokens) :
    tokens.foldl openersAfter left = left := by
  obtain ⟨extra, hfold, hlength⟩ :=
    AtomicCss.foldl_openersAfter [] left h.closesOpen
  rw [h.counts_eq, List.length_nil, Nat.zero_add] at hlength
  have hextra : extra = [] := List.length_eq_zero_iff.1 (by omega)
  rw [hextra] at hfold
  exact hfold

theorem isBalanced_nil : IsBalanced [] :=
  ⟨fun _ => by simp, rfl⟩

theorem isBalanced_singleton (hopens : token.opens = false) (hcloses : token.closes = false) :
    IsBalanced [token] := by
  constructor
  · intro n
    cases n <;> simp [hcloses]
  · simp [hopens, hcloses]

/-- Balanced tokens behind balanced ones are balanced. -/
theorem IsBalanced.append (h : IsBalanced inner) (h' : IsBalanced inner') :
    IsBalanced (inner ++ inner') := by
  constructor
  · intro n
    rw [List.take_append, List.countP_append, List.countP_append]
    exact Nat.add_le_add (h.closesOpen n) (h'.closesOpen _)
  · rw [List.countP_append, List.countP_append, h.counts_eq, h'.counts_eq]

/-- Balanced tokens in a group of their own are balanced. -/
theorem IsBalanced.group (h : IsBalanced inner) (hopens : opener.opens) (hcloses : token.closes) :
    IsBalanced (opener :: (inner ++ [token])) := by
  have hopener := Token.closes_of_opens hopens
  have htoken := Token.opens_of_closes hcloses
  constructor
  · intro n
    -- A front that is not empty has the opener, and only the whole has the closing token.
    cases n with
    | zero => exact Nat.le_refl _
    | succ n =>
      have hcount := h.closesOpen n
      have hlast : ((([token] : List Token).take (n - inner.length)).countP (·.closes)) ≤ 1 :=
        List.countP_le_length.trans (List.length_take_le' _ _)
      rw [List.take_succ_cons, List.take_append]
      simp only [List.countP_cons, List.countP_append, hopens, hopener]
      simp only [if_true, Bool.false_eq_true, if_false]
      omega
  · simp [h.counts_eq, hopens, hopener, hcloses, htoken]

/-- The innermost opener is the last one that only balanced tokens follow, and the outer ones are those
in front of it. -/
theorem openers_eq_cons_iff : openers tokens = opener :: outer ↔
    ∃ front inner, tokens = front ++ opener :: inner ∧ opener.opens ∧ IsBalanced inner ∧
      openers front = outer := by
  constructor
  · -- By induction on the length, since a closing parenthesis leads back to the group outside.
    intro h
    induction hlength : tokens.length using Nat.strong_induction_on generalizing tokens opener outer with
    | h n ih =>
    subst hlength
    rcases tokens.eq_nil_or_concat with rfl | ⟨front, token, rfl⟩
    · contradiction
    rw [List.concat_eq_append] at h ih ⊢
    rw [openers_concat] at h
    have hshort : front.length < (front ++ [token]).length := by simp
    cases hopens : token.opens with
    | true =>
      rw [openersAfter_of_opens hopens] at h
      obtain ⟨rfl, rfl⟩ := List.cons.inj h
      exact ⟨front, [], rfl, hopens, isBalanced_nil, rfl⟩
    | false =>
      cases hcloses : token.closes with
      | true =>
        rw [openersAfter_of_closes hcloses] at h
        cases hfront : openers front with
        | nil => rw [hfront] at h; contradiction
        | cons last rest =>
          rw [hfront, List.tail_cons] at h
          -- First back to the opener of the group that is closed here, then to the one around it.
          obtain ⟨front', inner, rfl, hlast, hinner, hrest⟩ := ih _ hshort hfront rfl
          rw [h] at hrest
          obtain ⟨front, inner', rfl, hopener, hinner', hrest'⟩ := ih _ (by simp) hrest rfl
          refine ⟨front, inner' ++ last :: (inner ++ [token]), by simp, hopener, ?_, hrest'⟩
          exact hinner'.append (hinner.group hlast hcloses)
      | false =>
        rw [openersAfter_of_inert hopens hcloses] at h
        obtain ⟨front', inner, rfl, hopener, hinner, hrest⟩ := ih _ hshort h rfl
        refine ⟨front', inner ++ [token], by simp, hopener, ?_, hrest⟩
        exact hinner.append (isBalanced_singleton hopens hcloses)
  · rintro ⟨front, inner, rfl, hopens, hinner, rfl⟩
    rw [openers, List.foldl_append, List.foldl_cons, hinner.foldl_openersAfter,
      openersAfter_of_opens hopens]
    rfl

end Balanced

/-! ## Math groups -/

/-- Whether the innermost of some open groups is a math group: a call of a math function, or a plain
parenthesis directly inside a math group. -/
def isMathGroup : List Token → Bool
  | [] => false
  | opener :: outer =>
    if opener.kind = .function then isMathFunction opener.text else isMathGroup outer

/-- For each open group whether it is a math group. -/
def flags : List Token → List Bool
  | [] => []
  | opener :: outer => isMathGroup (opener :: outer) :: flags outer

section Flags

variable {token : Token} {left tokens : List Token}

/-- What the printer remembers on top is whether the innermost group is a math function. -/
@[simp]
theorem headD_flags : (flags left).headD false = isMathGroup left := by
  cases left <;> rfl

theorem isEmpty_flags : (flags left).isEmpty = left.isEmpty := by
  cases left <;> rfl

theorem tail_flags : (flags left).tail = flags left.tail := by
  cases left <;> rfl

/-- Some flag is set just if some group is a math group, the innermost or one around it. -/
theorem any_flags : (flags left).any id ↔ ∃ group, group <:+ left ∧ isMathGroup group := by
  induction left with
  | nil =>
    constructor
    · intro h
      contradiction
    · rintro ⟨group, hgroup, hmath⟩
      rw [List.suffix_nil.1 hgroup] at hmath
      contradiction
  | cons opener outer ih =>
    simp only [flags, List.any_cons, Bool.or_eq_true, id, ih, List.suffix_cons_iff]
    constructor
    · rintro (hmath | ⟨group, hgroup, hmath⟩)
      · exact ⟨_, .inl rfl, hmath⟩
      · exact ⟨group, .inr hgroup, hmath⟩
    · rintro ⟨group, rfl | hgroup, hmath⟩
      · exact .inl hmath
      · exact .inr ⟨group, hgroup, hmath⟩

/-- The printer and the openers keep step. -/
theorem groupsAfter_flags : groupsAfter (flags left) token = flags (openersAfter left token) := by
  obtain ⟨kind, text⟩ := token
  cases kind
  case function =>
    rw [openersAfter_of_opens rfl, flags, isMathGroup, if_pos rfl]
    rfl
  case leftParen =>
    rw [openersAfter_of_opens rfl, flags, isMathGroup, if_neg (by simp), ← headD_flags]
    rfl
  case rightParen =>
    rw [openersAfter_of_closes rfl, ← tail_flags]
    rfl
  all_goals rfl

/-- The groups that are open behind tokens have the flags of the openers that are left. -/
theorem foldl_groupsAfter : tokens.foldl groupsAfter [] = flags (openers tokens) := by
  induction tokens using List.reverseRecOn with
  | nil => rfl
  | append_singleton front token ih =>
    rw [List.foldl_append, ih, openers_concat, ← groupsAfter_flags]
    rfl

end Flags

end AtomicCss
