import AtomicCss.Proofs.Token.Boundary
import AtomicCss.Proofs.Value.Number
import AtomicCss.Value.Printer
/-!
# What is printed for a token

Dimensions are printed as a number and a unit or as a zero, and strings as strings in double quotes.
-/

namespace AtomicCss

open Token (IsUnit IsInner)

/-! ## Dimensions -/

namespace Dimension

instance (unit : List Char) : Decidable (IsUnit unit) :=
  decidable_of_iff (unit = ['%'] ∨ unit ≠ [] ∧ unit.all Char.isAlpha) (by simp [Token.IsUnit])

/-- All units that are known can be told apart from an exponent. -/
theorem isUnit_of_mem : ∀ unit ∈ lengths ++ angles ++ others,
    IsUnit unit.toList ∧ unit.toList ≠ ['e'] ∧ unit.toList ≠ ['E'] := by
  decide

theorem mem_of_isKnown {unit : String} (h : isKnown unit) : unit ∈ lengths ++ angles ++ others := by
  simpa [isKnown, isLength, isAngle, or_assoc] using h

theorem isUnit_of_isKnown {unit : String} (h : isKnown unit) : IsUnit unit.toList :=
  (isUnit_of_mem unit (mem_of_isKnown h)).1

end Dimension

/-- A number with a known unit is never printed as a bare zero. -/
theorem withUnit_ne_zero {x : Binary64} {unit : String} (hknown : Dimension.isKnown unit) :
    withUnit x unit ≠ ['0'] := by
  intro heq
  have hunit := Dimension.isUnit_of_isKnown hknown
  obtain ⟨c, hc⟩ := List.exists_mem_of_ne_nil _ hunit.ne_nil
  have hmem : c ∈ withUnit x unit := List.mem_append_right _ hc
  rw [heq, List.mem_singleton] at hmem
  subst hmem
  exact absurd (hunit.isUnitChar _ hc) (by decide)

/-- Milliseconds are printed as a number with a unit. -/
theorem milliseconds_cases (x : Binary64) :
    ∃ y unit, milliseconds x = withUnit y unit ∧ Dimension.isKnown unit := by
  unfold milliseconds
  split
  · exact ⟨_, _, rfl, by decide⟩
  · split
    · exact ⟨_, _, rfl, by decide⟩
    · exact ⟨_, _, rfl, by decide⟩

/-- A plain dimension is printed as a number with a known unit, or loses its unit. A percent sign
stays. -/
theorem Setting.plainDimension_cases {setting : Setting} {insideMath : Bool} {x : Binary64}
    {unit : String} (hknown : Dimension.isKnown unit) :
    setting.plainDimension insideMath x unit = ['0'] ∧ unit ≠ "%" ∨
      ∃ y other, setting.plainDimension insideMath x unit = withUnit y other ∧
        Dimension.isKnown other ∧ (unit = "%" → other = "%") := by
  -- Pixels may become `rem`, and no other unit changes.
  have hconvert : Dimension.isKnown (setting.convert x unit).2 ∧
      (unit = "%" → (setting.convert x unit).2 = "%") := by
    unfold Setting.convert
    split
    · rename_i hpx
      refine ⟨show Dimension.isKnown "rem" by decide, fun hpercent => ?_⟩
      exact absurd (hpx.1.symm.trans hpercent) (by decide)
    · exact ⟨hknown, id⟩
  simp only [Setting.plainDimension]
  split
  · rename_i hzero
    refine .inl ⟨rfl, fun hpercent => ?_⟩
    rw [hconvert.2 hpercent] at hzero
    exact absurd hzero.2.1 (by decide)
  · exact .inr ⟨_, _, rfl, hconvert⟩

section Spelled

variable {setting : Setting} {insideMath : Bool} {x : Binary64} {unit : String}
  {text printed : List Char}

/-- The spelling of a dimension whose number can be read. -/
theorem Setting.dimension_of_read (h : readNumber (Token.splitDimension text).1 = .ok x) :
    setting.dimension insideMath text = setting.dimensionOf insideMath (roundDecimals x)
      (String.ofList (lowercase (Token.splitDimension text).2)) := by
  rw [dimension, h]
  rfl

/-- A dimension is printed just if its number can be read and its unit can be spelled. -/
theorem Setting.dimension_eq_ok_iff :
    setting.dimension insideMath text = .ok printed ↔
      ∃ x, readNumber (Token.splitDimension text).1 = .ok x ∧
        setting.dimensionOf insideMath (roundDecimals x)
          (String.ofList (lowercase (Token.splitDimension text).2)) = .ok printed := by
  cases hread : readNumber (Token.splitDimension text).1 with
  | error => simp [dimension, hread, bind, Except.bind]
  | ok x => simp [dimension_of_read hread]

/-- A number is printed just if it can be read, and then in its own format. -/
theorem Setting.token_number_iff {groups : List Bool} :
    setting.token groups ⟨.number, text⟩ = .ok printed ↔
      ∃ x, readNumber text = .ok x ∧ formatNumber x = printed := by
  cases hread : readNumber text <;> simp [token, hread, bind, Except.bind, pure, Except.pure]

/-- How a dimension is spelled: a zero angle in degrees, times in seconds where that is shorter, and
what is neither in the way of plain dimensions. -/
inductive Setting.SpellsDimension (setting : Setting) (insideMath : Bool) (x : Binary64)
    (unit : String) : List Char → Prop
  | degrees (hangle : Dimension.isAngle unit) (hzero : x.isZero) :
    SpellsDimension setting insideMath x unit (withUnit 0 "deg")
  | angle (hangle : Dimension.isAngle unit) (hzero : x.isZero = false) :
    SpellsDimension setting insideMath x unit (withUnit x unit)
  | milliseconds (hunit : unit = "ms") :
    SpellsDimension setting insideMath x unit (milliseconds x)
  | seconds (hunit : unit = "s") (hzero : x.isZero) :
    SpellsDimension setting insideMath x unit (withUnit 0 "s")
  | plain (hangle : Dimension.isAngle unit = false) (hms : unit ≠ "ms")
    (hs : unit = "s" → x.isZero = false) (hknown : Dimension.isKnown unit) :
    SpellsDimension setting insideMath x unit (setting.plainDimension insideMath x unit)

/-- The ways of `SpellsDimension` are all ways in which a dimension is printed. -/
theorem Setting.dimensionOf_eq_ok_iff :
    setting.dimensionOf insideMath x unit = .ok printed ↔
      setting.SpellsDimension insideMath x unit printed := by
  constructor
  · intro h
    unfold dimensionOf at h
    split at h
    · rename_i hangle
      obtain rfl := Except.ok.inj h
      cases hzero : x.isZero with
      | true => exact .degrees hangle hzero
      | false => exact .angle hangle hzero
    · rename_i hangle
      split at h
      · obtain rfl := Except.ok.inj h
        exact .milliseconds ‹_›
      · rename_i hms
        split at h
        · rename_i hs
          obtain rfl := Except.ok.inj h
          exact .seconds hs.1 hs.2
        · rename_i hs
          split at h
          · rename_i hknown
            obtain rfl := Except.ok.inj h
            exact .plain (by simpa using hangle) hms (by simpa using hs) hknown
          · contradiction
  · intro h
    cases h with
    | degrees hangle hzero => rw [dimensionOf, if_pos hangle, if_pos hzero]
    | angle hangle hzero => rw [dimensionOf, if_pos hangle, hzero, if_neg Bool.false_ne_true]
    | milliseconds hunit =>
      subst hunit
      rw [dimensionOf, if_neg (by decide), if_pos rfl]
    | seconds hunit hzero =>
      subst hunit
      rw [dimensionOf, if_neg (by decide), if_neg (by decide), if_pos ⟨rfl, hzero⟩]
    | plain hangle hms hs hknown =>
      have hnot : ¬(unit = "s" ∧ x.isZero) := fun h => by simp [hs h.1] at h
      rw [dimensionOf, hangle, if_neg Bool.false_ne_true, if_neg hms, if_neg hnot, if_pos hknown]

/-- A dimension is printed as a number and a known unit, or as a zero if its unit was a length. A
percent sign stays where it is. -/
theorem Setting.dimensionOf_cases (h : setting.dimensionOf insideMath x unit = .ok printed) :
    printed = ['0'] ∧ unit ≠ "%" ∨
      ∃ y other, printed = withUnit y other ∧ Dimension.isKnown other ∧
        (unit = "%" → other = "%") := by
  cases dimensionOf_eq_ok_iff.1 h with
  | degrees hangle _ =>
    refine .inr ⟨_, _, rfl, by decide, ?_⟩
    rintro rfl
    exact absurd hangle (by decide)
  | angle hangle _ => exact .inr ⟨_, _, rfl, by simp [Dimension.isKnown, hangle], id⟩
  | milliseconds hunit =>
    obtain ⟨y, other, hprinted, hknown⟩ := milliseconds_cases x
    exact .inr ⟨y, other, hprinted, hknown, fun heq => by simp [hunit] at heq⟩
  | seconds hunit _ => exact .inr ⟨_, _, rfl, by decide, fun heq => by simp [hunit] at heq⟩
  | plain _ _ _ hknown => exact plainDimension_cases hknown

/-- The same of a dimension as it is written. -/
theorem Setting.dimension_cases (h : setting.dimension insideMath text = .ok printed) :
    printed = ['0'] ∧ (Token.splitDimension text).2 ≠ ['%'] ∨
      ∃ x unit, printed = withUnit x unit ∧ Dimension.isKnown unit ∧
        ((Token.splitDimension text).2 = ['%'] → unit = "%") := by
  obtain ⟨x, -, hprinted⟩ := dimension_eq_ok_iff.1 h
  have hpercent : (Token.splitDimension text).2 = ['%'] →
      String.ofList (lowercase (Token.splitDimension text).2) = "%" := by
    intro hsplit
    rw [hsplit]
    rfl
  obtain ⟨hzero, hne⟩ | ⟨y, other, hprinted, hknown, hsame⟩ := dimensionOf_cases hprinted
  · exact .inl ⟨hzero, fun hsplit => hne (hpercent hsplit)⟩
  · exact .inr ⟨y, other, hprinted, hknown, fun hsplit => hsame (hpercent hsplit)⟩

end Spelled

/-! ## Strings -/

/-- Requoting turns single quotes into double ones, and goes over what is between them. -/
theorem requote_quoted (inner : List Char) :
    requote ('\'' :: inner ++ ['\'']) = '"' :: requoteInner inner ++ ['"'] := by
  simp [requote]

/-- What stood between single quotes may stand between double quotes after requoting. -/
theorem isInner_requoteInner {inner : List Char} (h : IsInner '\'' inner) :
    IsInner '"' (requoteInner inner) := by
  -- By induction on the inside: a single quote loses its backslash, and a double one gets one.
  induction h with
  | nil => exact .nil
  | @escaped c inner hc _ ih =>
    by_cases hquote : c = '\''
    · subst hquote
      exact .plain (by decide) (by decide) ih
    · rw [requoteInner]
      · exact .escaped hc ih
      · exact fun h => hquote h
  | @plain c inner _ hslash _ ih =>
    by_cases hquote : c = '"'
    · subst hquote
      exact .escaped (by decide) ih
    · rw [requoteInner]
      · exact .plain hquote hslash ih
      · exact fun _ h _ => hslash h
      · exact fun _ _ h _ => hslash h
      · exact fun h => hquote h

/-- Requoting brings in no other character than a backslash. -/
theorem forall_mem_requoteInner {p : Char → Prop} {inner : List Char} (hslash : p '\\')
    (h : ∀ c ∈ inner, p c) : ∀ c ∈ requoteInner inner, p c := by
  fun_induction requoteInner inner with
  | case5 => simp
  | _ => simp_all

/-! ## Lexemes -/

/-- What is printed in front of a lexeme, behind the token `before`. -/
def Lexeme.space (inMath : Bool) (before : Option Token) (lexeme : Lexeme) : List Char :=
  match before with
  | none => []
  | some before => separator before lexeme.token (!lexeme.gap.isEmpty) inMath

/-- A lexeme is printed first, and what comes behind it then knows the groups that it leaves open.
-/
theorem Setting.printAfter_cons (setting : Setting) (groups : List Bool) (before : Option Token)
    (lexeme : Lexeme) (rest : List Lexeme) :
    setting.printAfter groups before (lexeme :: rest) = (do
      let text ← setting.token groups lexeme.token
      let tail ← setting.printAfter (groupsAfter groups lexeme.token) (some lexeme.token) rest
      return lexeme.space (groups.headD false) before ++ text ++ tail) := by
  cases before <;> rfl

/-- At the end all groups have to be closed. -/
theorem Setting.printAfter_nil_iff {setting : Setting} {groups : List Bool} {before : Option Token}
    {text : List Char} : setting.printAfter groups before [] = .ok text ↔ groups = [] ∧ text = [] := by
  cases groups <;> simp [printAfter, eq_comm]

/-- Printing succeeds just if it does for the lexeme in front and for those behind it. -/
theorem Setting.printAfter_cons_iff {setting : Setting} {groups : List Bool} {before : Option Token}
    {lexeme : Lexeme} {rest : List Lexeme} {text : List Char} :
    setting.printAfter groups before (lexeme :: rest) = .ok text ↔
      ∃ printed tail, setting.token groups lexeme.token = .ok printed ∧
        setting.printAfter (groupsAfter groups lexeme.token) (some lexeme.token) rest = .ok tail ∧
        text = lexeme.space (groups.headD false) before ++ (printed ++ tail) := by
  rw [printAfter_cons]
  cases htoken : setting.token groups lexeme.token with
  | error => simp [bind, Except.bind]
  | ok printed =>
    cases htail : setting.printAfter (groupsAfter groups lexeme.token) (some lexeme.token) rest with
    | error => simp [bind, Except.bind]
    | ok tail => simp [bind, Except.bind, pure, Except.pure, eq_comm]

/-- The first lexeme that cannot be printed is what printing fails on. -/
theorem Setting.printAfter_cons_eq_error_iff {setting : Setting} {groups : List Bool}
    {before : Option Token} {lexeme : Lexeme} {rest : List Lexeme} {fault : Fault} :
    setting.printAfter groups before (lexeme :: rest) = .error fault ↔
      setting.token groups lexeme.token = .error fault ∨
        (∃ printed, setting.token groups lexeme.token = .ok printed) ∧
          setting.printAfter (groupsAfter groups lexeme.token) (some lexeme.token) rest =
            .error fault := by
  rw [printAfter_cons]
  cases htoken : setting.token groups lexeme.token with
  | error => simp [bind, Except.bind]
  | ok printed =>
    cases htail : setting.printAfter (groupsAfter groups lexeme.token) (some lexeme.token) rest <;>
      simp [bind, Except.bind, pure, Except.pure]

/-- There is one blank between two tokens, or none. -/
theorem separator_cases (before after : Token) (spaced inMath : Bool) :
    separator before after spaced inMath = [] ∨ separator before after spaced inMath = [' '] := by
  unfold separator
  split
  · exact .inl rfl
  · split
    · exact .inr rfl
    · split
      · exact .inl rfl
      · split
        · exact .inr rfl
        · exact .inl rfl

theorem Lexeme.space_cases (inMath : Bool) (before : Option Token) (lexeme : Lexeme) :
    lexeme.space inMath before = [] ∨ lexeme.space inMath before = [' '] := by
  cases before with
  | none => exact .inl rfl
  | some before => exact separator_cases ..

theorem Lexeme.isGap_of_mem_space {inMath : Bool} {before : Option Token} {lexeme : Lexeme} :
    ∀ c ∈ lexeme.space inMath before, Token.isGap c := by
  obtain hspace | hspace := lexeme.space_cases inMath before <;> rw [hspace] <;>
    exact List.all_eq_true.1 (by decide)

/-- Where blanks are dropped, a parenthesis, comma or slash stands on one side, or an exclamation
mark behind them. -/
theorem separator_eq_nil {before after : Token} {inMath : Bool}
    (h : separator before after true inMath = []) :
    (before.opens ∨ before.kind = .comma ∨ before.kind = .slash) ∨ after.kind = .important ∨
      (after.kind = .rightParen ∨ after.kind = .comma ∨ after.kind = .slash) := by
  unfold separator at h
  split at h
  · rename_i hkinds
    simp only [Bool.or_eq_true, beq_iff_eq] at hkinds
    tauto
  · split at h
    · simp at h
    · split at h
      · rename_i hslash
        simp only [Bool.or_eq_true, beq_iff_eq] at hslash
        tauto
      · simp at h

end AtomicCss
