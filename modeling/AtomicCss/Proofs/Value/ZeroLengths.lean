import AtomicCss.Proofs.Value.Groups
import AtomicCss.Proofs.Value.Respelled
/-!
# Zero lengths

A length that is zero is printed as a bare `0`, unless the property keeps the units of zeros or some
group that is open around it is a math group, the innermost or one further outside
(`zero_length_is_bare_iff`).
-/

namespace AtomicCss

/-! ## The spelling of a zero length -/

section Spelling

variable {setting : Setting} {insideMath : Bool} {x y : Binary64} {unit other : String}

theorem isZero_roundDecimals_of_isZero (h : x.isZero) : (roundDecimals x).isZero := by
  cases x with
  | finite negative units hunits =>
    obtain rfl : units = 0 := beq_iff_eq.1 h
    rw [roundDecimals_zero]
    exact h
  | infinite => contradiction
  | nan => contradiction

theorem withUnit_of_isZero (h : x.isZero) : withUnit x unit = '0' :: unit.toList := by
  rw [withUnit, formatNumber_of_isZero (isZero_roundDecimals_of_isZero h)]
  rfl

/-- A length is no angle and no time. -/
theorem Dimension.of_isLength (h : isLength unit) :
    isAngle unit = false ∧ unit ≠ "ms" ∧ unit ≠ "s" ∧ isKnown unit := by
  have hall : ∀ unit ∈ lengths, isAngle unit = false ∧ unit ≠ "ms" ∧ unit ≠ "s" := by
    decide
  obtain ⟨hangle, hms, hs⟩ := hall unit (List.contains_iff_mem.1 h)
  exact ⟨hangle, hms, hs, by rw [isKnown, h, Bool.true_or, Bool.true_or]⟩

/-- Only pixels are turned into another unit, and they are a length themselves. -/
theorem Setting.isLength_of_convert (hconvert : setting.convert x unit = (y, other))
    (hlength : Dimension.isLength other) : Dimension.isLength unit := by
  unfold convert at hconvert
  split at hconvert
  · rename_i hpx
    rw [hpx.1]
    decide
  · obtain ⟨-, rfl⟩ := Prod.mk.inj hconvert
    exact hlength

theorem Setting.dimensionOf_zero_length (hconvert : setting.convert x unit = (y, other))
    (hlength : Dimension.isLength other) (hzero : y.isZero) :
    setting.dimensionOf insideMath x unit =
      .ok (if insideMath || Property.keepsZeroUnits setting.property then '0' :: other.toList
        else ['0']) := by
  obtain ⟨hangle, hms, hs, hknown⟩ := Dimension.of_isLength (isLength_of_convert hconvert hlength)
  have hplain : setting.dimensionOf insideMath x unit =
      .ok (setting.plainDimension insideMath x unit) := by
    simp [dimensionOf, hangle, hms, hs, hknown]
  rw [hplain, plainDimension, hconvert]
  cases insideMath <;> cases hkeeps : Property.keepsZeroUnits setting.property <;>
    simp [hzero, hlength, withUnit_of_isZero]

end Spelling

/-! ## The groups around a token -/

section Groups

variable {setting : Setting} {groups : List Bool} {before : Option Token} {lexeme : Lexeme}
  {lexemes pieces : List Lexeme} {i : Nat}

/-- What is printed for the lexeme at a position: its spelling inside the groups that are open behind the
lexemes in front of it. -/
theorem Setting.getElem?_printedAfter (hprint : setting.printedAfter groups before lexemes = .ok pieces)
    (hat : lexemes[i]? = some lexeme) :
    ∃ piece, pieces[i]? = some piece ∧
      setting.token (((lexemes.map (·.token)).take i).foldl groupsAfter groups) lexeme.token =
        .ok piece.token.text := by
  -- The groups around a lexeme are those behind the one in front of it.
  induction lexemes generalizing groups before pieces i with
  | nil => contradiction
  | cons first rest ih =>
    obtain ⟨text, tail, htoken, htail, rfl⟩ := printedAfter_cons_iff.1 hprint
    cases i with
    | zero =>
      obtain rfl := Option.some.inj hat
      rw [List.take_zero, List.foldl_nil]
      exact ⟨_, rfl, htoken⟩
    | succ i =>
      rw [List.getElem?_cons_succ] at hat
      obtain ⟨piece, hpiece, hspelled⟩ := ih htail hat
      rw [List.map_cons, List.take_succ_cons, List.foldl_cons]
      exact ⟨piece, hpiece, hspelled⟩

end Groups

/-- In a text that is printed, a length that is zero is printed as a bare `0` if and only if the property
does not keep the units of zeros and no group that is open there is a math group. Otherwise it is printed
as `0` and the unit, with the unit that pixels of a font size are turned into. -/
theorem zero_length_is_bare_iff {setting : Setting} {source text : List Char} {lexemes : List Lexeme}
    {i : Nat} {lexeme : Lexeme} {x y : Binary64} {unit : String}
    (hlex : Token.lex source = .ok lexemes) (hprint : setting.printText source = .ok text)
    (hat : lexemes[i]? = some lexeme) (hkind : lexeme.token.kind = .dimension)
    (hread : readNumber (Token.splitDimension lexeme.token.text).1 = .ok x)
    (hconvert : setting.convert (roundDecimals x)
      (String.ofList (lowercase (Token.splitDimension lexeme.token.text).2)) = (y, unit))
    (hlength : Dimension.isLength unit) (hzero : y.isZero) :
    ∃ pieces piece, setting.printedAfter [] none lexemes = .ok pieces ∧ text = Lexeme.spell pieces ∧
      pieces[i]? = some piece ∧
      (piece.token.text = ['0'] ↔ Property.keepsZeroUnits setting.property = false ∧
        ∀ group, group <:+ openers ((lexemes.map (·.token)).take i) → isMathGroup group = false) ∧
      (piece.token.text ≠ ['0'] → piece.token.text = '0' :: unit.toList) := by
  obtain ⟨others, hothers, htext⟩ := Setting.printText_eq_ok_iff.1 hprint
  obtain rfl := (Token.lex_eq_ok_iff.1 hlex).unique hothers
  obtain ⟨pieces, hpieces, rfl⟩ := Setting.printAfter_eq_ok_iff.1 htext
  obtain ⟨piece, hpiece, htoken⟩ := Setting.getElem?_printedAfter hpieces hat
  refine ⟨pieces, piece, hpieces, rfl, hpiece, ?_⟩
  rw [foldl_groupsAfter] at htoken
  generalize openers ((lexemes.map (·.token)).take i) = around at htoken ⊢
  have hspelled : setting.token (flags around) lexeme.token =
      setting.dimensionOf ((flags around).any id) (roundDecimals x)
        (String.ofList (lowercase (Token.splitDimension lexeme.token.text).2)) := by
    rw [Setting.token, hkind]
    exact Setting.dimension_of_read hread
  rw [hspelled, Setting.dimensionOf_zero_length hconvert hlength hzero] at htoken
  have hunit : unit.toList ≠ [] :=
    (Dimension.isUnit_of_isKnown (Dimension.of_isLength hlength).2.2.2).ne_nil
  have hmath : (flags around).any id = false ↔
      ∀ group, group <:+ around → isMathGroup group = false := by
    rw [← Bool.not_eq_true, any_flags]
    simp
  rw [← Except.ok.inj htoken, ← hmath]
  cases (flags around).any id <;> cases Property.keepsZeroUnits setting.property <;> simp [hunit]

/-- The variable is inside of the call of `min`, though its own parentheses are no math group. -/
theorem zero_length_is_bare_iff_min :
    let setting : Setting := ⟨"font-size", { fontSizeInRem := true }⟩
    let source := "(.00001px) min(1em, var(--a, (-0PX)))".toList
    let text := "(0) min(1em,var(--a,(0rem)))".toList
    setting.printText source = .ok text ∧
      ∃ lexemes pieces, Token.lex source = .ok lexemes ∧
        setting.printedAfter [] none lexemes = .ok pieces ∧ text = Lexeme.spell pieces ∧
        (∃ piece, pieces[1]? = some piece ∧ piece.token.text = ['0']) ∧
        ∃ piece, pieces[10]? = some piece ∧ piece.token.text = "0rem".toList := by
  intro setting source text
  let lexemes := (Token.lex source).toOption.getD []
  have hlex : Token.lex source = .ok lexemes := by decide +kernel
  have hprint : setting.printText source = .ok text := by decide +kernel
  have hfirst : lexemes[1]? = some ⟨[], ⟨.dimension, ".00001px".toList⟩⟩ := by decide +kernel
  have hsecond : lexemes[10]? = some ⟨[], ⟨.dimension, "-0PX".toList⟩⟩ := by decide +kernel
  -- A value of so few units is rounded to zero, and so is a negative zero.
  obtain ⟨x, hx, hzero⟩ : ∃ x, readNumber (Token.splitDimension ".00001px".toList).1 = .ok x ∧
      (setting.convert (roundDecimals x) "px").1.isZero :=
    ⟨(readNumber ".00001".toList).toOption.getD 0, by decide +kernel, by decide +kernel⟩
  obtain ⟨y, hy, hzero'⟩ : ∃ y, readNumber (Token.splitDimension "-0PX".toList).1 = .ok y ∧
      (setting.convert (roundDecimals y) "px").1.isZero :=
    ⟨(readNumber "-0".toList).toOption.getD 0, by decide +kernel, by decide +kernel⟩
  obtain ⟨pieces, piece, hpieces, htext, hpiece, hbare, -⟩ :=
    zero_length_is_bare_iff hlex hprint hfirst rfl hx rfl (by decide) hzero
  obtain ⟨others, piece', hothers, -, hpiece', hbare', hunit⟩ :=
    zero_length_is_bare_iff hlex hprint hsecond rfl hy rfl (by decide) hzero'
  obtain rfl := Except.ok.inj (hpieces.symm.trans hothers)
  refine ⟨hprint, lexemes, pieces, hlex, hpieces, htext, ⟨piece, hpiece, hbare.2 ⟨by decide, ?_⟩⟩,
    piece', hpiece', hunit fun hzero => ?_⟩
  · have houtside : ∀ group ∈ (openers ((lexemes.map (·.token)).take 1)).tails,
        isMathGroup group = false := by
      decide +kernel
    intro group hgroup
    exact houtside group (List.mem_tails _ _ |>.2 hgroup)
  · have hinside : [⟨.function, "min(".toList⟩] <:+ openers ((lexemes.map (·.token)).take 10) := by
      decide +kernel
    exact absurd ((hbare'.1 hzero).2 _ hinside) (by decide)

end AtomicCss
