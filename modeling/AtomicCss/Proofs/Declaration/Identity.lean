import AtomicCss.Declaration
/-!
# What an emission tells of its declaration

The text that a declaration is hashed by is ambiguous if a context or a property contains the
separator, but together with the rule it is not: the rule closes the same fields with other
characters, and its priority tells kinds of contexts apart. So declarations with one emission are in
one context and set one property (`emission_injective`). In one context, rules with one text style
one class (`className_eq_of_ruleText`).
-/

namespace AtomicCss

/-- A field in front of a separator is the same in two texts if it is also in front of another
separator in two texts. -/
theorem eq_of_separators {field field' a a' b b' : List Char} {x y : Char} (hne : x ≠ y)
    (ha : field ++ x :: a = field' ++ x :: a') (hb : field ++ y :: b = field' ++ y :: b') :
    field = field' := by
  induction field generalizing field' with
  | nil =>
    cases field' with
    | nil => rfl
    | cons c rest' =>
      rw [List.nil_append, List.cons_append] at ha hb
      -- The shorter field would end at `x` in one pair and at `y` in the other.
      have hx : x = c := (List.cons.inj ha).1
      have hy : y = c := (List.cons.inj hb).1
      exact absurd (hx.trans hy.symm) hne
  | cons c rest ih =>
    cases field' with
    | nil =>
      rw [List.nil_append, List.cons_append] at ha hb
      have hx : c = x := (List.cons.inj ha).1
      have hy : c = y := (List.cons.inj hb).1
      exact absurd (hx.symm.trans hy) hne
    | cons c' rest' =>
      rw [List.cons_append, List.cons_append] at ha hb
      rcases List.cons.inj ha with ⟨hc, ha⟩
      rcases List.cons.inj hb with ⟨-, hb⟩
      rw [hc, ih ha hb]

/-- Two texts without a stop differ if they come in front of the same text and then differ in front
of the stop. -/
theorem eq_of_before_stop {stop : Char} {first second field a a' : List Char}
    (hfirst : stop ∉ first) (hsecond : stop ∉ second)
    (h : first ++ (field ++ stop :: a) = second ++ (field ++ stop :: a')) : first = second := by
  -- Up to the first stop both texts end with the same part of the field.
  have hcut := congrArg (List.takeWhile (· ≠ stop)) h
  have htake : ∀ text rest : List Char, stop ∉ text →
      (text ++ rest).takeWhile (· ≠ stop) = text ++ rest.takeWhile (· ≠ stop) := by
    intro text rest hstop
    refine List.takeWhile_append_of_pos fun c hc => ?_
    have hne : c ≠ stop := fun heq => hstop (heq ▸ hc)
    simpa using hne
  have hfield : ∀ rest : List Char, (field ++ stop :: rest).takeWhile (· ≠ stop) =
      field.takeWhile (· ≠ stop) := by
    intro rest
    clear hcut h
    induction field with
    | nil => simp
    | cons c field ih =>
      rw [List.cons_append, List.takeWhile_cons, List.takeWhile_cons, ih]
  rw [htake first _ hfirst, htake second _ hsecond, hfield, hfield] at hcut
  exact List.append_cancel_right hcut

/-! ## Names of classes -/

namespace ClassName

theorem digitChar_ne_brace : ∀ d < 36, digitChar d ≠ '\x7b' := by
  decide

/-- No brace comes up in a name. -/
theorem brace_notMem_base36Onto {n : Nat} {rest : List Char} (h : '\x7b' ∉ rest) :
    '\x7b' ∉ base36Onto n rest := by
  induction n, rest using base36Onto.induct with
  | case1 n rest hlt =>
    rw [base36Onto, if_pos hlt, List.mem_cons, not_or]
    exact ⟨(digitChar_ne_brace n hlt).symm, h⟩
  | case2 n rest hge ih =>
    rw [base36Onto, if_neg hge]
    refine ih ?_
    rw [List.mem_cons, not_or]
    exact ⟨(digitChar_ne_brace (n % 36) (Nat.mod_lt n (by decide))).symm, h⟩

/-- A name is its prefix and the checksum of the text in base 36. -/
theorem toList_ofText (mark text : String) :
    (ofText mark text).toList = mark.toList ++ base36 (checksum text).toNat := by
  rw [ofText, String.toList_append, String.toList_ofList]

end ClassName

/-! ## Rules -/

/-- The declarations of a value begin with the property and a colon, unless the value is empty. -/
theorem Value.declarations_cases (value : Value) (property : String) :
    (value.texts = [] ∧ value.declarations property = "") ∨
      ∃ rest, value.declarations property = property ++ (":" ++ rest) := by
  rw [declarations]
  rcases value.texts with _ | ⟨text, _ | ⟨second, rest⟩⟩
  · exact .inl ⟨rfl, by simp⟩
  · exact .inr ⟨text, by simp [String.append_assoc]⟩
  · right
    rw [List.map_cons, String.intercalate_cons_of_ne_nil (by simp), String.append_assoc,
      String.append_assoc, String.append_assoc]
    exact ⟨_, rfl⟩

namespace Declaration

/-- What stands in front of the block of a rule. -/
def opening (context : Context) (name : String) : String :=
  match context with
  | .plain => "." ++ name
  | .pseudo selector => "." ++ name ++ selector
  | .atRule condition => condition ++ ("\x7b" ++ ("." ++ name))

/-- What stands behind the body of a rule. -/
def closing : Context → String
  | .atRule _ => "\x7d\x7d"
  | _ => "\x7d"

/-- A rule has its opening, the body, and what closes it. -/
theorem ruleText_eq (d : Declaration) (name : String) :
    d.ruleText name = opening d.context name ++ ("\x7b" ++ (d.body ++ closing d.context)) := by
  rw [ruleText]
  cases d.context <;> simp [opening, closing, braced, String.append_assoc]

/-- The context, the property and the value, with a separator between them. -/
theorem toList_canonical (d : Declaration) :
    d.canonical.toList =
      d.context.text.toList ++
        '\x1f' :: (d.property.toList ++ '\x1f' :: d.value.canonical.toList) := by
  simp [canonical, fieldSeparator]

/-- In one context rules with one text style one class: its name ends at the first brace behind the
mark, but for the selector in between, which is the same in both rules. -/
theorem className_eq_of_ruleText {d e : Declaration} {mark : String}
    (hcontext : d.context = e.context)
    (htext : d.ruleText (d.className mark) = e.ruleText (e.className mark)) :
    d.className mark = e.className mark := by
  have hdigits : ∀ n, '\x7b' ∉ ClassName.base36 n := fun n =>
    ClassName.brace_notMem_base36Onto (by simp)
  rw [ruleText_eq, ruleText_eq, hcontext] at htext
  have hlist := congrArg String.toList htext
  -- The digits of a name have no brace, so the first brace ends the name.
  have hnames : ∀ (field a a' : List Char),
      (d.className mark).toList ++ (field ++ '\x7b' :: a) =
        (e.className mark).toList ++ (field ++ '\x7b' :: a') →
      d.className mark = e.className mark := by
    intro field a a' h
    rw [className, className, ClassName.toList_ofText, ClassName.toList_ofText, List.append_assoc,
      List.append_assoc] at h
    have heq := eq_of_before_stop (hdigits _) (hdigits _) (List.append_cancel_left h)
    rw [className, className, ClassName.ofText, ClassName.ofText, heq]
  cases hcase : e.context with
  | plain =>
    simp only [hcase, opening, String.toList_append] at hlist
    exact hnames [] _ _ (by simpa using hlist)
  | pseudo selector =>
    simp only [hcase, opening, String.toList_append] at hlist
    exact hnames selector.toList _ _ (by simpa using hlist)
  | atRule condition =>
    simp only [hcase, opening, String.toList_append] at hlist
    exact hnames [] _ _ (by simpa using hlist)

end Declaration

namespace Priority

/-- The thousands of a priority tell the kind of the context. -/
def kind : Context → Nat
  | .plain => 1
  | .pseudo _ => 2
  | .atRule _ => 3

/-- Contexts of one kind are of one form. -/
theorem cases_of_kind_eq {first second : Context} (h : kind first = kind second) :
    first = .plain ∧ second = .plain ∨
      (∃ selector selector', first = .pseudo selector ∧ second = .pseudo selector') ∨
      ∃ condition condition', first = .atRule condition ∧ second = .atRule condition' := by
  cases first <;> cases second <;> simp_all [kind]

theorem ofProperty_lt (property : String) : ofProperty property < 10 := by
  rw [ofProperty, levels]
  split <;> omega

/-- The thousands of a priority tell the kind of the context. -/
theorem classify_div (property : String) (context : Context) :
    classify property context / 1000 = kind context := by
  have hproperty := ofProperty_lt property
  rw [classify]
  -- What is added to the thousands stays below one thousand.
  cases context with
  | plain =>
    rw [ofContext, kind]
    omega
  | pseudo selector =>
    have hrank : Pseudo.rank selector ≤ 7 := by
      rw [Pseudo.rank]
      split
      · rename_i h
        have hlt := List.idxOf_lt_length_of_mem h
        have hlength : Pseudo.precedence.length = 7 := rfl
        omega
      · omega
    rw [ofContext, kind]
    omega
  | atRule condition =>
    have hrank : atRuleRank condition ≤ 2 := by
      rw [atRuleRank]
      split
      · omega
      · split <;> omega
    rw [ofContext, kind]
    omega

end Priority

namespace Declaration

/-- Declarations emit the same if their texts, names, rules and priorities are the same. -/
theorem emission_eq_iff {d e : Declaration} {mark : String} :
    d.emission mark = e.emission mark ↔
      d.canonical = e.canonical ∧ d.className mark = e.className mark ∧
        d.ruleText (d.className mark) = e.ruleText (e.className mark) ∧
          d.priority = e.priority := by
  simp [emission, toAtomic]

/-- Declarations that emit the same have the same context. -/
theorem context_eq_of_emission {d e : Declaration} {mark : String}
    (h : d.emission mark = e.emission mark) : d.context = e.context := by
  rcases emission_eq_iff.1 h with ⟨hsource, hname, htext, hpriority⟩
  have hkind : Priority.kind d.context = Priority.kind e.context := by
    rw [← Priority.classify_div d.property, ← Priority.classify_div e.property]
    exact congrArg (· / 1000) hpriority
  have hcanonical := congrArg String.toList hsource
  rw [toList_canonical, toList_canonical] at hcanonical
  rw [ruleText_eq, ruleText_eq, hname] at htext
  have hlist := congrArg String.toList htext
  rcases Priority.cases_of_kind_eq hkind with
    ⟨hd, he⟩ | ⟨selector, selector', hd, he⟩ | ⟨condition, condition', hd, he⟩
  · rw [hd, he]
  · -- The selector comes in front of the separator of fields, and in front of the block.
    simp only [hd, he, opening, Context.text, String.toList_append] at hcanonical hlist
    have hrules : selector.toList ++ '\x7b' :: (d.body.toList ++ ['\x7d']) =
        selector'.toList ++ '\x7b' :: (e.body.toList ++ ['\x7d']) := by
      simpa [closing] using hlist
    have hselector : selector.toList = selector'.toList :=
      eq_of_separators (by decide) hcanonical hrules
    rw [hd, he, String.toList_injective hselector]
  · -- The condition comes in front of the separator of fields, and in front of what it guards.
    simp only [hd, he, opening, Context.text, String.toList_append] at hcanonical hlist
    have hrules : condition.toList ++
        '\x7b' :: '.' :: ((e.className mark).toList ++
          '\x7b' :: (d.body.toList ++ ['\x7d', '\x7d'])) =
        condition'.toList ++
          '\x7b' :: '.' :: ((e.className mark).toList ++
            '\x7b' :: (e.body.toList ++ ['\x7d', '\x7d'])) := by
      simpa [closing] using hlist
    have hcondition : condition.toList = condition'.toList :=
      eq_of_separators (by decide) hcanonical hrules
    rw [hd, he, String.toList_injective hcondition]

/-- Declarations with one emission are in one context and set one property. -/
theorem emission_injective {d e : Declaration} {mark : String}
    (h : d.emission mark = e.emission mark) : d.context = e.context ∧ d.property = e.property := by
  have hcontext := context_eq_of_emission h
  refine ⟨hcontext, ?_⟩
  rcases emission_eq_iff.1 h with ⟨hsource, hname, htext, -⟩
  -- The rules have the same name and opening, so their bodies agree.
  have hbody : d.body = e.body := by
    rw [ruleText_eq, ruleText_eq, hname, hcontext] at htext
    have hlist := congrArg String.toList htext
    simp only [String.toList_append, List.append_cancel_left_eq, List.append_cancel_right_eq]
      at hlist
    exact String.toList_injective hlist
  have hfields := congrArg String.toList hsource
  rw [toList_canonical, toList_canonical, hcontext] at hfields
  simp only [List.append_cancel_left_eq, List.cons.injEq, true_and] at hfields
  rw [body, body] at hbody
  have hproperty : d.property.toList = e.property.toList := by
    rcases d.value.declarations_cases d.property with ⟨hd, hdbody⟩ | ⟨rest, hdbody⟩ <;>
      rcases e.value.declarations_cases e.property with ⟨he, hebody⟩ | ⟨rest', hebody⟩
    · -- Both values are empty, and nothing is behind the properties.
      simpa [Value.canonical, hd, he] using hfields
    · rw [hdbody, hebody] at hbody
      exact absurd (congrArg String.toList hbody) (by simp)
    · rw [hdbody, hebody] at hbody
      exact absurd (congrArg String.toList hbody) (by simp)
    · rw [hdbody, hebody] at hbody
      have hlist := congrArg String.toList hbody
      have hbodies : d.property.toList ++ ':' :: rest.toList =
          e.property.toList ++ ':' :: rest'.toList := by
        simpa using hlist
      exact eq_of_separators (by decide) hfields hbodies
  exact String.toList_injective hproperty

end Declaration

end AtomicCss
