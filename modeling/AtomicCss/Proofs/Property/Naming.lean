import AtomicCss.Context
import AtomicCss.Proofs.Text.Lowercase
import AtomicCss.Property.Name
/-!
# Names of properties, there and back

The CSS name of a key and the style key of a CSS name undo each other (`names_round_trip`): a dash
and a letter in lower case on one side are a capital on the other. The exceptions are the old
aliases, which have a name of their own, and the mark `ms`, which is the one mark of a vendor that
is not capitalized: `msFlex` and `MsFlex` have one CSS name, and `-ms-flex` and `ms-flex` have one
style key.
-/

namespace AtomicCss

namespace Property

/-! ## Letters -/

section Letters

variable {c : Char}

theorem toLower_toUpper_of_isLower (h : c.isLower) : c.toUpper.toLower = c := by
  rw [Char.toLower_toUpper_eq_toLower]
  exact Char.toLower_eq_of_not_isUpper (Char.not_isUpper_of_isLower h)

theorem toUpper_toLower_of_isUpper (h : c.isUpper) : c.toLower.toUpper = c := by
  rw [Char.toUpper_toLower_eq_toUpper]
  exact Char.toUpper_eq_of_not_isLower (Char.not_isLower_of_isUpper h)

theorem isUpper_toUpper_of_isLower (h : c.isLower) : c.toUpper.isUpper := by
  rw [Char.isUpper_toUpper_eq_isAlpha, Char.isAlpha, h, Bool.or_true]

/-- No other character becomes one that is no letter. -/
theorem toUpper_eq_iff {d : Char} (hd : d.isAlpha = false) : c.toUpper = d ↔ c = d := by
  have hself : ∀ {e : Char}, e.isAlpha = false → e.toUpper = e := by
    intro e he
    refine Char.toUpper_eq_of_not_isLower fun hlower => ?_
    rw [Char.isAlpha, hlower, Bool.or_true] at he
    contradiction
  constructor
  · rintro rfl
    rw [Char.isAlpha_toUpper_eq_isAlpha] at hd
    exact (hself hd).symm
  · rintro rfl
    exact hself hd

end Letters

/-! ## Dashes and capitals -/

/-- A capital becomes a dash and a small letter. -/
theorem hyphenate_cons (c : Char) (cs : List Char) :
    hyphenate (c :: cs) = (if c.isUpper then ['-', c.toLower] else [c]) ++ hyphenate cs :=
  List.flatMap_cons

/-- Without capitals nothing changes. -/
theorem hyphenate_eq_self {cs : List Char} (h : ∀ c ∈ cs, c.isUpper = false) :
    hyphenate cs = cs := by
  induction cs with
  | nil => rfl
  | cons c cs ih =>
    obtain ⟨hc, hcs⟩ := List.forall_mem_cons.1 h
    rw [hyphenate_cons, hc, ih hcs]
    rfl

/-- No capital is left. -/
theorem isUpper_of_mem_hyphenate {c : Char} {cs : List Char} (h : c ∈ hyphenate cs) :
    c.isUpper = false := by
  obtain ⟨d, -, hc⟩ := List.mem_flatMap.1 h
  split at hc
  · obtain rfl | rfl : c = '-' ∨ c = d.toLower := by simpa using hc
    · rfl
    · exact Char.isUpper_toLower_eq_false d
  · rename_i hd
    obtain rfl := List.mem_singleton.1 hc
    simpa using hd

/-- Where a dash is put in, there was a capital. -/
theorem dash_mem_hyphenate {c : Char} {cs : List Char} (hc : c ∈ cs) (hupper : c.isUpper) :
    '-' ∈ hyphenate cs :=
  List.mem_flatMap.2 ⟨c, hc, by simp [hupper]⟩

/-- A hyphenated text without dashes of its own is put together again. -/
theorem camelCase_hyphenate {cs : List Char} (h : '-' ∉ cs) :
    camelCase false (hyphenate cs) = cs := by
  induction cs with
  | nil => rfl
  | cons c cs ih =>
    obtain ⟨hc, hcs⟩ := not_or.1 (List.mem_cons.not.1 h)
    have hdash : ∀ d : Char, d = c → d ≠ '-' := fun d hd hdash => hc (hdash ▸ hd)
    rw [hyphenate_cons]
    cases hupper : c.isUpper with
    | false =>
      rw [if_neg (by simp), List.singleton_append, camelCase, if_neg (hdash c rfl), ih hcs]
      rfl
    | true =>
      have hlower : c.toLower ≠ '-' := fun heq => hdash c rfl ((toLower_eq_iff rfl).1 heq)
      -- The dash is taken back, and with it the small letter.
      change camelCase true (c.toLower :: hyphenate cs) = c :: cs
      rw [camelCase, if_neg hlower, ih hcs, if_pos rfl, toUpper_toLower_of_isUpper hupper]

/-- What begins with a dash begins with a capital otherwise. -/
theorem capital_of_hyphenate_eq {cs rest : List Char} (hcs : '-' ∉ cs)
    (h : hyphenate cs = '-' :: rest) :
    ∃ c tail, cs = c :: tail ∧ c.isUpper ∧ rest = c.toLower :: hyphenate tail := by
  cases cs with
  | nil => contradiction
  | cons c tail =>
    rw [hyphenate_cons] at h
    cases hupper : c.isUpper with
    | false =>
      rw [hupper] at h
      obtain rfl : c = '-' := (List.cons.inj h).1
      exact absurd List.mem_cons_self hcs
    | true =>
      rw [hupper] at h
      exact ⟨c, tail, rfl, hupper, (List.cons.inj h).2.symm⟩

/-- Lower-case words joined by single dashes. -/
def isHyphenated : List Char → Bool
  | [] => false
  | [c] => c.isLower
  | c :: '-' :: rest => c.isLower && isHyphenated rest
  | c :: rest => c.isLower && isHyphenated rest

theorem exists_of_isHyphenated {cs : List Char} (h : isHyphenated cs) :
    ∃ c tail, cs = c :: tail ∧ c.isLower := by
  cases cs with
  | nil => contradiction
  | cons c tail =>
    refine ⟨c, tail, rfl, ?_⟩
    unfold isHyphenated at h
    split at h <;> simp_all

theorem ne_dash_of_isLower {c : Char} (h : c.isLower) : c ≠ '-' := by
  rintro rfl
  contradiction

/-- Words in camel case are hyphenated back, one letter at a time. -/
theorem hyphenate_camelCase_cons {c : Char} (hc : c.isLower) (capital : Bool) (tail : List Char) :
    hyphenate (camelCase capital (c :: tail)) =
      (if capital then ['-'] else []) ++ c :: hyphenate (camelCase false tail) := by
  rw [camelCase, if_neg (ne_dash_of_isLower hc), hyphenate_cons]
  cases capital with
  | false => simp [Char.not_isUpper_of_isLower hc]
  | true => simp [isUpper_toUpper_of_isLower hc, toLower_toUpper_of_isLower hc]

/-- Hyphenated words that are put together are taken apart again. A capital in front is a dash. -/
theorem hyphenate_camelCase {cs : List Char} (h : isHyphenated cs) (capital : Bool) :
    hyphenate (camelCase capital cs) = (if capital then ['-'] else []) ++ cs := by
  fun_induction isHyphenated cs generalizing capital with
  | case1 => contradiction
  | case2 c => exact hyphenate_camelCase_cons h capital []
  | case3 c rest ih =>
    obtain ⟨hc, hrest⟩ := Bool.and_eq_true_iff.1 h
    have hdash : camelCase false ('-' :: rest) = camelCase true rest := by
      rw [camelCase, if_pos rfl]
    rw [hyphenate_camelCase_cons hc, hdash, ih hrest]
    rfl
  | case4 c rest _ _ ih =>
    obtain ⟨hc, hrest⟩ := Bool.and_eq_true_iff.1 h
    rw [hyphenate_camelCase_cons hc, ih hrest]
    rfl

/-! ## The mark `ms` -/

/-- Whether a key begins with the mark `ms`, its first letter in the given case, and a capital. -/
def beginsMs (m : Char) : List Char → Bool
  | c :: 's' :: d :: _ => c == m && d.isUpper
  | _ => false

/-- A key of a vendor begins with `ms` and a capital. -/
theorem beginsMs_iff {m : Char} {cs : List Char} :
    beginsMs m cs ↔ ∃ d tail, cs = m :: 's' :: d :: tail ∧ d.isUpper := by
  unfold beginsMs
  split
  · rename_i c d tail
    simp only [Bool.and_eq_true, beq_iff_eq]
    constructor
    · rintro ⟨rfl, hd⟩
      exact ⟨d, tail, rfl, hd⟩
    · rintro ⟨d', tail', hcs, hd⟩
      obtain ⟨rfl, htail⟩ := List.cons.inj hcs
      obtain ⟨rfl, -⟩ := List.cons.inj (List.cons.inj htail).2
      exact ⟨rfl, hd⟩
  · rename_i hnot
    simp only [Bool.false_eq_true, false_iff]
    rintro ⟨d, tail, hcs, -⟩
    exact hnot m d tail hcs

/-- A key is hyphenated, with a dash in front if it is one of a vendor. -/
theorem hyphenateKey_eq (cs : List Char) :
    hyphenateKey cs = (if beginsMs 'm' cs then ['-'] else []) ++ hyphenate cs := by
  unfold hyphenateKey
  split
  · rename_i c tail
    cases hc : c.isUpper <;> simp [beginsMs, hc]
  · rename_i hnot
    have hms : ¬beginsMs 'm' cs := by
      rw [beginsMs_iff]
      rintro ⟨c, tail, rfl, -⟩
      exact hnot c tail rfl
    simp [hms]

/-! ## Names of keys -/

/-- A name with a dash is no alias. -/
theorem lookup_aliases_of_dash {name : String} (h : '-' ∈ name.toList) :
    aliases.lookup name = none := by
  have hrows : ∀ row ∈ aliases, '-' ∉ row.1.toList := by decide
  refine List.lookup_eq_none_iff.2 fun row hrow => bne_iff_ne.2 ?_
  rintro rfl
  exact hrows row hrow h

theorem isCustom_eq_false {name : String} (h : ¬∃ tail, name.toList = '-' :: '-' :: tail) :
    isCustom name = false := by
  refine Bool.eq_false_iff.2 fun hcustom => h ?_
  obtain ⟨tail, htail⟩ := List.isPrefixOf_iff_prefix.1 hcustom
  exact ⟨tail, htail.symm⟩

/-- A key without dashes that is no alias. -/
theorem cssName_ofList {cs : List Char} (hdash : '-' ∉ cs)
    (halias : aliases.lookup (String.ofList cs) = none) :
    cssName (String.ofList cs) = String.ofList (hyphenateKey cs) := by
  have hcustom : isCustom (String.ofList cs) = false := by
    refine isCustom_eq_false ?_
    rintro ⟨tail, htail⟩
    rw [String.toList_ofList] at htail
    exact hdash (htail ▸ List.mem_cons_self)
  simp [cssName, hcustom, halias, hdash]

section Capitals

variable {cs : List Char}

theorem lowercase_eq_self (h : ∀ c ∈ cs, c.isUpper = false) : lowercase cs = cs := by
  rw [lowercase]
  refine (List.map_congr_left fun c hc => ?_).trans (List.map_id cs)
  exact Char.toLower_eq_of_not_isUpper (by simp [h c hc])

theorem isUpper_of_mem_lowercase {c : Char} (h : c ∈ lowercase cs) : c.isUpper = false := by
  obtain ⟨d, -, rfl⟩ := List.mem_map.1 h
  exact Char.isUpper_toLower_eq_false d

/-- A key without capitals stays as it is. -/
theorem hyphenateKey_eq_self (h : ∀ c ∈ cs, c.isUpper = false) : hyphenateKey cs = cs := by
  have hms : ¬beginsMs 'm' cs := by
    rw [beginsMs_iff]
    rintro ⟨d, tail, rfl, hd⟩
    rw [h d (by simp)] at hd
    contradiction
  rw [hyphenateKey_eq, if_neg hms, hyphenate_eq_self h]
  rfl

/-- No capital is left of a key. -/
theorem isUpper_of_mem_hyphenateKey {c : Char} (h : c ∈ hyphenateKey cs) : c.isUpper = false := by
  rw [hyphenateKey_eq] at h
  rcases List.mem_append.1 h with h | h
  · split at h
    · rw [List.mem_singleton.1 h]
      rfl
    · cases h
  · exact isUpper_of_mem_hyphenate h

end Capitals

/-- A name without capitals that is no alias is its own name. -/
theorem cssName_eq_self {name : String} (halias : aliases.lookup name = none)
    (hupper : ∀ c ∈ name.toList, c.isUpper = false) : cssName name = name := by
  simp only [cssName, halias, lowercase_eq_self hupper, hyphenateKey_eq_self hupper,
    String.ofList_toList, ite_self]

/-- A hyphenated key is no alias: without capitals it is the key itself, and a capital leaves a dash,
which no alias has. -/
theorem lookup_aliases_hyphenateKey {key : String} (halias : aliases.lookup key = none) :
    aliases.lookup (String.ofList (hyphenateKey key.toList)) = none := by
  by_cases hcapital : ∃ c ∈ key.toList, c.isUpper
  · obtain ⟨c, hc, hupper⟩ := hcapital
    refine lookup_aliases_of_dash ?_
    rw [String.toList_ofList, hyphenateKey_eq]
    exact List.mem_append_right _ (dash_mem_hyphenate hc hupper)
  · rw [hyphenateKey_eq_self (by simpa using hcapital), String.ofList_toList]
    exact halias

/-- What a CSS name is: a custom property, or neither an alias nor with capitals. -/
theorem cssName_cases (key : String) :
    isCustom (cssName key) ∨
      aliases.lookup (cssName key) = none ∧ ∀ c ∈ (cssName key).toList, c.isUpper = false := by
  have hrows : ∀ row ∈ aliases, '-' ∈ row.2.toList ∧ row.2.toList.all (!·.isUpper) := by decide
  unfold cssName
  split
  · exact .inl ‹_›
  · right
    split
    · rename_i property hlookup
      obtain ⟨before, after, hsplit, -⟩ := List.lookup_eq_some_iff.1 hlookup
      obtain ⟨hdash, hupper⟩ :=
        hrows (key, property) (hsplit ▸ List.mem_append_right before List.mem_cons_self)
      exact ⟨lookup_aliases_of_dash hdash, by simpa using hupper⟩
    · rename_i halias
      split
      · rename_i hdash
        have hmem : '-' ∈ lowercase key.toList := List.mem_map.2 ⟨'-', hdash, rfl⟩
        refine ⟨lookup_aliases_of_dash ?_, ?_⟩ <;> rw [String.toList_ofList]
        · exact hmem
        · exact fun c => isUpper_of_mem_lowercase
      · refine ⟨lookup_aliases_hyphenateKey halias, ?_⟩
        rw [String.toList_ofList]
        exact fun c => isUpper_of_mem_hyphenateKey

/-- The name of a name is the name itself. -/
theorem cssName_cssName (key : String) : cssName (cssName key) = cssName key := by
  rcases cssName_cases key with hcustom | ⟨halias, hupper⟩
  · generalize cssName key = name at hcustom
    rw [cssName, if_pos hcustom]
  · exact cssName_eq_self halias hupper

/-! ## Keys of names -/

section Keys

variable {name : String}

/-- The key of a name that begins with `-ms-`. -/
theorem styleKey_of_ms {rest : List Char} (h : name.toList = '-' :: 'm' :: 's' :: '-' :: rest) :
    styleKey name = String.ofList ('m' :: 's' :: camelCase true rest) := by
  have hcustom : isCustom name = false := by
    refine isCustom_eq_false ?_
    rintro ⟨tail, htail⟩
    simp [h] at htail
  simp [styleKey, hcustom, h, camelCase]

/-- The key of any other name that is not custom. -/
theorem styleKey_eq (hcustom : ¬∃ tail, name.toList = '-' :: '-' :: tail)
    (hms : ¬∃ tail, name.toList = '-' :: 'm' :: 's' :: '-' :: tail) :
    styleKey name = String.ofList (camelCase false name.toList) := by
  unfold styleKey
  rw [isCustom_eq_false hcustom, if_neg Bool.false_ne_true]
  split
  · rename_i rest heq
    exact absurd ⟨rest, heq⟩ hms
  · rfl

end Keys

/-- A key without dashes that is no alias and does not begin with a capitalized mark `Ms`. -/
structure IsPlainKey (key : String) : Prop where
  noDash : '-' ∉ key.toList
  notAlias : aliases.lookup key = none
  notMs : beginsMs 'M' key.toList = false

/-- A hyphenated text begins with the mark `-ms-` only if the key begins with `Ms` and a capital. -/
theorem beginsMs_of_hyphenate_eq {cs rest : List Char} (hcs : '-' ∉ cs)
    (h : hyphenate cs = '-' :: 'm' :: 's' :: '-' :: rest) : beginsMs 'M' cs := by
  -- Both dashes were put in, each in front of a capital; the letter between them was small.
  obtain ⟨c, tail, rfl, hc, hbehind⟩ := capital_of_hyphenate_eq hcs h
  obtain ⟨hm, htail⟩ := List.cons.inj hbehind
  obtain rfl : 'M' = c := by rw [← toUpper_toLower_of_isUpper hc, ← hm]; rfl
  cases tail with
  | nil => contradiction
  | cons d tail =>
    rw [hyphenate_cons] at htail
    cases hd : d.isUpper with
    | true =>
      rw [hd] at htail
      exact absurd (List.cons.inj htail).1 (by decide)
    | false =>
      rw [hd] at htail
      obtain ⟨rfl, hmore⟩ := List.cons.inj htail
      have hdash : '-' ∉ tail := fun hmem =>
        hcs (List.mem_cons_of_mem _ (List.mem_cons_of_mem _ hmem))
      obtain ⟨e, tail, rfl, he, -⟩ := capital_of_hyphenate_eq hdash hmore.symm
      exact beginsMs_iff.2 ⟨e, tail, rfl, he⟩

theorem IsPlainKey.cssName_eq {key : String} (h : IsPlainKey key) :
    cssName key = String.ofList (hyphenateKey key.toList) := by
  have heq := cssName_ofList h.noDash (by rw [String.ofList_toList]; exact h.notAlias)
  rwa [String.ofList_toList] at heq

/-- The mark `ms` of a key gets a dash in its name and loses it again. -/
theorem IsPlainKey.styleKey_cssName_of_ms {key : String} (h : IsPlainKey key)
    (hms : beginsMs 'm' key.toList) : styleKey (cssName key) = key := by
  have hback := camelCase_hyphenate h.noDash
  obtain ⟨d, tail, hkey, hd⟩ := beginsMs_iff.1 hms
  -- The name is `-ms-` and the rest, of which the dash in front is the one that was added.
  have hhyphenate : hyphenate key.toList = 'm' :: 's' :: '-' :: d.toLower :: hyphenate tail := by
    rw [hkey]
    simp [hyphenate_cons, hd]
  rw [h.cssName_eq, hyphenateKey_eq, if_pos hms]
  rw [hhyphenate] at hback ⊢
  rw [styleKey_of_ms (by rw [String.toList_ofList]; rfl)]
  have hkeep : camelCase false ('m' :: 's' :: '-' :: d.toLower :: hyphenate tail) =
      'm' :: 's' :: camelCase true (d.toLower :: hyphenate tail) := rfl
  rw [← hkeep, hback, String.ofList_toList]

/-- A plain key is found again from its name. -/
theorem styleKey_cssName {key : String} (h : IsPlainKey key) : styleKey (cssName key) = key := by
  cases hms : beginsMs 'm' key.toList with
  | true => exact h.styleKey_cssName_of_ms hms
  | false =>
    have hcustom : ¬∃ tail, hyphenate key.toList = '-' :: '-' :: tail := by
      rintro ⟨tail, htail⟩
      obtain ⟨c, rest, hkey, -, hdash⟩ := capital_of_hyphenate_eq h.noDash htail
      have hc : c = '-' := (toLower_eq_iff rfl).1 (List.cons.inj hdash).1.symm
      exact h.noDash (by rw [hkey, hc]; exact List.mem_cons_self)
    have hmark : ¬∃ tail, hyphenate key.toList = '-' :: 'm' :: 's' :: '-' :: tail := by
      rintro ⟨tail, htail⟩
      have hcapital := beginsMs_of_hyphenate_eq h.noDash htail
      rw [h.notMs] at hcapital
      contradiction
    rw [h.cssName_eq, hyphenateKey_eq, hms, if_neg Bool.false_ne_true, List.nil_append,
      styleKey_eq (by rwa [String.toList_ofList]) (by rwa [String.toList_ofList]),
      String.toList_ofList, camelCase_hyphenate h.noDash, String.ofList_toList]

/-! ## Names that come back -/

/-- No dash is left in camel case. -/
theorem dash_notMem_camelCase (capital : Bool) (cs : List Char) : '-' ∉ camelCase capital cs := by
  induction cs generalizing capital with
  | nil => exact List.not_mem_nil
  | cons c cs ih =>
    rw [camelCase]
    split
    · exact ih true
    · rename_i hc
      refine List.not_mem_cons_of_ne_of_not_mem (fun hdash => ?_) (ih false)
      split at hdash
      · exact hc ((toUpper_eq_iff rfl).1 hdash.symm)
      · exact hc hdash.symm

/-- A text without the dash in front of it. -/
def withoutDash : List Char → List Char
  | '-' :: cs => cs
  | cs => cs

/-- A CSS name of lower-case words, perhaps with a dash in front of them. It does not begin with the
mark `ms` without its dash, and its key is no alias. -/
structure IsPlainName (name : String) : Prop where
  hyphenated : isHyphenated (withoutDash name.toList)
  notMs : beginsWith "ms-" name = false
  notAlias : aliases.lookup (styleKey name) = none

section PlainNames

variable {name : String} {cs : List Char}

/-- A plain name consists of words, and may have a dash in front. -/
theorem IsPlainName.cases (h : IsPlainName name) :
    ∃ cs, isHyphenated cs ∧ (name.toList = cs ∨ name.toList = '-' :: cs) := by
  have hcs := h.hyphenated
  unfold withoutDash at hcs
  split at hcs
  · rename_i cs hname
    exact ⟨cs, hcs, .inr hname⟩
  · exact ⟨name.toList, hcs, .inl rfl⟩

theorem IsPlainName.cssName_eq (h : IsPlainName name) (hkey : styleKey name = String.ofList cs)
    (hdash : '-' ∉ cs) (hback : hyphenateKey cs = name.toList) :
    cssName (styleKey name) = name := by
  have halias := h.notAlias
  rw [hkey] at halias ⊢
  rw [cssName_ofList hdash halias, hback, String.ofList_toList]

/-- A name without a dash in front is found again from its key. -/
theorem IsPlainName.cssName_styleKey_of_words (h : IsPlainName name) (hcs : isHyphenated cs)
    (hname : name.toList = cs) : cssName (styleKey name) = name := by
  have hfront : ∀ tail, name.toList ≠ '-' :: tail := by
    rintro tail htail
    obtain ⟨c, _, rfl, hc⟩ := exists_of_isHyphenated hcs
    exact ne_dash_of_isLower hc (List.cons.inj (hname.symm.trans htail)).1
  have hkey : styleKey name = String.ofList (camelCase false cs) := by
    rw [styleKey_eq (fun ⟨_, htail⟩ => hfront _ htail) (fun ⟨_, htail⟩ => hfront _ htail), hname]
  have hback : hyphenate (camelCase false cs) = cs := hyphenate_camelCase hcs false
  have hms : ¬beginsMs 'm' (camelCase false cs) := by
    rw [beginsMs_iff]
    rintro ⟨d, tail, hcapital, hd⟩
    -- The capital of the key is a dash of the name.
    have hbegins : name.toList = 'm' :: 's' :: '-' :: d.toLower :: hyphenate tail := by
      rw [hname, ← hback, hcapital]
      simp [hyphenate_cons, hd]
    have hnot := h.notMs
    rw [beginsWith, hbegins] at hnot
    contradiction
  refine h.cssName_eq hkey (dash_notMem_camelCase _ _) ?_
  rw [hname, hyphenateKey_eq, if_neg hms, hback]
  rfl

/-- The mark `ms` keeps its small letter, and the capital behind it tells it from a word. -/
theorem IsPlainName.cssName_styleKey_of_ms {rest : List Char} (h : IsPlainName name)
    (hcs : isHyphenated ('m' :: 's' :: '-' :: rest))
    (hname : name.toList = '-' :: 'm' :: 's' :: '-' :: rest) : cssName (styleKey name) = name := by
  have hback : hyphenate (camelCase false ('m' :: 's' :: '-' :: rest)) = 'm' :: 's' :: '-' :: rest :=
    hyphenate_camelCase hcs false
  have hkey : camelCase false ('m' :: 's' :: '-' :: rest) = 'm' :: 's' :: camelCase true rest :=
    rfl
  have hbehind : hyphenate (camelCase true rest) = '-' :: rest := by
    rw [hkey] at hback
    exact (List.cons.inj (List.cons.inj hback).2).2
  have hms : beginsMs 'm' ('m' :: 's' :: camelCase true rest) := by
    obtain ⟨d, tail, hcapital, hd, -⟩ :=
      capital_of_hyphenate_eq (dash_notMem_camelCase _ _) hbehind
    exact beginsMs_iff.2 ⟨d, tail, by rw [hcapital], hd⟩
  rw [hkey] at hback
  refine h.cssName_eq (styleKey_of_ms hname) (hkey ▸ dash_notMem_camelCase _ _) ?_
  rw [hname, hyphenateKey_eq, if_pos hms, hback]
  rfl

/-- A name with a dash in front is found again from its key. -/
theorem IsPlainName.cssName_styleKey_of_dash (h : IsPlainName name) (hcs : isHyphenated cs)
    (hname : name.toList = '-' :: cs) : cssName (styleKey name) = name := by
  by_cases hmark : ∃ rest, cs = 'm' :: 's' :: '-' :: rest
  · obtain ⟨rest, rfl⟩ := hmark
    exact h.cssName_styleKey_of_ms hcs hname
  · have hback : hyphenate (camelCase true cs) = '-' :: cs := hyphenate_camelCase hcs true
    have hkey : styleKey name = String.ofList (camelCase true cs) := by
      rw [styleKey_eq, hname]
      · rfl
      · rintro ⟨tail, htail⟩
        obtain ⟨c, _, rfl, hc⟩ := exists_of_isHyphenated hcs
        have hbehind := (List.cons.inj (hname.symm.trans htail)).2
        exact ne_dash_of_isLower hc (List.cons.inj hbehind).1
      · rintro ⟨tail, htail⟩
        exact hmark ⟨tail, (List.cons.inj (hname.symm.trans htail)).2⟩
    -- The key begins with a capital, so it does not begin with the small mark.
    have hms : ¬beginsMs 'm' (camelCase true cs) := by
      rw [beginsMs_iff]
      rintro ⟨d, tail, hcapital, -⟩
      obtain ⟨c, _, heq, hc, -⟩ := capital_of_hyphenate_eq (dash_notMem_camelCase _ _) hback
      obtain rfl : 'm' = c := (List.cons.inj (hcapital.symm.trans heq)).1
      contradiction
    refine h.cssName_eq hkey (dash_notMem_camelCase _ _) ?_
    rw [hname, hyphenateKey_eq, if_neg hms, hback]
    rfl

/-- A plain name is found again from its key. -/
theorem cssName_styleKey (h : IsPlainName name) : cssName (styleKey name) = name := by
  obtain ⟨cs, hcs, hname | hname⟩ := h.cases
  · exact h.cssName_styleKey_of_words hcs hname
  · exact h.cssName_styleKey_of_dash hcs hname

end PlainNames

end Property

/-- In one context, keys are told apart. -/
theorem Context.decorate_injective (context : Context) : Function.Injective context.decorate := by
  intro key other h
  cases context with
  | plain => exact h
  | pseudo | atRule => exact (String.append_right_inj _).1 h

namespace Property

/-- Names of names change nothing. A key that is no alias is the key of its name, unless it begins
with a capitalized mark `Ms`, and a name of lower-case words is the name of its key, unless it
begins with a bare mark `ms` or its key is an alias. So two names of the second kind have different
keys in every context. -/
theorem names_round_trip :
    (∀ key, cssName (cssName key) = cssName key) ∧
      (∀ key, IsPlainKey key → styleKey (cssName key) = key) ∧
      (∀ name, IsPlainName name → cssName (styleKey name) = name) ∧
      ∀ name other, IsPlainName name → IsPlainName other → name ≠ other →
        styleKey name ≠ styleKey other ∧
          ∀ context : Context,
            context.decorate (styleKey name) ≠ context.decorate (styleKey other) := by
  refine ⟨cssName_cssName, fun key => styleKey_cssName, fun name => cssName_styleKey, ?_⟩
  intro name other hname hother hne
  have hkeys : styleKey name ≠ styleKey other := fun heq =>
    hne (by rw [← cssName_styleKey hname, heq, cssName_styleKey hother])
  exact ⟨hkeys, fun context heq => hkeys (context.decorate_injective heq)⟩

/-- The mark `ms` on both sides, and a name that only has it inside. -/
theorem names_round_trip_flex :
    IsPlainKey "msFlexAlign" ∧ IsPlainName "-ms-flex-align" ∧ IsPlainName "flex-ms-align" ∧
      styleKey (cssName "msFlexAlign") = "msFlexAlign" ∧
      cssName (styleKey "-ms-flex-align") = "-ms-flex-align" ∧
      styleKey "-ms-flex-align" ≠ styleKey "flex-ms-align" ∧
      (Context.pseudo ":hover").decorate (styleKey "-ms-flex-align") ≠
        (Context.pseudo ":hover").decorate (styleKey "flex-ms-align") := by
  obtain ⟨-, hkeys, hnames, happart⟩ := names_round_trip
  have hkey : IsPlainKey "msFlexAlign" := ⟨by decide, by decide, by decide⟩
  have hname : IsPlainName "-ms-flex-align" := ⟨by decide, by decide, by decide⟩
  have hother : IsPlainName "flex-ms-align" := ⟨by decide, by decide, by decide⟩
  obtain ⟨hdiffer, hcontext⟩ := happart _ _ hname hother (by decide)
  exact ⟨hkey, hname, hother, hkeys _ hkey, hnames _ hname, hdiffer, hcontext _⟩

/-- A capitalized mark is lost. -/
example : styleKey (cssName "MsFlex") = "msFlex" := by
  decide

end Property

end AtomicCss
