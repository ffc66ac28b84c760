import AtomicCss.Proofs.Declaration.Identity
/-!
# Legible declarations

The text that a declaration is hashed by has its fields behind each other with separators in between,
and does not say what kind its context is. It tells all of a declaration that keeps its fields free
of the separators and signs its context (`canonical_injective`).
-/

namespace AtomicCss

/-- A field in front of a stop is told from what is behind it if it does not contain the stop. -/
theorem eq_of_first_stop {stop : Char} {field field' rest rest' : List Char} (h : stop ∉ field)
    (h' : stop ∉ field') (heq : field ++ stop :: rest = field' ++ stop :: rest') :
    field = field' ∧ rest = rest' := by
  induction field generalizing field' with
  | nil =>
    cases field' with
    | nil => exact ⟨rfl, (List.cons.inj heq).2⟩
    | cons c' field' =>
      have hc : stop = c' := (List.cons.inj heq).1
      exact absurd (hc ▸ List.mem_cons_self) h'
  | cons c field ih =>
    cases field' with
    | nil =>
      have hc : c = stop := (List.cons.inj heq).1
      exact absurd (hc ▸ List.mem_cons_self) h
    | cons c' field' =>
      rcases List.cons.inj heq with ⟨rfl, hbehind⟩
      rcases ih (List.not_mem_of_not_mem_cons h) (List.not_mem_of_not_mem_cons h') hbehind with
        ⟨rfl, hrest⟩
      exact ⟨rfl, hrest⟩

/-- A value has texts, and none of them contains the separator of texts. -/
structure Value.Legible (value : Value) : Prop where
  nonempty : value.texts ≠ []
  unseparated : ∀ text ∈ value.texts, '\x1e' ∉ text.toList

/-- What the text of a context begins with. -/
def Context.sign? : Context → Option Char
  | .plain => none
  | .pseudo _ => some ':'
  | .atRule _ => some '@'

/-- A pseudo selector begins with a colon and an at-rule with its sign. -/
def Context.Signed (context : Context) : Prop :=
  context.text.toList.head? = context.sign?

/-- The context of a declaration is signed, and its fields do not contain their separators. -/
structure Declaration.Legible (d : Declaration) : Prop where
  signed : d.context.Signed
  context : '\x1f' ∉ d.context.text.toList
  property : '\x1f' ∉ d.property.toList
  value : d.value.Legible

theorem Value.canonical_injective {value other : Value} (hvalue : value.Legible)
    (hother : other.Legible) (h : value.canonical = other.canonical) : value = other := by
  -- The texts come back by splitting at the separator, which none of them contains.
  have hsplit : ∀ v : Value, v.Legible →
      v.canonical.toList.splitOn '\x1e' = v.texts.map String.toList := by
    intro v hv
    have hseparator : Value.separator.toList = ['\x1e'] := rfl
    rw [canonical, String.toList_intercalate, hseparator]
    refine List.splitOn_intercalate '\x1e' ?_ ?_
    · intro text htext
      rcases List.mem_map.1 htext with ⟨t, ht, rfl⟩
      exact hv.unseparated t ht
    · intro hnil
      exact hv.nonempty (List.map_eq_nil_iff.1 hnil)
  have htexts : value.texts.map String.toList = other.texts.map String.toList := by
    rw [← hsplit value hvalue, ← hsplit other hother, h]
  cases value
  cases other
  exact congrArg Value.mk ((List.map_inj_right fun _ _ heq => String.toList_injective heq).1 htexts)

/-- The text of a signed context tells its kind. -/
theorem Context.text_injective {context other : Context} (hcontext : context.Signed)
    (hother : other.Signed) (h : context.text = other.text) : context = other := by
  have hsign : context.sign? = other.sign? := by
    rw [← hcontext, ← hother, h]
  cases context <;> cases other
  case plain.plain => rfl
  case pseudo.pseudo => exact congrArg Context.pseudo h
  case atRule.atRule => exact congrArg Context.atRule h
  -- Contexts of different kinds have different signs.
  all_goals simp [sign?] at hsign

namespace Declaration

/-- Legible declarations with one canonical text are one. -/
theorem canonical_injective {d e : Declaration} (hd : d.Legible) (he : e.Legible)
    (h : d.canonical = e.canonical) : d = e := by
  have hlist := congrArg String.toList h
  rw [toList_canonical, toList_canonical] at hlist
  rcases eq_of_first_stop hd.context he.context hlist with ⟨hcontext, hfields⟩
  rcases eq_of_first_stop hd.property he.property hfields with ⟨hproperty, hvalue⟩
  have hcontexts : d.context = e.context :=
    Context.text_injective hd.signed he.signed (String.toList_injective hcontext)
  have hproperties : d.property = e.property := String.toList_injective hproperty
  have hvalues : d.value = e.value :=
    Value.canonical_injective hd.value he.value (String.toList_injective hvalue)
  cases d
  cases e
  simp only at hcontexts hproperties hvalues
  rw [hcontexts, hproperties, hvalues]

end Declaration

end AtomicCss
