import AtomicCss.Proofs.Declaration.Legible
import AtomicCss.Proofs.Property.Naming
/-!
# Decorated keys

The key of a property in a context is the text of the context, an underscore and the style key. The
text may have underscores of its own, but the style key of a name of lower-case words has none, so
the last underscore tells the two apart (`decorate_styleKey_injective`).
-/

namespace AtomicCss

/-- A field behind a stop is told from what is in front of it if it does not contain the stop. -/
theorem eq_of_last_stop {stop : Char} {field field' front front' : List Char} (h : stop ∉ field)
    (h' : stop ∉ field') (heq : front ++ stop :: field = front' ++ stop :: field') :
    front = front' ∧ field = field' := by
  have hreverse := congrArg List.reverse heq
  simp only [List.reverse_append, List.reverse_cons, List.append_assoc, List.singleton_append]
    at hreverse
  obtain ⟨hfield, hfront⟩ := eq_of_first_stop (List.mem_reverse.not.2 h) (List.mem_reverse.not.2 h')
    hreverse
  exact ⟨List.reverse_injective hfront, List.reverse_injective hfield⟩

namespace Context

theorem decorate_cases (context : Context) (key : String) :
    context = .plain ∧ context.decorate key = key ∨
      (context.decorate key).toList = context.text.toList ++ '_' :: key.toList := by
  cases context with
  | plain => exact .inl ⟨rfl, rfl⟩
  | pseudo | atRule => exact .inr (by simp [decorate])

/-- A decorated key tells its context from a key without underscores. -/
theorem eq_of_decorate_eq {context other : Context} {key key' : String} (hcontext : context.Signed)
    (hother : other.Signed) (hkey : '_' ∉ key.toList) (hkey' : '_' ∉ key'.toList)
    (h : context.decorate key = other.decorate key') : context = other ∧ key = key' := by
  have hlist := congrArg String.toList h
  rcases decorate_cases context key with ⟨rfl, hplain⟩ | htext <;>
    rcases decorate_cases other key' with ⟨rfl, hplain'⟩ | htext'
  · exact ⟨rfl, by rw [← hplain, h, hplain']⟩
  · -- Only one of the two has an underscore.
    rw [hplain, htext'] at hlist
    exact absurd (by simp [hlist]) hkey
  · rw [htext, hplain'] at hlist
    exact absurd (by simp [← hlist]) hkey'
  · rw [htext, htext'] at hlist
    obtain ⟨hcontexts, hkeys⟩ := eq_of_last_stop hkey hkey' hlist
    exact ⟨text_injective hcontext hother (String.toList_injective hcontexts),
      String.toList_injective hkeys⟩

end Context

namespace Property

theorem underscore_notMem_of_isHyphenated {cs : List Char} (h : isHyphenated cs) : '_' ∉ cs := by
  have hlower : ∀ {c : Char}, c.isLower → '_' ≠ c := by
    rintro _ hc rfl
    contradiction
  fun_induction isHyphenated cs with
  | case1 => exact List.not_mem_nil
  | case2 c => simpa using hlower h
  | case3 c rest ih =>
    obtain ⟨hc, hrest⟩ := Bool.and_eq_true_iff.1 h
    simpa using ⟨hlower hc, ih hrest⟩
  | case4 c rest _ _ ih =>
    obtain ⟨hc, hrest⟩ := Bool.and_eq_true_iff.1 h
    simpa using ⟨hlower hc, ih hrest⟩

/-- No underscore of a key is lost in its name. -/
theorem underscore_mem_cssName {key : String} (h : '_' ∈ key.toList) :
    '_' ∈ (cssName key).toList := by
  have hrows : ∀ row ∈ aliases, '_' ∉ row.1.toList := by decide
  have halias : aliases.lookup key = none := by
    refine List.lookup_eq_none_iff.2 fun row hrow => bne_iff_ne.2 ?_
    rintro rfl
    exact hrows row hrow h
  simp only [cssName, halias]
  split
  · exact h
  · split
    · rw [String.toList_ofList]
      exact List.mem_map.2 ⟨'_', h, rfl⟩
    · rw [String.toList_ofList, hyphenateKey_eq]
      exact List.mem_append_right _ (List.mem_flatMap.2 ⟨'_', h, List.mem_singleton.2 rfl⟩)

theorem IsPlainName.underscore_notMem_styleKey {name : String} (h : IsPlainName name) :
    '_' ∉ (styleKey name).toList := by
  intro hmem
  have hname := underscore_mem_cssName hmem
  rw [cssName_styleKey h] at hname
  obtain ⟨cs, hcs, heq | heq⟩ := h.cases
  · exact underscore_notMem_of_isHyphenated hcs (heq ▸ hname)
  · rw [heq] at hname
    exact underscore_notMem_of_isHyphenated hcs (List.mem_of_ne_of_mem (by decide) hname)

end Property

open Property (IsPlainName styleKey)

/-- The decorated keys of names of lower-case words tell context and name, whatever the text of the
context is behind its sign. -/
theorem decorate_styleKey_injective {context other : Context} {name name' : String}
    (hcontext : context.Signed) (hother : other.Signed) (hname : IsPlainName name)
    (hname' : IsPlainName name')
    (h : context.decorate (styleKey name) = other.decorate (styleKey name')) :
    context = other ∧ name = name' := by
  obtain ⟨hcontexts, hkeys⟩ := Context.eq_of_decorate_eq hcontext hother
    hname.underscore_notMem_styleKey hname'.underscore_notMem_styleKey h
  refine ⟨hcontexts, ?_⟩
  rw [← Property.cssName_styleKey hname, hkeys, Property.cssName_styleKey hname']

/-- Two spellings of a context with an underscore, and of a name. -/
theorem decorate_styleKey_injective_media :
    let context := Context.ofCondition "@media (min_width: 1px)"
    let other := Context.ofCondition "@media ( min_width :1px)"
    let name := Property.cssName "marginTop"
    context.Signed ∧ other.Signed ∧ IsPlainName "margin-top" ∧ IsPlainName name ∧
      context.decorate (styleKey "margin-top") = other.decorate (styleKey name) ∧
      context = other ∧ "margin-top" = name := by
  intro context other name
  have hcontext : context.Signed := by
    rw [Context.Signed]
    decide +kernel
  have hother : other.Signed := by
    rw [Context.Signed]
    decide +kernel
  have hname : IsPlainName "margin-top" := ⟨by decide, by decide, by decide⟩
  have hname' : IsPlainName name := ⟨by decide, by decide, by decide⟩
  have hkeys : context.decorate (styleKey "margin-top") = other.decorate (styleKey name) := by
    decide +kernel
  exact ⟨hcontext, hother, hname, hname', hkeys,
    decorate_styleKey_injective hcontext hother hname hname' hkeys⟩

/-- Custom properties may have underscores, and then a key may belong to two contexts. -/
example : (Context.pseudo ":a").decorate (styleKey "--b_--c") =
    (Context.pseudo ":a_--b").decorate (styleKey "--c") := by
  decide

end AtomicCss
