import AtomicCss.Store
/-!
# What emissions do to a store

A name of the store stands for one emission for good: an emission is accepted if its name is new or
stands for the same emission already (`insert_eq_ok_iff`), and then the store holds it. So emissions
are accepted one after the other just if each of them is compatible with the store and no two of
them differ under one name (`insertAll_eq_ok_iff`), and the order in which they come is no matter.
-/

namespace AtomicCss

/-- No two emissions of one name differ. -/
def Consistent (emissions : List Emission) : Prop :=
  ∀ a ∈ emissions, ∀ b ∈ emissions, a.atomic.name = b.atomic.name → a = b

/-- Consistent emissions may be made in any order. -/
theorem Consistent.perm {first second : List Emission} (h : Consistent first)
    (hperm : first.Perm second) : Consistent second := by
  intro a ha b hb
  exact h a (hperm.mem_iff.2 ha) b (hperm.mem_iff.2 hb)

namespace Store

/-- A store holds an emission under its name. -/
def Holds (store : Store) (emission : Emission) : Prop :=
  store.emissions.get? emission.atomic.name = some emission

/-- The name of an emission is new to a store, or stands for the emission. -/
def Accepts (store : Store) (emission : Emission) : Prop :=
  ∀ stored, store.emissions.get? emission.atomic.name = some stored → stored = emission

theorem accepts_empty (emission : Emission) : (∅ : Store).Accepts emission := by
  intro stored h
  cases h

/-! ## One emission -/

/-- An emission agrees with nothing but itself. -/
theorem conflict?_eq_none_iff {stored incoming : Emission} :
    conflict? stored incoming = none ↔ stored = incoming := by
  rcases stored with ⟨source, atomic⟩
  rcases incoming with ⟨source', atomic'⟩
  rw [conflict?]
  simp only [Emission.mk.injEq]
  by_cases hsource : source = source'
  · by_cases hatomic : atomic = atomic'
    · simp [hsource, hatomic]
    · simp [hsource, hatomic]
  · simp [hsource]

/-- The store answers with the class of the emission, whether it was there before or not. -/
theorem emit_atomic {store after : Store} {emission : Emission} {atomic : AtomicClass}
    (h : store.emit emission = .ok (after, atomic)) : atomic = emission.atomic := by
  rw [emit] at h
  split at h
  · cases h
    rfl
  · split at h
    · cases h
    · rename_i hnone
      cases h
      rw [conflict?_eq_none_iff.1 hnone]

/-- Emitting inserts, and gives the class back. -/
theorem emit_eq_insert (store : Store) (emission : Emission) :
    store.emit emission = (store.insert emission).map (·, emission.atomic) := by
  rw [insert]
  cases h : store.emit emission with
  | error error => rfl
  | ok answer =>
    rcases answer with ⟨after, atomic⟩
    rw [emit_atomic h]
    rfl

/-- What an accepted emission leaves: itself under its name, and all else as it was. -/
theorem get?_of_insert {store after : Store} {emission : Emission}
    (h : store.insert emission = .ok after) (name : String) :
    after.emissions.get? name =
      if emission.atomic.name = name then some emission else store.emissions.get? name := by
  rw [insert, emit] at h
  split at h
  · cases h
    exact KeyMap.get?_insert store.emissions emission.atomic.name emission name
  · rename_i stored hstored
    split at h
    · cases h
    · rename_i hnone
      cases h
      -- Without a conflict the emission is what the store has under its name already.
      rw [conflict?_eq_none_iff.1 hnone] at hstored
      split
      · rename_i heq
        rw [← heq, hstored]
      · rfl

/-- The store takes what it accepts. -/
theorem insert_eq_ok_iff {store : Store} {emission : Emission} :
    (∃ after, store.insert emission = .ok after) ↔ store.Accepts emission := by
  rw [insert, emit]
  constructor
  · rintro ⟨after, h⟩ stored hstored
    simp only [hstored] at h
    split at h
    · cases h
    · rename_i hnone
      exact conflict?_eq_none_iff.1 hnone
  · intro h
    split
    · exact ⟨_, rfl⟩
    · rename_i stored hstored
      rw [conflict?_eq_none_iff.2 (h stored hstored)]
      exact ⟨_, rfl⟩

/-- The store holds what it has taken. -/
theorem holds_of_insert {store after : Store} {emission : Emission}
    (h : store.insert emission = .ok after) : after.Holds emission := by
  rw [Holds, get?_of_insert h, if_pos rfl]

/-- What a name stands for it stands for after an accepted emission. -/
theorem get?_insert_of_eq_some {store after : Store} {emission held : Emission} {name : String}
    (hheld : store.emissions.get? name = some held) (h : store.insert emission = .ok after) :
    after.emissions.get? name = some held := by
  rw [get?_of_insert h]
  split
  · rename_i heq
    have haccepts : store.Accepts emission := insert_eq_ok_iff.1 ⟨after, h⟩
    rw [haccepts held (heq ▸ hheld)]
  · exact hheld

/-- After an emission, the store accepts what it did before and what agrees with the emission. -/
theorem accepts_of_insert {store after : Store} {emission other : Emission}
    (h : store.insert emission = .ok after) :
    after.Accepts other ↔
      store.Accepts other ∧ (emission.atomic.name = other.atomic.name → emission = other) := by
  have haccepts : store.Accepts emission := insert_eq_ok_iff.1 ⟨after, h⟩
  rw [Accepts, get?_of_insert h]
  by_cases heq : emission.atomic.name = other.atomic.name
  · -- The name of the other one is taken now.
    rw [if_pos heq]
    constructor
    · intro hother
      have hsame : emission = other := hother emission rfl
      exact ⟨hsame ▸ haccepts, fun _ => hsame⟩
    · rintro ⟨-, hsame⟩ stored hstored
      rw [← Option.some.inj hstored]
      exact hsame heq
  · -- The name of the other one is left as it was.
    rw [if_neg heq]
    constructor
    · intro hother
      exact ⟨hother, fun h => absurd h heq⟩
    · rintro ⟨hother, -⟩
      exact hother

/-! ## A run of emissions -/

/-- Two lists of emissions are made one after the other, unless the first one fails. -/
theorem insertAll_append (store : Store) (first second : List Emission) :
    store.insertAll (first ++ second) =
      match store.insertAll first with
      | (after, .ok ()) => after.insertAll second
      | (after, .error error) => (after, .error error) := by
  induction first generalizing store with
  | nil => rfl
  | cons emission rest ih =>
    rw [List.cons_append, insertAll, insertAll]
    cases store.insert emission with
    | error error => rfl
    | ok after => exact ih after

/-- Emissions are consistent if the first one agrees with the others, and these are consistent. -/
theorem consistent_cons_iff {emission : Emission} {rest : List Emission} :
    Consistent (emission :: rest) ↔
      (∀ other ∈ rest, emission.atomic.name = other.atomic.name → emission = other) ∧
        Consistent rest := by
  constructor
  · intro h
    refine ⟨fun other hother => ?_, fun a ha b hb => ?_⟩
    · exact h _ List.mem_cons_self _ (List.mem_cons_of_mem _ hother)
    · exact h a (List.mem_cons_of_mem _ ha) b (List.mem_cons_of_mem _ hb)
  · -- Either of two emissions of one name may be the first of the list.
    rintro ⟨hfirst, hrest⟩ a ha b hb hname
    rcases List.mem_cons.1 ha with haeq | ha <;> rcases List.mem_cons.1 hb with hbeq | hb
    · rw [haeq, hbeq]
    · rw [haeq] at hname ⊢
      exact hfirst b hb hname
    · rw [hbeq] at hname ⊢
      exact (hfirst a ha hname.symm).symm
    · exact hrest a ha b hb hname

/-- Emissions are all accepted just if the store accepts each and no two of them differ under one
name. -/
theorem insertAll_eq_ok_iff {store : Store} {emissions : List Emission} :
    (store.insertAll emissions).2 = .ok () ↔
      (∀ emission ∈ emissions, store.Accepts emission) ∧ Consistent emissions := by
  -- By induction for all stores: the rest is judged by the store with the first emission in it.
  induction emissions generalizing store with
  | nil => simp [insertAll, Consistent]
  | cons emission rest ih =>
    rw [insertAll]
    cases h : store.insert emission with
    | error error =>
      constructor
      · intro hok
        cases hok
      · rintro ⟨haccepts, -⟩
        rcases insert_eq_ok_iff.2 (haccepts emission List.mem_cons_self) with ⟨after, hafter⟩
        rw [h] at hafter
        cases hafter
    | ok after =>
      have haccepts : store.Accepts emission := insert_eq_ok_iff.1 ⟨after, h⟩
      rw [ih, consistent_cons_iff, List.forall_mem_cons]
      simp only [accepts_of_insert h]
      constructor
      · rintro ⟨hrest, hconsistent⟩
        exact ⟨⟨haccepts, fun other hother => (hrest other hother).1⟩,
          fun other hother => (hrest other hother).2, hconsistent⟩
      · rintro ⟨⟨-, hrest⟩, hfirst, hconsistent⟩
        exact ⟨fun other hother => ⟨hrest other hother, hfirst other hother⟩, hconsistent⟩

/-- Whatever becomes of a run of emissions, a name stands for what it stood for. -/
theorem get?_insertAll_of_eq_some {store : Store} {held : Emission} {name : String}
    (h : store.emissions.get? name = some held) (emissions : List Emission) :
    (store.insertAll emissions).1.emissions.get? name = some held := by
  induction emissions generalizing store with
  | nil => exact h
  | cons emission rest ih =>
    rw [insertAll]
    cases hinsert : store.insert emission with
    | error error => exact h
    | ok after => exact ih (get?_insert_of_eq_some h hinsert)

/-- Whatever becomes of a run of emissions, what the store held it still holds. -/
theorem Holds.insertAll {store : Store} {held : Emission} (h : store.Holds held)
    (emissions : List Emission) : (store.insertAll emissions).1.Holds held :=
  get?_insertAll_of_eq_some h emissions

/-- After a run of accepted emissions the store holds each of them. -/
theorem holds_of_insertAll {store : Store} {emissions : List Emission}
    (h : (store.insertAll emissions).2 = .ok ()) {emission : Emission}
    (hmem : emission ∈ emissions) : (store.insertAll emissions).1.Holds emission := by
  induction emissions generalizing store with
  | nil => cases hmem
  | cons head rest ih =>
    rw [insertAll] at h ⊢
    cases hinsert : store.insert head with
    | error error =>
      rw [hinsert] at h
      cases h
    | ok after =>
      rw [hinsert] at h
      rcases List.mem_cons.1 hmem with rfl | hmem
      · exact (holds_of_insert hinsert).insertAll rest
      · exact ih h hmem

/-- A run of emissions adds nothing but some of these. -/
theorem get?_of_insertAll {store : Store} {emissions : List Emission} {name : String}
    {held : Emission} (h : (store.insertAll emissions).1.emissions.get? name = some held) :
    store.emissions.get? name = some held ∨ held ∈ emissions ∧ held.atomic.name = name := by
  induction emissions generalizing store with
  | nil => exact .inl h
  | cons emission rest ih =>
    rw [insertAll] at h
    cases hinsert : store.insert emission with
    | error error =>
      rw [hinsert] at h
      exact .inl h
    | ok after =>
      rw [hinsert] at h
      rcases ih h with hafter | ⟨hmem, hname⟩
      · -- What the rest of the run has found is the first emission, or was there before.
        rw [get?_of_insert hinsert] at hafter
        split at hafter
        · rename_i heq
          cases hafter
          exact .inr ⟨List.mem_cons_self, heq⟩
        · exact .inl hafter
      · exact .inr ⟨List.mem_cons_of_mem _ hmem, hname⟩

/-- After a run of accepted emissions the store holds these and what it held before. -/
theorem insertAll_get?_iff {store : Store} {emissions : List Emission}
    (h : (store.insertAll emissions).2 = .ok ()) {name : String} {held : Emission} :
    (store.insertAll emissions).1.emissions.get? name = some held ↔
      store.emissions.get? name = some held ∨ held ∈ emissions ∧ held.atomic.name = name := by
  constructor
  · exact get?_of_insertAll
  · rintro (hbefore | ⟨hmem, rfl⟩)
    · exact get?_insertAll_of_eq_some hbefore emissions
    · exact holds_of_insertAll h hmem

/-- The same emissions in another order are accepted as well, and leave the same store. -/
theorem insertAll_perm {store : Store} {first second : List Emission} (hperm : first.Perm second)
    (h : (store.insertAll first).2 = .ok ()) :
    (store.insertAll second).2 = .ok () ∧
      (store.insertAll second).1 = (store.insertAll first).1 := by
  rcases insertAll_eq_ok_iff.1 h with ⟨haccepts, hconsistent⟩
  have hsecond : (store.insertAll second).2 = .ok () :=
    insertAll_eq_ok_iff.2
      ⟨fun emission hmem => haccepts emission (hperm.mem_iff.2 hmem), hconsistent.perm hperm⟩
  refine ⟨hsecond, ?_⟩
  have hmaps : (store.insertAll second).1.emissions = (store.insertAll first).1.emissions := by
    refine KeyMap.ext_get? fun name => Option.ext fun held => ?_
    rw [insertAll_get?_iff hsecond, insertAll_get?_iff h, hperm.mem_iff]
  cases hs : (store.insertAll second).1
  cases hf : (store.insertAll first).1
  simpa [hs, hf] using hmaps

/-! ## Rules -/

/-- The rules of a store are those of the emissions that it holds. -/
theorem mem_rules_iff {store : Store} {rule : Rule} :
    rule ∈ store.rules ↔
      ∃ name held, store.emissions.get? name = some held ∧ held.atomic.rule = rule := by
  rw [rules, List.mem_map]
  constructor
  · rintro ⟨held, hheld, hrule⟩
    obtain ⟨name, hname⟩ := KeyMap.mem_values_iff.1 hheld
    exact ⟨name, held, hname, hrule⟩
  · rintro ⟨name, held, hname, hrule⟩
    exact ⟨held, KeyMap.mem_values_iff.2 ⟨name, hname⟩, hrule⟩

theorem Holds.mem_rules {store : Store} {held : Emission} (h : store.Holds held) :
    held.atomic.rule ∈ store.rules :=
  mem_rules_iff.2 ⟨held.atomic.name, held, h, rfl⟩

/-- After a run of accepted emissions the store has their rules and those it had before. -/
theorem mem_rules_insertAll_iff {store : Store} {emissions : List Emission}
    (h : (store.insertAll emissions).2 = .ok ()) {rule : Rule} :
    rule ∈ (store.insertAll emissions).1.rules ↔
      rule ∈ store.rules ∨ rule ∈ emissions.map (·.atomic.rule) := by
  rw [mem_rules_iff, mem_rules_iff, List.mem_map]
  constructor
  · rintro ⟨name, held, hheld, hrule⟩
    rcases (insertAll_get?_iff h).1 hheld with hbefore | ⟨hmem, -⟩
    · exact .inl ⟨name, held, hbefore, hrule⟩
    · exact .inr ⟨held, hmem, hrule⟩
  · rintro (⟨name, held, hbefore, hrule⟩ | ⟨held, hmem, hrule⟩)
    · exact ⟨name, held, (insertAll_get?_iff h).2 (.inl hbefore), hrule⟩
    · exact ⟨held.atomic.name, held, (insertAll_get?_iff h).2 (.inr ⟨hmem, rfl⟩), hrule⟩

end Store

end AtomicCss
