import AtomicCss.Proofs.Store.Emissions
/-!
# What a store accepts of a run of emissions

A run of emissions ends at the first that is refused (`exists_refused`). Those in front of it are
`accepted`, and they are what the run adds to the store (`extends_insertAll`). A store answers an
emission with what it then has under the name, and it grows if the name is new to it
(`size_of_emit`).
-/

namespace AtomicCss

namespace Store

/-- A store holds what another one holds, and some emissions under their names, and nothing else. -/
def Extends (after before : Store) (made : List Emission) : Prop :=
  ∀ name held, after.emissions.get? name = some held ↔
    before.emissions.get? name = some held ∨ held ∈ made ∧ held.atomic.name = name

/-- The emissions of a run in front of the first that is refused. -/
def accepted (store : Store) : List Emission → List Emission
  | [] => []
  | emission :: rest =>
    match store.insert emission with
    | .ok after => emission :: after.accepted rest
    | .error _ => []

section Accepted

variable {store : Store} {emissions : List Emission}

/-- The accepted emissions leave the store of the whole run, and none of them is refused. -/
theorem insertAll_accepted (store : Store) (emissions : List Emission) :
    store.insertAll (store.accepted emissions) = ((store.insertAll emissions).1, .ok ()) := by
  induction emissions generalizing store with
  | nil => rfl
  | cons emission rest ih =>
    rw [accepted, insertAll]
    cases hinsert : store.insert emission with
    | error error => rfl
    | ok after =>
      simp only [insertAll, hinsert]
      exact ih after

/-- A run of emissions adds to a store what is accepted of it. -/
theorem extends_insertAll (store : Store) (emissions : List Emission) :
    (store.insertAll emissions).1.Extends store (store.accepted emissions) := by
  have hrun := insertAll_accepted store emissions
  intro name held
  rw [← insertAll_get?_iff (congrArg Prod.snd hrun), congrArg Prod.fst hrun]

theorem mem_of_mem_accepted {emission : Emission} (h : emission ∈ store.accepted emissions) :
    emission ∈ emissions := by
  induction emissions generalizing store with
  | nil => cases h
  | cons head rest ih =>
    rw [accepted] at h
    cases hinsert : store.insert head with
    | error error =>
      rw [hinsert] at h
      cases h
    | ok after =>
      rw [hinsert] at h
      rcases List.mem_cons.1 h with rfl | hrest
      · exact List.mem_cons_self
      · exact List.mem_cons_of_mem head (ih hrest)

/-- A run that fails ends at an emission that the store refuses when all those in front of it have
been made. -/
theorem exists_refused {error : IntegrityError}
    (h : (store.insertAll emissions).2 = .error error) :
    ∃ refused rest, emissions = store.accepted emissions ++ refused :: rest ∧
      (store.insertAll emissions).1.insert refused = .error error := by
  induction emissions generalizing store with
  | nil => cases h
  | cons emission rest ih =>
    rw [insertAll] at h ⊢
    rw [accepted]
    cases hinsert : store.insert emission with
    | error found =>
      rw [hinsert] at h
      have herror : Except.error found = (.error error : Except IntegrityError Unit) := h
      cases herror
      -- Nothing has been accepted in front of the first emission.
      exact ⟨emission, rest, rfl, hinsert⟩
    | ok after =>
      rw [hinsert] at h
      rcases ih h with ⟨refused, behind, hsplit, hrefused⟩
      exact ⟨refused, behind, congrArg (emission :: ·) hsplit, hrefused⟩

end Accepted

/-! ## The answer to an emission -/

theorem emit_eq_error_iff {store : Store} {emission : Emission} {error : IntegrityError} :
    store.emit emission = .error error ↔ store.insert emission = .error error := by
  rw [emit_eq_insert]
  cases store.insert emission with
  | error found => simp [Except.map]
  | ok after => simp [Except.map]

/-- An emission is refused for what its name stands for already. -/
theorem insert_eq_error_iff {store : Store} {emission : Emission} {error : IntegrityError} :
    store.insert emission = .error error ↔
      ∃ held, store.emissions.get? emission.atomic.name = some held ∧
        conflict? held emission = some error := by
  rw [insert, emit]
  cases hget : store.emissions.get? emission.atomic.name with
  | none => simp [Except.map]
  | some held =>
    cases hconflict : conflict? held emission with
    | none => simp [Except.map, hconflict]
    | some found => simp [Except.map, hconflict]

/-- What is refused has a name that stands for something else. -/
theorem exists_held_of_insert {store : Store} {emission : Emission} {error : IntegrityError}
    (h : store.insert emission = .error error) :
    ∃ held, store.emissions.get? emission.atomic.name = some held ∧ held ≠ emission := by
  rcases insert_eq_error_iff.1 h with ⟨held, hget, hconflict⟩
  refine ⟨held, hget, ?_⟩
  intro heq
  rw [conflict?_eq_none_iff.2 heq] at hconflict
  cases hconflict

theorem insert_of_emit {store after : Store} {emission : Emission} {atomic : AtomicClass}
    (h : store.emit emission = .ok (after, atomic)) : store.insert emission = .ok after := by
  rw [insert, h]
  rfl

/-- The store answers with what it then has under the name. -/
theorem get?_of_emit {store after : Store} {emission : Emission} {atomic : AtomicClass}
    (h : store.emit emission = .ok (after, atomic)) :
    after.get? emission.atomic.name = some atomic := by
  have hheld : after.Holds emission := holds_of_insert (insert_of_emit h)
  rw [Holds] at hheld
  rw [get?, hheld, emit_atomic h]
  rfl

/-- A store grows by one entry just if the name of the emission is new to it. -/
theorem size_of_emit {store after : Store} {emission : Emission} {atomic : AtomicClass}
    (h : store.emit emission = .ok (after, atomic)) :
    after.size = store.size + if (store.get? emission.atomic.name).isSome then 0 else 1 := by
  rw [get?, Option.isSome_map]
  rw [emit] at h
  split at h
  · cases h
    exact KeyMap.size_insert store.emissions emission.atomic.name emission
  · rename_i stored hstored
    split at h
    · cases h
    · cases h
      rw [hstored]
      rfl

end Store

end AtomicCss
