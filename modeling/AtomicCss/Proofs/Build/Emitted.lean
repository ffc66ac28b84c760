import AtomicCss.Origin
import AtomicCss.Proofs.Build.Order
import AtomicCss.Proofs.Compile.Authored
import AtomicCss.Proofs.Store.Accepted
import Mathlib.Data.List.Induction
/-!
# What a build has emitted

A step of a build emits declarations and blocks of keyframes, and the store accepts them or not. The
store of a build holds just what has been accepted in the course of it, under its names
(`get?_run_iff`). `store_records_emissions` states this together with what a further step can do.
-/

namespace AtomicCss

/-- A job fails just if the store refuses one of its emissions. -/
theorem Job.run_eq_error_iff {job : Job} {store : Store} {error : IntegrityError} :
    (job.run store).2 = .error error ↔ (store.insertAll job.emissions).2 = .error error := by
  rw [run, compile_eq_plan, emissions]
  rcases store.insertAll (job.sheet.emissions job.options) with ⟨after, found | ⟨⟩⟩
  · simp
  · simp

theorem Store.holds_emission_iff {store : Store} {origin : Origin} {mark : String} :
    store.Holds (origin.emission mark) ↔
      store.emissions.get? (origin.name mark) = some (origin.emission mark) := by
  rw [Holds, Origin.emission_name]

/-- The step of a build that emits an origin behind a mark. -/
def Origin.step (origin : Origin) (mark : String) : Build.Step :=
  match origin with
  | declaration d => .emit d mark
  | keyframes block => .keyframes block mark

namespace Build

namespace Step

/-- A step makes an origin behind a mark. What a compilation makes is declared or defined by the
assignments of its sheet. -/
inductive Makes : Step → Origin → String → Prop where
  | emit (d : Declaration) (mark : String) : Makes (.emit d mark) (.declaration d) mark
  | keyframes (block : Keyframes.Block) (mark : String) :
      Makes (.keyframes block mark) (.keyframes block) mark
  | declared {job : Job} {item : Context × Assignment} (hitem : item ∈ job.sheet.assignments)
      {d : Declaration} (hd : item.2.Declares job.options item.1 d) :
      Makes (.compile job) (.declaration d) job.options.classPrefix
  | defined {job : Job} {item : Context × Assignment} (hitem : item ∈ job.sheet.assignments)
      {block : Keyframes.Block} (hblock : item.2.Defines job.options block) :
      Makes (.compile job) (.keyframes block) job.options.classPrefix

/-- What a step emits, in order, if nothing is refused. -/
def emissions : Step → List Emission
  | compile job => job.emissions
  | emit d mark => [d.emission mark]
  | keyframes block mark => [block.emission mark]

theorem run_eq (store : Store) (step : Step) :
    step.run store = (store.insertAll step.emissions).1 := by
  cases step with
  | compile job => exact compile_store store job.options job.file job.sheet
  | emit d mark => rfl
  | keyframes block mark => rfl

theorem mem_emissions_iff {step : Step} {emission : Emission} :
    emission ∈ step.emissions ↔
      ∃ origin mark, step.Makes origin mark ∧ emission = origin.emission mark := by
  constructor
  · intro h
    cases step with
    | compile job =>
      rcases Sheet.mem_emissions_iff.1 h with ⟨item, hitem, ⟨block, hblock, rfl⟩ | ⟨d, hd, rfl⟩⟩
      · exact ⟨.keyframes block, _, .defined hitem hblock, rfl⟩
      · exact ⟨.declaration d, _, .declared hitem hd, rfl⟩
    | emit d mark => exact ⟨.declaration d, mark, .emit d mark, List.mem_singleton.1 h⟩
    | keyframes block mark =>
      exact ⟨.keyframes block, mark, .keyframes block mark, List.mem_singleton.1 h⟩
  · rintro ⟨origin, mark, hemits, rfl⟩
    cases hemits with
    | emit => exact List.mem_singleton_self _
    | keyframes => exact List.mem_singleton_self _
    | declared hitem hd => exact Sheet.mem_emissions_iff.2 ⟨_, hitem, .inr ⟨_, hd, rfl⟩⟩
    | defined hitem hblock => exact Sheet.mem_emissions_iff.2 ⟨_, hitem, .inl ⟨_, hblock, rfl⟩⟩

end Step

/-! ## Runs -/

/-- In a run of steps, one of them makes an origin behind a mark, and the store accepts it. -/
def Emits (steps : List Step) (origin : Origin) (mark : String) : Prop :=
  ∃ before step after, steps = before ++ step :: after ∧ step.Makes origin mark ∧
    origin.emission mark ∈ (run before).accepted step.emissions

theorem run_append (before after : List Step) :
    run (before ++ after) = after.foldl Step.run (run before) := by
  rw [run, List.foldl_append]
  rfl

theorem run_concat (steps : List Step) (step : Step) :
    run (steps ++ [step]) = ((run steps).insertAll step.emissions).1 := by
  rw [run_append, List.foldl_cons, List.foldl_nil, Step.run_eq]

/-- A step extends the store by what is accepted of it. -/
theorem extends_run_concat (steps : List Step) (step : Step) :
    (run (steps ++ [step])).Extends (run steps) ((run steps).accepted step.emissions) := by
  rw [run_concat]
  exact Store.extends_insertAll (run steps) step.emissions

/-- What a run has emitted was emitted by its last step, or by those in front of it. -/
theorem emits_concat {steps : List Step} {step : Step} {origin : Origin} {mark : String} :
    Emits (steps ++ [step]) origin mark ↔
      Emits steps origin mark ∨
        step.Makes origin mark ∧ origin.emission mark ∈ (run steps).accepted step.emissions := by
  constructor
  · rintro ⟨before, made, after, hsteps, hmade, haccepted⟩
    -- The step that has made it is the last one, or the last one is among those behind it.
    rcases List.eq_nil_or_concat after with rfl | ⟨between, last, rfl⟩
    · rcases List.append_inj' hsteps rfl with ⟨rfl, hlast⟩
      cases hlast
      exact .inr ⟨hmade, haccepted⟩
    · rw [List.concat_eq_append, ← List.cons_append, ← List.append_assoc] at hsteps
      rcases List.append_inj' hsteps rfl with ⟨rfl, -⟩
      exact .inl ⟨before, made, between, rfl, hmade, haccepted⟩
  · rintro (⟨before, made, after, rfl, hmade, haccepted⟩ | ⟨hmade, haccepted⟩)
    · exact ⟨before, made, after ++ [step], by simp, hmade, haccepted⟩
    · exact ⟨steps, step, [], rfl, hmade, haccepted⟩

/-- The store of a run holds what has been emitted in the course of it, under its names. -/
theorem get?_run_iff {steps : List Step} {name : String} {held : Emission} :
    (run steps).emissions.get? name = some held ↔
      ∃ origin mark, Emits steps origin mark ∧ origin.emission mark = held ∧
        origin.name mark = name := by
  -- By induction on the run from its end, as each step adds to the store that it finds.
  induction steps using List.reverseRecOn with
  | nil =>
    constructor
    · intro h
      cases h
    · rintro ⟨origin, mark, ⟨before, step, after, hsteps, -⟩, -⟩
      simp at hsteps
  | append_singleton steps step ih =>
    rw [extends_run_concat steps step name held, ih]
    constructor
    · rintro (⟨origin, mark, hemits, hheld, hname⟩ | ⟨haccepted, hname⟩)
      · exact ⟨origin, mark, emits_concat.2 (.inl hemits), hheld, hname⟩
      · -- The last step has made it.
        rcases Step.mem_emissions_iff.1 (Store.mem_of_mem_accepted haccepted) with
          ⟨origin, mark, hmade, rfl⟩
        rw [Origin.emission_name] at hname
        exact ⟨origin, mark, emits_concat.2 (.inr ⟨hmade, haccepted⟩), rfl, hname⟩
    · rintro ⟨origin, mark, hemits, rfl, rfl⟩
      rcases emits_concat.1 hemits with hbefore | ⟨-, haccepted⟩
      · exact .inl ⟨origin, mark, hbefore, rfl, rfl⟩
      · exact .inr ⟨haccepted, origin.emission_name mark⟩

/-- Under a name a store of a run has the class of something that has been emitted. -/
theorem store_get?_run_iff {steps : List Step} {name : String} {stored : AtomicClass} :
    (run steps).get? name = some stored ↔
      ∃ origin mark, Emits steps origin mark ∧ origin.toAtomic mark = stored ∧
        stored.name = name := by
  rw [Store.get?, Option.map_eq_some_iff]
  constructor
  · rintro ⟨held, hheld, rfl⟩
    rcases get?_run_iff.1 hheld with ⟨origin, mark, hemits, rfl, hname⟩
    rw [Origin.emission_atomic]
    exact ⟨origin, mark, hemits, rfl, hname⟩
  · rintro ⟨origin, mark, hemits, rfl, hname⟩
    exact ⟨origin.emission mark, get?_run_iff.2 ⟨origin, mark, hemits, rfl, hname⟩,
      Origin.emission_atomic origin mark⟩

end Build

/-! ## What a build keeps -/

/-- Whatever steps follow, a name stands for what it stood for. -/
theorem Store.get?_foldl_of_eq_some {store : Store} {name : String} {held : Emission}
    (h : store.emissions.get? name = some held) (steps : List Build.Step) :
    (steps.foldl Build.Step.run store).emissions.get? name = some held := by
  induction steps generalizing store with
  | nil => exact h
  | cons step rest ih =>
    refine ih ?_
    rw [Build.Step.run_eq]
    exact get?_insertAll_of_eq_some h step.emissions

namespace Origin

theorem emissions_step (origin : Origin) (mark : String) :
    (origin.step mark).emissions = [origin.emission mark] := by
  cases origin with
  | declaration d => rfl
  | keyframes block => rfl

/-- A step that emits one origin leaves the store that the emission leaves, or the same store. -/
theorem run_concat_step (steps : List Build.Step) (origin : Origin) (mark : String) :
    Build.run (steps ++ [origin.step mark]) =
      match (Build.run steps).emit (origin.emission mark) with
      | .ok (after, _) => after
      | .error _ => Build.run steps := by
  rw [Build.run_concat, emissions_step, Store.insertAll, Store.emit_eq_insert]
  cases (Build.run steps).insert (origin.emission mark) with
  | error error => rfl
  | ok after => rfl

end Origin

/-- After any run of steps on an empty store, under a name is the class of a declaration or a block
that was emitted behind some mark and accepted, and all that was accepted is there. What was there
in the course of the run is there still. An emission is refused only if its name stands for
something else, and leaves the store as it is. One that is not refused answers with what is then
under the name, and adds an entry just if there was none. A compilation that fails adds what its
sheet makes in front of the emission that is refused. -/
theorem store_records_emissions (steps : List Build.Step) :
    (∀ name stored, (Build.run steps).get? name = some stored ↔
      ∃ origin mark, Build.Emits steps origin mark ∧ origin.toAtomic mark = stored ∧
        stored.name = name) ∧
    (∀ before after, steps = before ++ after → ∀ name held,
      (Build.run before).emissions.get? name = some held →
        (Build.run steps).emissions.get? name = some held) ∧
    (∀ (origin : Origin) mark error,
      (Build.run steps).emit (origin.emission mark) = .error error →
        Build.run (steps ++ [origin.step mark]) = Build.run steps ∧
        ∃ held, (Build.run steps).emissions.get? (origin.name mark) = some held ∧
          held ≠ origin.emission mark) ∧
    (∀ (origin : Origin) mark after atomic,
      (Build.run steps).emit (origin.emission mark) = .ok (after, atomic) →
        Build.run (steps ++ [origin.step mark]) = after ∧
        after.get? (origin.name mark) = some atomic ∧
        after.size = (Build.run steps).size +
          if ((Build.run steps).get? (origin.name mark)).isSome then 0 else 1) ∧
    ∀ job error, (job.run (Build.run steps)).2 = .error error →
      ∃ made refused rest, job.emissions = made ++ refused :: rest ∧
        (Build.run (steps ++ [.compile job])).Extends (Build.run steps) made ∧
        (Build.run (steps ++ [.compile job])).insert refused = .error error := by
  refine ⟨?_, ?_, ?_, ?_, ?_⟩
  · exact fun name stored => Build.store_get?_run_iff
  · rintro before after rfl name held h
    rw [Build.run_append]
    exact Store.get?_foldl_of_eq_some h after
  · intro origin mark error h
    rw [← origin.emission_name]
    refine ⟨by rw [origin.run_concat_step, h], ?_⟩
    exact Store.exists_held_of_insert (Store.emit_eq_error_iff.1 h)
  · intro origin mark after atomic h
    rw [← origin.emission_name]
    refine ⟨?_, Store.get?_of_emit h, Store.size_of_emit h⟩
    rw [origin.run_concat_step, h]
  · intro job error h
    rcases Store.exists_refused (Job.run_eq_error_iff.1 h) with ⟨refused, rest, hsplit, hrefused⟩
    refine ⟨_, refused, rest, hsplit, Build.extends_run_concat steps (.compile job), ?_⟩
    rw [Build.run_concat]
    exact hrefused

/-- A declaration whose selector is empty has the canonical text of a plain one. -/
def unselected : Declaration :=
  ⟨"margin", ⟨["2px"]⟩, .pseudo ""⟩

def fadeIn : Keyframes.Block :=
  ⟨[⟨⟨0, []⟩, [("opacity", ⟨["0"]⟩)]⟩]⟩

/-- Two names with different marks. A plain margin is refused, a color is not, and a sheet of both is
compiled up to the margin. -/
theorem store_records_emissions_margin :
    let steps : List Build.Step := [.emit unselected "x", .keyframes fadeIn "y"]
    let margin : Origin := .declaration ⟨"margin", ⟨["2px"]⟩, .plain⟩
    let color : Origin := .declaration ⟨"color", ⟨["red"]⟩, .plain⟩
    let job : Job := ⟨{}, none, ⟨[⟨"card", [.single ⟨"color", .value (.single (.text "red"))⟩,
      .single ⟨"margin", .value (.single (.text "2px"))⟩]⟩]⟩⟩
    (Build.run steps).get? "yvq816t-B" = some (fadeIn.toAtomic "y") ∧
      (Build.run steps).emissions.get? "x1l9grw1" = some (unselected.emission "x") ∧
      Build.run (steps ++ [margin.step "x"]) = Build.run steps ∧
      (Build.run (steps ++ [color.step "x"])).size = 3 ∧
      ∃ made refused rest, job.emissions = made ++ refused :: rest ∧
        (Build.run (steps ++ [.compile job])).Extends (Build.run steps) made ∧
        ((Build.run (steps ++ [.compile job])).insert refused).isOk = false := by
  intro steps margin color job
  rcases store_records_emissions steps with ⟨hentries, hkept, hrefused, haccepted, hcompile⟩
  have hfade : Build.Emits steps (.keyframes fadeIn) "y" :=
    ⟨[.emit unselected "x"], _, [], rfl, .keyframes fadeIn "y", by decide +kernel⟩
  have hmargin : ((Build.run steps).emit (margin.emission "x")).isOk = false := by decide +kernel
  have hcolor : ((Build.run steps).emit (color.emission "x")).isOk = true := by decide +kernel
  have hjob : (job.run (Build.run steps)).2.isOk = false := by decide +kernel
  refine ⟨?_, ?_, ?_, ?_, ?_⟩
  · exact (hentries _ _).2 ⟨_, _, hfade, rfl, by decide +kernel⟩
  · exact hkept [.emit unselected "x"] [.keyframes fadeIn "y"] rfl _ _ (by decide +kernel)
  · cases hemit : (Build.run steps).emit (margin.emission "x") with
    | error error => exact (hrefused margin "x" error hemit).1
    | ok answer =>
      rw [hemit] at hmargin
      cases hmargin
  · cases hemit : (Build.run steps).emit (color.emission "x") with
    | error error =>
      rw [hemit] at hcolor
      cases hcolor
    | ok answer =>
      rcases haccepted color "x" answer.1 answer.2 hemit with ⟨hrun, -, hsize⟩
      rw [hrun, hsize]
      decide +kernel
  · cases hresult : (job.run (Build.run steps)).2 with
    | error error =>
      rcases hcompile job error hresult with ⟨made, refused, rest, hsplit, hextends, hinsert⟩
      exact ⟨made, refused, rest, hsplit, hextends, by rw [hinsert]; rfl⟩
    | ok compiled =>
      rw [hresult] at hjob
      cases hjob

end AtomicCss
