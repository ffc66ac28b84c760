import AtomicCss.Proofs.Build.Emitted
import AtomicCss.Proofs.Cascade.Contest
import AtomicCss.Proofs.Compile.Meaning
/-!
# What a build holds

A build never loses an emission, whatever its steps are (`Holds.foldl`). So for each class of an
object that it has compiled it holds the emission of a declaration, and the object mentions all that
the property of the declaration covers (`Compiles.exists_declaration`).
-/

namespace AtomicCss

/-- Steps keep what the store holds, also if they fail. -/
theorem Store.Holds.foldl {store : Store} {held : Emission} (h : store.Holds held)
    (steps : List Build.Step) : (steps.foldl Build.Step.run store).Holds held :=
  get?_foldl_of_eq_some h steps

namespace Build

/-- A compiled object is that of a namespace, and the build holds all declarations that the namespace
makes. -/
theorem Compiles.exists_namespace {steps : List Step} {options : Options} {object : StyleObject}
    (h : Compiles steps options object) :
    ∃ (ns : Namespace) (file : Option String), object = ns.compiled options file ∧
      ∀ item ∈ ns.assignments, ∀ d, item.2.Declares options item.1 d →
        (run steps).Holds (d.emission options.classPrefix) := by
  rcases h with ⟨before, job, after, compiled, name, rfl, rfl, hok, hobject⟩
  rcases compile_eq_ok_iff.1 hok with ⟨hinsert, rfl⟩
  rcases List.mem_map.1 (KeyMap.mem_of_get?_ofList hobject) with ⟨ns, hns, hentry⟩
  refine ⟨ns, job.file, (congrArg Prod.snd hentry).symm, ?_⟩
  intro item hitem d hd
  have hmem : d.emission job.options.classPrefix ∈ job.sheet.emissions job.options :=
    Sheet.mem_emissions_iff.2 ⟨item, List.mem_flatMap.2 ⟨ns, hns, hitem⟩, .inr ⟨d, hd, rfl⟩⟩
  -- The job itself stores the emission, and the steps behind it leave it there.
  have hjob : ((Step.compile job).run (run before)).Holds
      (d.emission job.options.classPrefix) := by
    rw [Step.run_eq]
    exact Store.holds_of_insertAll hinsert hmem
  rw [run_append, List.foldl_cons]
  exact hjob.foldl after

/-- Behind a class of a compiled object is a declaration of its key. The object mentions all that
the property of the declaration covers, in the same context. -/
theorem Compiles.exists_declaration {steps : List Step} {options : Options} {object : StyleObject}
    (h : Compiles steps options object) (hdev : options.devMarkers = false) {key name : String}
    (hname : object.get? key = some (some name)) :
    ∃ d : Declaration, d.className options.classPrefix = name ∧ d.key = key ∧
      (run steps).Holds (d.emission options.classPrefix) ∧
      ∀ covered, Property.Covers d.property covered →
        object.get? (d.context.decorate (Property.styleKey covered)) ≠ none := by
  rcases h.exists_namespace with ⟨ns, file, rfl, hheld⟩
  have hdescribes : ns.Describes options (ns.compiled options file) :=
    ns.describes_compiled hdev file
  rcases hdescribes.exists_declares hname with ⟨item, hitem, d, hd, hkey, hclass⟩
  refine ⟨d, hclass, hkey, hheld item hitem d hd, ?_⟩
  obtain ⟨hcontext, hproperty⟩ := hd.context_property
  have heffective : item.2.rejected options = false :=
    (Assignment.rejected_eq_false_iff item.1).2 (hd.exists_apply.imp fun applied h => h.1)
  intro covered hcovers
  rw [hcontext]
  rw [hproperty] at hcovers
  refine hdescribes.get?_ne_none hitem heffective ?_
  by_cases heq : covered = item.2.property
  · exact .inl (by rw [heq, Assignment.keyIn])
  · -- What else the property covers is reset with it.
    exact .inr (List.mem_map.2 ⟨covered, Property.mem_resets_of_covers hcovers heq, rfl⟩)

end Build

end AtomicCss
