import AtomicCss.Build
import AtomicCss.Proofs.Compile.Plan
import AtomicCss.Proofs.Stylesheet.Order
/-!
# Builds do not depend on their order

What a sheet compiles to is in its plan, and a store can only refuse it (`run_eq_or_error`). Jobs on
one store make the emissions of all their sheets in a row, and these are accepted in one order just
if they are accepted in all of them. `build_order_independent` puts both together.
-/

namespace AtomicCss

namespace Job

/-- What a job emits. -/
def emissions (job : Job) : List Emission :=
  job.sheet.emissions job.options

/-- What a job compiles to on a store that accepts its emissions. -/
def plan (job : Job) : CompiledModule :=
  job.sheet.plan job.options job.file

/-- A job either fails on a store, or gives what it gives on a fresh one. -/
theorem run_eq_or_error (job : Job) (store : Store) :
    (∃ error, (job.run store).2 = .error error) ∨
      ∃ compiled, (job.run store).2 = .ok compiled ∧ (job.run ∅).2 = .ok compiled := by
  cases hresult : (job.run store).2 with
  | error error => exact .inl ⟨error, rfl⟩
  | ok compiled =>
    -- Emissions that are accepted do not differ under one name, whatever the store held before.
    right
    refine ⟨compiled, rfl, ?_⟩
    rcases compile_eq_ok_iff.1 hresult with ⟨hok, hplan⟩
    have hconsistent := (Store.insertAll_eq_ok_iff.1 hok).2
    have hfresh : ((∅ : Store).insertAll (job.sheet.emissions job.options)).2 = .ok () :=
      Store.insertAll_eq_ok_iff.2 ⟨fun emission _ => Store.accepts_empty emission, hconsistent⟩
    exact compile_eq_ok_iff.2 ⟨hfresh, hplan⟩

/-! ## Jobs in a row -/

theorem insertAll_cons_job (store : Store) (job : Job) (rest : List Job) :
    store.insertAll ((job :: rest).flatMap emissions) =
      match store.insertAll job.emissions with
      | (after, .ok ()) => after.insertAll (rest.flatMap emissions)
      | (after, .error error) => (after, .error error) := by
  rw [List.flatMap_cons]
  refine (Store.insertAll_append store job.emissions (rest.flatMap emissions)).trans ?_
  rcases store.insertAll job.emissions with ⟨after, error | ⟨⟩⟩
  · rfl
  · rfl

/-- If a store accepts all emissions of some jobs in a row, each of the jobs gives its plan. -/
theorem runAll_eq {store : Store} {jobs : List Job}
    (h : (store.insertAll (jobs.flatMap emissions)).2 = .ok ()) :
    runAll store jobs =
      ((store.insertAll (jobs.flatMap emissions)).1, jobs.map fun job => .ok job.plan) := by
  induction jobs generalizing store with
  | nil => rfl
  | cons job rest ih =>
    rw [insertAll_cons_job] at h ⊢
    rw [runAll, run, compile_eq_plan]
    rcases hjob : store.insertAll job.emissions with ⟨after, error | ⟨⟩⟩
    · -- The job has failed, and then the emissions in a row are refused as well.
      rw [hjob] at h
      cases h
    · rw [hjob] at h
      rw [emissions] at hjob
      simp only [hjob, ih h, List.map_cons]
      rfl

/-- If all jobs succeed, the store accepts all their emissions in a row. -/
theorem insertAll_of_runAll {store : Store} {jobs : List Job}
    (h : ∀ result ∈ (runAll store jobs).2, result.isOk = true) :
    (store.insertAll (jobs.flatMap emissions)).2 = .ok () := by
  induction jobs generalizing store with
  | nil => rfl
  | cons job rest ih =>
    rw [insertAll_cons_job]
    rw [runAll, run, compile_eq_plan] at h
    rcases hjob : store.insertAll job.emissions with ⟨after, error | ⟨⟩⟩
    · -- The job itself has failed.
      rw [emissions] at hjob
      simp only [hjob] at h
      exact absurd (h _ List.mem_cons_self) (by simp [Except.isOk, Except.toBool])
    · rw [emissions] at hjob
      simp only [hjob] at h
      exact ih fun result hresult => h result (List.mem_cons_of_mem _ hresult)

end Job

/-- On a store that a build has reached by steps of any kind, compiling a sheet either fails or
gives what it gives on a fresh store. If all jobs of a list succeed one after the other on a fresh
store, then in any other order each of them succeeds with the same module, and the stylesheet is the
same in whatever order the store lists its rules. -/
theorem build_order_independent :
    (∀ (steps : List Build.Step) (job : Job),
      (∃ error, (job.run (Build.run steps)).2 = .error error) ∨
        ∃ compiled, (job.run (Build.run steps)).2 = .ok compiled ∧
          (job.run ∅).2 = .ok compiled) ∧
    ∀ jobs others : List Job, jobs.Perm others →
      (∀ result ∈ (Job.runAll ∅ jobs).2, result.isOk = true) →
        (∃ compiled : Job → CompiledModule,
          (Job.runAll ∅ jobs).2 = jobs.map (fun job => .ok (compiled job)) ∧
            (Job.runAll ∅ others).2 = others.map fun job => .ok (compiled job)) ∧
        ∀ listed : List Rule, listed.Perm (Job.runAll ∅ others).1.rules →
          Stylesheet.ofRules listed = (Job.runAll ∅ jobs).1.stylesheet := by
  refine ⟨fun steps job => job.run_eq_or_error (Build.run steps), ?_⟩
  intro jobs others hperm hok
  -- Both orders make the same emissions, and a fresh store accepts those of the first.
  have hjobs := Job.insertAll_of_runAll hok
  rcases Store.insertAll_perm (hperm.flatMap_right Job.emissions) hjobs with ⟨hothers, hstore⟩
  rw [Job.runAll_eq hjobs, Job.runAll_eq hothers]
  refine ⟨⟨Job.plan, rfl, rfl⟩, ?_⟩
  intro listed hlisted
  rw [Store.stylesheet, Stylesheet.ofRules_perm hlisted, hstore]

/-- Two jobs with a class in common, run in both orders, and the stylesheet that they leave. -/
theorem build_order_independent_common_class :
    let button : Job := ⟨{}, none, ⟨[⟨"button", [.single ⟨"color", .value (.single (.text "red"))⟩,
      .single ⟨"margin", .value (.single (.text "2px"))⟩]⟩]⟩⟩
    let link : Job := ⟨{}, some "link.json", ⟨[⟨"link", [.single ⟨"color",
      .value (.single (.text "red"))⟩]⟩]⟩⟩
    (∀ result ∈ (Job.runAll ∅ [button, link]).2, result.isOk = true) ∧
      (∃ compiled : Job → CompiledModule,
        (Job.runAll ∅ [button, link]).2 = [.ok (compiled button), .ok (compiled link)] ∧
          (Job.runAll ∅ [link, button]).2 = [.ok (compiled link), .ok (compiled button)]) ∧
      (Job.runAll ∅ [link, button]).1.stylesheet = (Job.runAll ∅ [button, link]).1.stylesheet ∧
      (Job.runAll ∅ [link, button]).1.stylesheet.toCss =
        ".x1l9grw1\x7bmargin:2px\x7d\n.xrgi7wg\x7bcolor:red\x7d" := by
  intro button link
  have hok : ∀ result ∈ (Job.runAll ∅ [button, link]).2, result.isOk = true := by decide +kernel
  obtain ⟨hcompiled, hsheet⟩ :=
    build_order_independent.2 [button, link] [link, button] (.swap link button []) hok
  have hcss : (Job.runAll ∅ [link, button]).1.stylesheet.toCss =
      ".x1l9grw1\x7bmargin:2px\x7d\n.xrgi7wg\x7bcolor:red\x7d" := by
    -- The store lists the rules in their order already.
    rw [Store.stylesheet, Stylesheet.ofRules, List.mergeSort_of_pairwise (by decide +kernel)]
    decide +kernel
  exact ⟨hok, hcompiled, hsheet _ (.refl _), hcss⟩

end AtomicCss
