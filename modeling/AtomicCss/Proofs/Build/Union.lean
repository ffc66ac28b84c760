import AtomicCss.Proofs.Build.Order
import AtomicCss.Proofs.Compile.Correspondence
import AtomicCss.Proofs.Stylesheet.Repeats
/-!
# The stylesheet of a build

A module has the rules that its sheet emits, which may repeat themselves, and a store keeps one
emission under each name. After emissions that are all accepted, these are the same rules
(`stylesheet_insertAll`). So the stylesheet of a build has the texts that its modules have
(`build_stylesheet_is_union`).
-/

namespace AtomicCss

/-- A fresh store that has accepted some emissions has the stylesheet of their rules. -/
theorem Store.stylesheet_insertAll {emissions : List Emission}
    (h : ((∅ : Store).insertAll emissions).2 = .ok ()) :
    ((∅ : Store).insertAll emissions).1.stylesheet =
      .ofRules (emissions.map (·.atomic.rule)) := by
  refine Stylesheet.ofRules_congr ?_
  intro rule
  rw [mem_rules_insertAll_iff h]
  constructor
  · rintro (hempty | hmem)
    · cases hempty
    · exact hmem
  · exact .inr

namespace Job

/-- A job that succeeds on a fresh store leaves the stylesheet of its module there. -/
theorem stylesheet_run {job : Job} {compiled : CompiledModule}
    (h : (job.run ∅).2 = .ok compiled) : (job.run ∅).1.stylesheet.rules = compiled.rules := by
  rcases compile_eq_ok_iff.1 h with ⟨hok, rfl⟩
  rw [run, compile_store, Store.stylesheet_insertAll hok]
  rfl

/-- If all jobs of a list succeed, the stylesheet has the texts that they have emitted. -/
theorem exists_text_runAll_iff {jobs : List Job}
    (h : ∀ result ∈ (runAll ∅ jobs).2, result.isOk = true) {text : String} :
    (∃ rule ∈ (runAll ∅ jobs).1.stylesheet.rules, rule.text = text) ↔
      ∃ job ∈ jobs, ∃ emission ∈ job.emissions, emission.atomic.rule.text = text := by
  have hall := insertAll_of_runAll h
  rw [runAll_eq hall, Store.stylesheet_insertAll hall, Stylesheet.exists_text_emissions_iff]
  constructor
  · rintro ⟨emission, hemission, htext⟩
    rcases List.mem_flatMap.1 hemission with ⟨job, hjob, hemitted⟩
    exact ⟨job, hjob, emission, hemitted, htext⟩
  · rintro ⟨job, hjob, emission, hemitted, htext⟩
    exact ⟨emission, List.mem_flatMap.2 ⟨job, hjob, hemitted⟩, htext⟩

/-- The modules of jobs that all succeed are their plans. -/
theorem ok_mem_runAll_iff {jobs : List Job}
    (h : ∀ result ∈ (runAll ∅ jobs).2, result.isOk = true) {compiled : CompiledModule} :
    .ok compiled ∈ (runAll ∅ jobs).2 ↔ ∃ job ∈ jobs, job.plan = compiled := by
  rw [runAll_eq (insertAll_of_runAll h), List.mem_map]
  simp only [Except.ok.injEq]

end Job

/-- The stylesheet that a sheet leaves on a fresh store has the rules of the compiled module in the
order that they have there. If jobs are run one after the other on a fresh store and all of them
succeed, the stylesheet has a text just if one of the modules has it. -/
theorem build_stylesheet_is_union :
    (∀ (job : Job) (compiled : CompiledModule), (job.run ∅).2 = .ok compiled →
      (job.run ∅).1.stylesheet.rules = compiled.rules) ∧
    ∀ jobs : List Job, (∀ result ∈ (Job.runAll ∅ jobs).2, result.isOk = true) →
      ∀ text : String,
        (∃ rule ∈ (Job.runAll ∅ jobs).1.stylesheet.rules, rule.text = text) ↔
          ∃ compiled, .ok compiled ∈ (Job.runAll ∅ jobs).2 ∧
            ∃ rule ∈ compiled.rules, rule.text = text := by
  refine ⟨fun job compiled => Job.stylesheet_run, ?_⟩
  intro jobs hok text
  rw [Job.exists_text_runAll_iff hok]
  constructor
  · rintro ⟨job, hjob, hemitted⟩
    exact ⟨job.plan, (Job.ok_mem_runAll_iff hok).2 ⟨job, hjob, rfl⟩,
      Stylesheet.exists_text_emissions_iff.2 hemitted⟩
  · rintro ⟨compiled, hcompiled, htext⟩
    rcases (Job.ok_mem_runAll_iff hok).1 hcompiled with ⟨job, hjob, rfl⟩
    exact ⟨job, hjob, Stylesheet.exists_text_emissions_iff.1 htext⟩

/-- A color that a sheet overwrites and another one has, and keyframes. -/
theorem build_stylesheet_is_union_animated :
    let box : Job := ⟨{}, none, ⟨[animated]⟩⟩
    let link : Job := ⟨{}, some "link.json", ⟨[⟨"link", [.single ⟨"color",
      .value (.single (.text "red"))⟩]⟩]⟩⟩
    let build := Job.runAll ∅ [link, box]
    (∃ compiled, (box.run ∅).2 = .ok compiled ∧
      (box.run ∅).1.stylesheet.rules = compiled.rules) ∧
    (∃ rule ∈ build.1.stylesheet.rules, rule.text = ".xrgi7wg\x7bcolor:red\x7d") ∧
    ∃ compiled, .ok compiled ∈ build.2 ∧
      ∃ rule ∈ compiled.rules, rule.text = "@keyframes x1p7329g-B\x7b100%\x7bopacity:0;\x7d\x7d" := by
  intro box link build
  have hbox : (box.run ∅).2 = .ok box.plan := compile_eq_ok_iff.2 ⟨by decide +kernel, rfl⟩
  have hok : ∀ result ∈ build.2, result.isOk = true := by decide +kernel
  have hlink : .ok link.plan ∈ build.2 :=
    (Job.ok_mem_runAll_iff hok).2 ⟨link, List.mem_cons_self, rfl⟩
  have hred : ∃ rule ∈ link.plan.rules, rule.text = ".xrgi7wg\x7bcolor:red\x7d" :=
    Stylesheet.exists_text_emissions_iff.2 (by decide +kernel)
  have hfade : ∃ rule ∈ build.1.stylesheet.rules,
      rule.text = "@keyframes x1p7329g-B\x7b100%\x7bopacity:0;\x7d\x7d" :=
    Stylesheet.exists_text_ofRules_iff.2 (by decide +kernel)
  rcases build_stylesheet_is_union with ⟨hsingle, hunion⟩
  exact ⟨⟨box.plan, hbox, hsingle box box.plan hbox⟩, (hunion _ hok _).2 ⟨link.plan, hlink, hred⟩,
    (hunion _ hok _).1 hfade⟩

end AtomicCss
