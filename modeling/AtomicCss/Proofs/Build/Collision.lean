import AtomicCss.Proofs.Build.Emitted
import AtomicCss.Proofs.ClassName.Digits
import AtomicCss.Proofs.Declaration.Legible
/-!
# When a store refuses an emission

A name that is generated for legible declarations and blocks of keyframes tells, together with the
canonical text, all that is emitted (`Origin.emission_eq`). So on a store that was filled with such
emissions, whatever their marks are, only a name that stands for another canonical text can be
refused, and it is refused as a collision (`integrity_error_iff_collision`). Behind one mark the two
texts have one checksum.
-/

namespace AtomicCss

namespace Origin

/-- The canonical text of a declaration can be read; that of a block need not be. -/
def Legible : Origin → Prop
  | declaration d => d.Legible
  | keyframes _ => True

variable {origin other : Origin} {mark mark' : String}

/-- A class and a block never have one name. -/
theorem eq_declarations_or_eq_blocks_of_name (h : origin.name mark = other.name mark') :
    (∃ d e, origin = .declaration d ∧ other = .declaration e) ∨
      ∃ block block', origin = .keyframes block ∧ other = .keyframes block' := by
  cases origin with
  | declaration d =>
    cases other with
    | declaration e => exact .inl ⟨d, e, rfl, rfl⟩
    | keyframes block => exact absurd h (d.className_ne_block_name mark block mark')
  | keyframes block =>
    cases other with
    | declaration e => exact absurd h.symm (e.className_ne_block_name mark' block mark)
    | keyframes block' => exact .inr ⟨block, block', rfl, rfl⟩

/-- Emissions of one name have the sources that their canonical texts have. -/
theorem source_eq_iff (h : origin.name mark = other.name mark') :
    (origin.emission mark).source = (other.emission mark').source ↔
      origin.canonical = other.canonical := by
  rcases eq_declarations_or_eq_blocks_of_name h with
    ⟨d, e, rfl, rfl⟩ | ⟨block, block', rfl, rfl⟩
  · exact Iff.rfl
  · constructor
    · intro hsource
      have hlist := congrArg String.toList hsource
      simp only [emission, Keyframes.Block.emission, String.toList_append,
        List.append_cancel_left_eq] at hlist
      exact String.toList_injective hlist
    · intro hbody
      exact congrArg (fun body => "@keyframes" ++ fieldSeparator ++ body) hbody

/-- A name and the canonical text that it is made from tell all of the emission. -/
theorem emission_eq (horigin : origin.Legible) (hother : other.Legible)
    (hname : origin.name mark = other.name mark') (hcanonical : origin.canonical = other.canonical) :
    origin.emission mark = other.emission mark' := by
  rcases eq_declarations_or_eq_blocks_of_name hname with
    ⟨d, e, rfl, rfl⟩ | ⟨block, block', rfl, rfl⟩
  · have heq : d = e := Declaration.canonical_injective horigin hother hcanonical
    subst heq
    have hmark : mark = mark' := ClassName.mark_eq_of_ofText hname
    rw [hmark]
  · -- Blocks with one body have one name behind a mark, and one rule.
    have hbody : block.body = block'.body := hcanonical
    have hending : ClassName.ofText mark block.body ++ "-B" =
        ClassName.ofText mark' block'.body ++ "-B" := hname
    have hmark : mark = mark' := by
      rw [hbody] at hending
      have hlist := congrArg String.toList hending
      simp only [String.toList_append, List.append_cancel_right_eq] at hlist
      exact ClassName.mark_eq_of_ofText (String.toList_injective hlist)
    simp only [emission, Keyframes.Block.emission, Keyframes.Block.toAtomic, Keyframes.Block.name,
      hbody, hmark]

/-- Behind one mark, canonical texts with one name have one checksum. -/
theorem checksum_eq_of_name (h : origin.name mark = other.name mark) :
    ClassName.checksum origin.canonical = ClassName.checksum other.canonical := by
  rcases eq_declarations_or_eq_blocks_of_name h with
    ⟨d, e, rfl, rfl⟩ | ⟨block, block', rfl, rfl⟩
  · exact ClassName.checksum_eq_of_ofText h
  · have hlist := congrArg String.toList h
    simp only [name, toAtomic, Keyframes.Block.toAtomic, Keyframes.Block.name,
      String.toList_append, List.append_cancel_right_eq] at hlist
    exact ClassName.checksum_eq_of_ofText (String.toList_injective hlist)

/-- What is wrong between emissions of one name: their canonical texts differ, and nothing else. -/
theorem conflict?_eq_some_iff (hother : other.Legible) (horigin : origin.Legible)
    (hname : other.name mark' = origin.name mark) {error : IntegrityError} :
    Store.conflict? (other.emission mark') (origin.emission mark) = some error ↔
      other.canonical ≠ origin.canonical ∧
        error = .hashCollision (origin.name mark) (Store.readable (other.emission mark').source)
          (Store.readable (origin.emission mark).source) := by
  by_cases hcanonical : other.canonical = origin.canonical
  · have hnone : Store.conflict? (other.emission mark') (origin.emission mark) = none :=
      Store.conflict?_eq_none_iff.2 (emission_eq hother horigin hname hcanonical)
    simp [hnone, hcanonical]
  · have hsource : (other.emission mark').source ≠ (origin.emission mark).source :=
      fun heq => hcanonical ((source_eq_iff hname).1 heq)
    rw [Store.conflict?, if_pos hsource, emission_atomic]
    simp only [Option.some.injEq, ne_eq, hcanonical, not_false_eq_true, true_and]
    exact eq_comm

theorem makes_step_iff {made : Origin} :
    (origin.step mark).Makes made mark' ↔ made = origin ∧ mark' = mark := by
  constructor
  · intro h
    cases origin with
    | declaration d =>
      cases h with
      | emit => exact ⟨rfl, rfl⟩
    | keyframes block =>
      cases h with
      | keyframes => exact ⟨rfl, rfl⟩
  · rintro ⟨rfl, rfl⟩
    cases made with
    | declaration d => exact .emit d mark'
    | keyframes block => exact .keyframes block mark'

end Origin

/-- The steps that emit origins one after the other, each behind its mark. -/
def Build.emissionSteps (entries : List (Origin × String)) : List Build.Step :=
  entries.map fun entry => entry.1.step entry.2

/-- What a run of emissions has emitted is one of them. -/
theorem Build.Emits.mem_entries {entries : List (Origin × String)} {origin : Origin} {mark : String}
    (h : Build.Emits (Build.emissionSteps entries) origin mark) : (origin, mark) ∈ entries := by
  rcases h with ⟨before, step, after, hsteps, hmakes, -⟩
  have hstep : step ∈ Build.emissionSteps entries := by
    rw [hsteps]
    exact List.mem_append_right before List.mem_cons_self
  rcases List.mem_map.1 hstep with ⟨entry, hentry, rfl⟩
  rcases Origin.makes_step_iff.1 hmakes with ⟨rfl, rfl⟩
  exact hentry

/-- After any run of emissions of legible declarations and blocks, behind marks that may vary, an
emission of another one never disagrees with the store about a rule. It is refused as a collision
just if its name is held by one with another canonical text. If all marks are one, the two texts are
different and have one checksum. -/
theorem integrity_error_iff_collision {entries : List (Origin × String)} {origin : Origin}
    (hentries : ∀ entry ∈ entries, entry.1.Legible) (horigin : origin.Legible) (mark : String) :
    let store := Build.run (Build.emissionSteps entries)
    (∀ name source stored incoming,
      store.emit (origin.emission mark) ≠ .error (.ruleMismatch name source stored incoming)) ∧
    (∀ error, store.emit (origin.emission mark) = .error error ↔
      ∃ held ∈ entries, store.Holds (held.1.emission held.2) ∧
        held.1.name held.2 = origin.name mark ∧ held.1.canonical ≠ origin.canonical ∧
        error = .hashCollision (origin.name mark) (Store.readable (held.1.emission held.2).source)
          (Store.readable (origin.emission mark).source)) ∧
    ((∀ entry ∈ entries, entry.2 = mark) →
      ∀ error, store.emit (origin.emission mark) = .error error →
        ∃ held ∈ entries, held.1.canonical ≠ origin.canonical ∧
          ClassName.checksum held.1.canonical = ClassName.checksum origin.canonical) := by
  intro store
  have hcollision : ∀ error, store.emit (origin.emission mark) = .error error ↔
      ∃ held ∈ entries, store.Holds (held.1.emission held.2) ∧
        held.1.name held.2 = origin.name mark ∧ held.1.canonical ≠ origin.canonical ∧
        error = .hashCollision (origin.name mark) (Store.readable (held.1.emission held.2).source)
          (Store.readable (origin.emission mark).source) := by
    intro error
    rw [Store.emit_eq_error_iff, Store.insert_eq_error_iff, Origin.emission_name]
    constructor
    · rintro ⟨held, hget, hconflict⟩
      rcases Build.get?_run_iff.1 hget with ⟨other, mark', hemits, rfl, hname⟩
      have hmem := hemits.mem_entries
      have hheld : store.Holds (other.emission mark') := by
        rw [Store.holds_emission_iff, hname]
        exact hget
      rcases (Origin.conflict?_eq_some_iff (hentries _ hmem) horigin hname).1 hconflict with
        ⟨hcanonical, herror⟩
      exact ⟨(other, mark'), hmem, hheld, hname, hcanonical, herror⟩
    · rintro ⟨⟨other, mark'⟩, hmem, hheld, hname, hcanonical, herror⟩
      refine ⟨other.emission mark', ?_, ?_⟩
      · rw [← hname]
        exact Store.holds_emission_iff.1 hheld
      · exact (Origin.conflict?_eq_some_iff (hentries _ hmem) horigin hname).2
          ⟨hcanonical, herror⟩
  refine ⟨?_, hcollision, ?_⟩
  · intro name source stored incoming hmismatch
    rcases (hcollision _).1 hmismatch with ⟨held, -, -, -, -, herror⟩
    cases herror
  · intro hmarks error herror
    rcases (hcollision error).1 herror with ⟨held, hmem, -, hname, hcanonical, -⟩
    rw [hmarks held hmem] at hname
    exact ⟨held, hmem, hcanonical, Origin.checksum_eq_of_name hname⟩

/-- A height and a place whose canonical texts have one checksum. -/
theorem integrity_error_iff_collision_height :
    let height : Origin := .declaration ⟨"height", ⟨["5855rem"]⟩, .plain⟩
    let top : Origin := .declaration ⟨"top", ⟨["78%"]⟩, .plain⟩
    let entries := [(height, "x"), (.keyframes fadeIn, "x")]
    let store := Build.run (Build.emissionSteps entries)
    (∀ entry ∈ entries, entry.1.Legible) ∧ top.Legible ∧ (∀ entry ∈ entries, entry.2 = "x") ∧
      store.emit (top.emission "x") =
        .error (.hashCollision "x1c1qwvq" "height 5855rem" "top 78%") ∧
      ∃ held ∈ entries, held.1.canonical ≠ top.canonical ∧
        ClassName.checksum held.1.canonical = ClassName.checksum top.canonical := by
  intro height top entries store
  have hheight : height.Legible := ⟨rfl, by decide, by decide, by decide, by decide⟩
  have htop : top.Legible := ⟨rfl, by decide, by decide, by decide, by decide⟩
  have hentries : ∀ entry ∈ entries, entry.1.Legible := by
    intro entry hentry
    rcases List.mem_cons.1 hentry with rfl | hrest
    · exact hheight
    · rw [List.mem_singleton.1 hrest]
      exact trivial
  have hmarks : ∀ entry ∈ entries, entry.2 = "x" := by simp [entries]
  rcases integrity_error_iff_collision hentries htop "x" with ⟨-, hcollision, hchecksum⟩
  have herror : store.emit (top.emission "x") =
      .error (.hashCollision "x1c1qwvq" "height 5855rem" "top 78%") := by
    refine (hcollision _).2 ⟨(height, "x"), List.mem_cons_self, ?_, ?_, ?_, ?_⟩
    · show store.emissions.get? _ = _
      decide +kernel
    · decide +kernel
    · decide +kernel
    · decide +kernel
  exact ⟨hentries, htop, hmarks, herror, hchecksum hmarks _ herror⟩

end AtomicCss
