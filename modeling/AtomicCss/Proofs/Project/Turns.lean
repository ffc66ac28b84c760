import AtomicCss.Project.Task
import AtomicCss.Proofs.Compile.Plan
import Mathlib.Data.List.Basic
import Mathlib.Logic.Relation
/-!
# Turns at the store

Left alone, a task gives what compiling its text gives (`Task.finish_start`). Tasks that share a store
come to it in any order: what lists of turns lead to is just what single moves of tasks can lead to
(`moves_iff_exists_run`).

Work is sound if no task has failed and the store accepts all that is still to be emitted. A move
keeps sound work sound and does not mend work that is not (`Moves.isSound_iff`). So all results are
good in one order just if they are good in every order (`forall_isOk_run_iff`), and then the orders
also agree on the results and on the store (`run_eq_of_isSound`).
-/

namespace AtomicCss.Project

namespace Task

variable {circumstances : Circumstances} {options : Options} {file : StyleFile}

/-- A task that is left alone leaves what compiling the text of its file leaves. -/
theorem finish_start (hfault : circumstances.fault? file.path = none) (store : Store) :
    (start circumstances options file).finish store =
      ((store.compileText options (some file.path) file.text).1,
        (store.compileText options (some file.path) file.text).2.mapError .compile) := by
  simp only [start, hfault, Store.compileText]
  cases Sheet.parse file.text with
  | error error => rfl
  | ok sheet =>
    simp only [finish, compile_eq_plan]
    rcases store.insertAll (sheet.emissions options) with ⟨after, error | ⟨⟩⟩
    · rfl
    · rfl

/-- A move of a task: it has nothing left to emit and ends, or its next emission is accepted, or
refused. -/
inductive Steps (store : Store) : Task → Store → Task → Prop
  | ends (compiled : CompiledModule) :
      Steps store (running [] compiled) store (ended (.ok compiled))
  | accepted {emission : Emission} {after : Store} (h : store.insert emission = .ok after)
      (rest : List Emission) (compiled : CompiledModule) :
      Steps store (running (emission :: rest) compiled) after (running rest compiled)
  | refused {emission : Emission} {error : IntegrityError}
      (h : store.insert emission = .error error) (rest : List Emission)
      (compiled : CompiledModule) :
      Steps store (running (emission :: rest) compiled) store
        (ended (.error (.compile (.integrity error))))

/-- The moves of a task are those of `Steps`. -/
theorem step?_eq_some_iff {store after : Store} {task next : Task} :
    task.step? store = some (after, next) ↔ Steps store task after next := by
  constructor
  · intro h
    match task with
    | ended result => cases h
    | running [] compiled =>
      cases h
      exact .ends compiled
    | running (emission :: rest) compiled =>
      rw [step?] at h
      split at h
      · rename_i hinsert
        cases h
        exact .accepted hinsert rest compiled
      · rename_i hinsert
        cases h
        exact .refused hinsert rest compiled
  · intro h
    cases h with
    | ends compiled => rfl
    | accepted h rest compiled => rw [step?, h]
    | refused h rest compiled => rw [step?, h]

/-- What a task still has to emit. -/
def pending : Task → List Emission
  | running pending _ => pending
  | ended _ => []

/-- The result of a task if none of its emissions is refused. -/
def prospect : Task → FileResult
  | running _ compiled => .ok compiled
  | ended result => result

end Task

namespace Work

/-! ## Orders -/

/-- One of the tasks makes a move. -/
inductive Moves : Work → Work → Prop
  | move {store after : Store} {task next : Task} (h : Task.Steps store task after next)
      (front back : List Task) :
      Moves ⟨store, front ++ task :: back⟩ ⟨after, front ++ next :: back⟩

open Relation (ReflTransGen)

/-- A move is made by giving its task a turn. -/
theorem exists_turn_of_moves {work next : Work} (h : Moves work next) :
    ∃ number, work.turn number = next := by
  cases h with
  | move h front back =>
    refine ⟨front.length, ?_⟩
    simp [turn, Task.step?_eq_some_iff.2 h]

/-- A turn is a move, or nothing happens. -/
theorem reaches_turn (work : Work) (number : Nat) :
    ReflTransGen Moves work (work.turn number) := by
  rw [turn]
  cases htask : work.tasks[number]? with
  | none => exact .refl
  | some task =>
    dsimp only
    cases hstep : task.step? work.store with
    | none => exact .refl
    | some made =>
      -- The tasks in front of the one that moves and those behind it stay as they are.
      rcases List.getElem?_eq_some_iff.1 htask with ⟨hlt, rfl⟩
      have hsplit : work.tasks = work.tasks.take number ++
          work.tasks[number] :: work.tasks.drop (number + 1) := by
        rw [List.getElem_cons_drop hlt, List.take_append_drop]
      have hset : work.tasks.set number made.2 = work.tasks.take number ++
          made.2 :: work.tasks.drop (number + 1) := List.set_eq_take_cons_drop made.2 hlt
      have hmove := Moves.move (Task.step?_eq_some_iff.1 hstep) (work.tasks.take number)
        (work.tasks.drop (number + 1))
      rw [← hsplit, ← hset] at hmove
      exact .single hmove

/-- Turns lead where single moves lead. -/
theorem reaches_foldl_turn (work : Work) (turns : List Nat) :
    ReflTransGen Moves work (turns.foldl turn work) := by
  induction turns generalizing work with
  | nil => exact .refl
  | cons number rest ih => exact (reaches_turn work number).trans (ih (work.turn number))

/-- A task among others can be left to run to its end. -/
theorem reaches_finish (store : Store) (task : Task) (front back : List Task) :
    ReflTransGen Moves ⟨store, front ++ task :: back⟩
      ⟨(task.finish store).1, front ++ .ended (task.finish store).2 :: back⟩ := by
  cases task with
  | ended result => exact .refl
  | running pending compiled =>
    induction pending generalizing store with
    | nil => exact .single (.move (.ends compiled) front back)
    | cons emission rest ih =>
      rw [Task.finish, Store.insertAll]
      cases hinsert : store.insert emission with
      | error error => exact .single (.move (.refused hinsert rest compiled) front back)
      | ok after => exact .head (.move (.accepted hinsert rest compiled) front back) (ih after)

/-- Tasks can be left to run to their ends one after the other. -/
theorem reaches_finishAll (store : Store) (front tasks : List Task) :
    ReflTransGen Moves ⟨store, front ++ tasks⟩
      ⟨(Task.finishAll store tasks).1, front ++ (Task.finishAll store tasks).2.map .ended⟩ := by
  induction tasks generalizing store front with
  | nil => exact .refl
  | cons task rest ih =>
    rw [Task.finishAll]
    -- What has ended stands in front of the tasks that come next.
    have hrest := ih (task.finish store).1 (front ++ [.ended (task.finish store).2])
    simp only [List.append_assoc, List.singleton_append] at hrest
    exact (reaches_finish store task front rest).trans hrest

/-- A run leads where single moves lead. -/
theorem reaches_run (work : Work) (turns : List Nat) :
    ReflTransGen Moves work ⟨(work.run turns).1, (work.run turns).2.map .ended⟩ := by
  have hturns := reaches_foldl_turn work turns
  have hfinish := reaches_finishAll (turns.foldl turn work).store [] (turns.foldl turn work).tasks
  exact hturns.trans hfinish

/-- Tasks that have ended keep their results. -/
theorem finishAll_ended (store : Store) (results : List FileResult) :
    Task.finishAll store (results.map .ended) = (store, results) := by
  induction results with
  | nil => rfl
  | cons result rest ih => simp only [List.map_cons, Task.finishAll, Task.finish, ih]

/-- Moves of single tasks, in whatever order they are made, lead to a store and results just if some
list of turns does. -/
theorem moves_iff_exists_run {work : Work} {store : Store} {results : List FileResult} :
    ReflTransGen Moves work ⟨store, results.map .ended⟩ ↔
      ∃ turns, work.run turns = (store, results) := by
  constructor
  · intro h
    induction h using ReflTransGen.head_induction_on with
    | refl => exact ⟨[], finishAll_ended store results⟩
    | head hmove _ ih =>
      rcases ih with ⟨turns, hrun⟩
      rcases exists_turn_of_moves hmove with ⟨number, rfl⟩
      exact ⟨number :: turns, hrun⟩
  · rintro ⟨turns, hrun⟩
    have hreaches := reaches_run work turns
    rw [hrun] at hreaches
    exact hreaches

/-- No move adds or removes a task. -/
theorem length_eq_of_reaches {work last : Work} (h : ReflTransGen Moves work last) :
    last.tasks.length = work.tasks.length := by
  induction h with
  | refl => rfl
  | tail _ hmove ih =>
    rw [← ih]
    cases hmove with
    | move _ front back => simp only [List.length_append, List.length_cons]

/-! ## Sound work -/

/-- What all tasks together still have to emit. -/
def pending (work : Work) : List Emission :=
  work.tasks.flatMap Task.pending

/-- The results of the tasks if no emission is refused. -/
def prospects (work : Work) : List FileResult :=
  work.tasks.map Task.prospect

/-- No task has failed, and the store accepts all that is still to be emitted. -/
structure IsSound (work : Work) : Prop where
  prospects : ∀ result ∈ work.prospects, result.isOk = true
  accepted : (work.store.insertAll work.pending).2 = .ok ()

/-- One of two states of work is as good as the other one, and leads to the same end. -/
structure Matches (work next : Work) : Prop where
  prospects : next.prospects = work.prospects
  accepted_iff :
    (next.store.insertAll next.pending).2 = .ok () ↔ (work.store.insertAll work.pending).2 = .ok ()
  store : (work.store.insertAll work.pending).2 = .ok () →
    (next.store.insertAll next.pending).1 = (work.store.insertAll work.pending).1

/-- Of two states that match, both are sound or neither is. -/
theorem Matches.isSound_iff {work next : Work} (h : Matches work next) :
    next.IsSound ↔ work.IsSound := by
  constructor
  · rintro ⟨hprospects, haccepted⟩
    exact ⟨h.prospects ▸ hprospects, h.accepted_iff.1 haccepted⟩
  · rintro ⟨hprospects, haccepted⟩
    exact ⟨h.prospects.symm ▸ hprospects, h.accepted_iff.2 haccepted⟩

section Moves

variable {store : Store} (emission : Emission) (rest : List Emission) (compiled : CompiledModule)
  (front back : List Task)

/-- A move that keeps what its task is to give keeps what all tasks are to give. -/
theorem prospects_congr {after : Store} {task next : Task} (h : next.prospect = task.prospect) :
    prospects ⟨after, front ++ next :: back⟩ = prospects ⟨store, front ++ task :: back⟩ := by
  simp only [prospects, List.map_append, List.map_cons, h]

/-- The next emission of a task may as well come in front of all others. -/
theorem pending_perm :
    (pending ⟨store, front ++ .running (emission :: rest) compiled :: back⟩).Perm
      (emission :: pending ⟨store, front ++ .running rest compiled :: back⟩) := by
  simp only [pending, List.flatMap_append, List.flatMap_cons, Task.pending, List.cons_append]
  exact List.perm_middle

/-- A task that ends leaves work that matches. -/
theorem matches_of_ends :
    Matches ⟨store, front ++ .running [] compiled :: back⟩
      ⟨store, front ++ .ended (.ok compiled) :: back⟩ := by
  have hpending : pending ⟨store, front ++ .ended (.ok compiled) :: back⟩ =
      pending ⟨store, front ++ .running [] compiled :: back⟩ := by
    simp only [pending, List.flatMap_append, List.flatMap_cons, Task.pending]
  exact ⟨prospects_congr front back rfl, by rw [hpending], fun _ => by rw [hpending]⟩

variable {emission}

/-- An emission that is accepted leaves work that matches. -/
theorem matches_of_accepted {after : Store} (hinsert : store.insert emission = .ok after) :
    Matches ⟨store, front ++ .running (emission :: rest) compiled :: back⟩
      ⟨after, front ++ .running rest compiled :: back⟩ := by
  have hperm := @pending_perm store emission rest compiled front back
  have hfirst : after.insertAll (pending ⟨after, front ++ .running rest compiled :: back⟩) =
      store.insertAll (emission :: pending ⟨store, front ++ .running rest compiled :: back⟩) := by
    rw [Store.insertAll, hinsert]
    rfl
  refine ⟨prospects_congr front back rfl, ?_, fun h => ?_⟩
  · rw [hfirst]
    exact ⟨fun h => (Store.insertAll_perm hperm.symm h).1, fun h => (Store.insertAll_perm hperm h).1⟩
  · rw [hfirst]
    exact (Store.insertAll_perm hperm h).2

/-- Work is not sound if the next emission of a task is refused. -/
theorem not_isSound_of_refused {error : IntegrityError}
    (hinsert : store.insert emission = .error error) :
    ¬ IsSound ⟨store, front ++ .running (emission :: rest) compiled :: back⟩ := by
  rintro ⟨-, haccepted⟩
  have hfirst := (Store.insertAll_perm (pending_perm _ _ _ _ _) haccepted).1
  rw [Store.insertAll, hinsert] at hfirst
  cases hfirst

end Moves

/-- Work with a task that has failed is not sound. -/
theorem not_isSound_of_failed (store : Store) (failure : FileFailure) (front back : List Task) :
    ¬ IsSound ⟨store, front ++ .ended (.error failure) :: back⟩ := by
  rintro ⟨hprospects, -⟩
  have hfailed : (Except.error failure : FileResult).isOk = true :=
    hprospects _ (List.mem_map.2 ⟨_, List.mem_append_right front List.mem_cons_self, rfl⟩)
  cases hfailed

/-- A move leads to work that matches, or the work is not sound before it nor behind it. -/
theorem Moves.matches_or {work next : Work} (h : Moves work next) :
    Matches work next ∨ ¬ work.IsSound ∧ ¬ next.IsSound := by
  cases h with
  | move h front back =>
    cases h with
    | ends compiled => exact .inl (matches_of_ends compiled front back)
    | accepted hinsert rest compiled =>
      exact .inl (matches_of_accepted rest compiled front back hinsert)
    | refused hinsert rest compiled =>
      exact .inr ⟨not_isSound_of_refused rest compiled front back hinsert,
        not_isSound_of_failed _ _ front back⟩

/-- A move keeps sound work sound, and does not mend work that is not. -/
theorem Moves.isSound_iff {work next : Work} (h : Moves work next) :
    next.IsSound ↔ work.IsSound := by
  rcases h.matches_or with hmatches | ⟨hwork, hnext⟩
  · exact hmatches.isSound_iff
  · exact ⟨fun h => absurd h hnext, fun h => absurd h hwork⟩

/-- Moves keep sound work sound, and do not mend work that is not. -/
theorem isSound_iff_of_reaches {work last : Work} (h : ReflTransGen Moves work last) :
    last.IsSound ↔ work.IsSound := by
  induction h with
  | refl => exact Iff.rfl
  | tail _ hmove ih => exact hmove.isSound_iff.trans ih

/-- Whatever moves are made, sound work has its store and its results ahead of it. -/
theorem IsSound.eq_of_reaches {work last : Work} (hsound : work.IsSound)
    (h : ReflTransGen Moves work last) :
    last.prospects = work.prospects ∧
      (last.store.insertAll last.pending).1 = (work.store.insertAll work.pending).1 := by
  induction h with
  | refl => exact ⟨rfl, rfl⟩
  | tail hreaches hmove ih =>
    have hbefore := (isSound_iff_of_reaches hreaches).2 hsound
    rcases hmove.matches_or with hmatches | ⟨hvain, -⟩
    · exact ⟨hmatches.prospects.trans ih.1, (hmatches.store hbefore.accepted).trans ih.2⟩
    · exact absurd hbefore hvain

/-! ## Work that is done -/

theorem pending_ended (store : Store) (results : List FileResult) :
    pending ⟨store, results.map .ended⟩ = [] := by
  simp [pending, Task.pending, List.flatMap_map]

theorem prospects_ended (store : Store) (results : List FileResult) :
    prospects ⟨store, results.map .ended⟩ = results := by
  simp [prospects, Task.prospect, Function.comp_def]

/-- All results are good just if the work was sound, whatever turns are taken. -/
theorem forall_isOk_run_iff (work : Work) (turns : List Nat) :
    (∀ result ∈ (work.run turns).2, result.isOk = true) ↔ work.IsSound := by
  rw [← isSound_iff_of_reaches (reaches_run work turns)]
  constructor
  · intro h
    constructor
    · rw [prospects_ended]
      exact h
    · rw [pending_ended]
      rfl
  · rintro ⟨h, -⟩
    rw [prospects_ended] at h
    exact h

/-- Sound work has one store and one list of results, whatever turns are taken. -/
theorem run_eq_of_isSound {work : Work} (h : work.IsSound) (turns : List Nat) :
    work.run turns = ((work.store.insertAll work.pending).1, work.prospects) := by
  rcases h.eq_of_reaches (reaches_run work turns) with ⟨hprospects, hstore⟩
  rw [prospects_ended] at hprospects
  rw [pending_ended] at hstore
  exact Prod.ext hstore hprospects

/-- Each task has its result. -/
theorem length_run (work : Work) (turns : List Nat) :
    (work.run turns).2.length = work.tasks.length := by
  have hlength := length_eq_of_reaches (reaches_run work turns)
  rw [List.length_map] at hlength
  exact hlength

end Work

end AtomicCss.Project
