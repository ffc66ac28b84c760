import AtomicCss.Compile
/-!
# Builds

A build is a run of steps on one store, which is empty at first. A step may fail, and the build goes
on with the store that it leaves.
-/

namespace AtomicCss

/-- A sheet to compile, with its options and the name of its file. -/
structure Job where
  options : Options
  file : Option String
  sheet : Sheet

namespace Job

def run (job : Job) (store : Store) : Store × Except IntegrityError CompiledModule :=
  store.compile job.options job.file job.sheet

/-- Runs jobs one after the other, failed ones included. -/
def runAll (store : Store) : List Job → Store × List (Except IntegrityError CompiledModule)
  | [] => (store, [])
  | job :: rest =>
    let (store, result) := job.run store
    let (store, results) := runAll store rest
    (store, result :: results)

end Job

namespace Build

/-- What a build does with its store. -/
inductive Step where
  | compile (job : Job)
  | emit (d : Declaration) (mark : String)
  | keyframes (block : Keyframes.Block) (mark : String)

/-- The store after a step. One that refuses an emission stays as it is. -/
def Step.run (store : Store) : Step → Store
  | compile job => (job.run store).1
  | emit d mark => (store.insertAll [d.emission mark]).1
  | keyframes block mark => (store.insertAll [block.emission mark]).1

/-- The store after a run of steps. -/
def run (steps : List Step) : Store :=
  steps.foldl Step.run ∅

/-- An object of a compilation that has succeeded in the course of a build. -/
def Compiles (steps : List Step) (options : Options) (object : StyleObject) : Prop :=
  ∃ before job after compiled name,
    steps = before ++ .compile job :: after ∧ job.options = options ∧
      (job.run (run before)).2 = .ok compiled ∧ compiled.styles.get? name = some object

end Build

end AtomicCss
