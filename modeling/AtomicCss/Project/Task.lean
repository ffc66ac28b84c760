import AtomicCss.Plan
import AtomicCss.Project.Circumstances
import AtomicCss.Project.StyleFile
/-!
# Style files that are compiled at the same time

All style files of a project are compiled at the same time, and share one store. Each file comes to
the store with one emission after the other, and between two emissions of a file there may be any
number of others. A file that is refused an emission has failed, and does not come again. The store
answers an emission that it accepts with the class that was emitted. So what a file compiles to, if
none is refused, is in the plan of its sheet, whatever the other files emit.
-/

namespace AtomicCss.Project

/-- Why a style file was not compiled. -/
inductive FileFailure where
  | unreadable (path : String) (error : FileError)
  | compile (error : CompileError)
deriving DecidableEq, Repr

/-- The message of a failure. It does not say what went wrong in reading a file. -/
def FileFailure.message (words : Json.ParseError → String) : FileFailure → String
  | unreadable path _ => "Cannot read " ++ path
  | compile error => error.message words

/-- What a style file compiles to, or why it does not. -/
abbrev FileResult := Except FileFailure CompiledModule

/-- A style file that is being compiled: the emissions that it still has to make, with what it
compiles to if all of them succeed, or its result. -/
inductive Task where
  | running (pending : List Emission) (compiled : CompiledModule)
  | ended (result : FileResult)

namespace Task

/-- A style file is read first, and its sheet is loaded. -/
def start (circumstances : Circumstances) (options : Options) (file : StyleFile) : Task :=
  match circumstances.fault? file.path with
  | some error => ended (.error (.unreadable file.path error))
  | none =>
    match Sheet.parse file.text with
    | .error error => ended (.error (.compile error))
    | .ok sheet => running (sheet.emissions options) (sheet.plan options (some file.path))

/-- What a task does when it comes to the store: it makes its next emission, or ends. -/
def step? (store : Store) : Task → Option (Store × Task)
  | ended _ => none
  | running [] compiled => some (store, ended (.ok compiled))
  | running (emission :: rest) compiled =>
    match store.insert emission with
    | .ok after => some (after, running rest compiled)
    | .error error => some (store, ended (.error (.compile (.integrity error))))

/-- Lets a task run to its end. -/
def finish (store : Store) : Task → Store × FileResult
  | ended result => (store, result)
  | running pending compiled =>
    match store.insertAll pending with
    | (after, .ok ()) => (after, .ok compiled)
    | (after, .error error) => (after, .error (.compile (.integrity error)))

/-- Lets tasks run to their ends, one after the other. -/
def finishAll (store : Store) : List Task → Store × List FileResult
  | [] => (store, [])
  | task :: rest =>
    let (store, result) := task.finish store
    let (store, results) := finishAll store rest
    (store, result :: results)

end Task

/-- The store of a project, and the tasks that share it. -/
structure Work where
  store : Store
  tasks : List Task

namespace Work

def start (circumstances : Circumstances) (options : Options) (files : List StyleFile) : Work :=
  ⟨∅, files.map (Task.start circumstances options)⟩

/-- The task with a number comes to the store. Nothing happens if there is none, or if it has
ended. -/
def turn (work : Work) (number : Nat) : Work :=
  match work.tasks[number]? with
  | none => work
  | some task =>
    match task.step? work.store with
    | none => work
    | some (store, next) => ⟨store, work.tasks.set number next⟩

/-- Lets tasks take turns, and then run to their ends. -/
def run (work : Work) (turns : List Nat) : Store × List FileResult :=
  let work := turns.foldl turn work
  Task.finishAll work.store work.tasks

end Work

/-- Compiles style files into one store. -/
def compileFiles (circumstances : Circumstances) (options : Options) (files : List StyleFile) :
    Store × List FileResult :=
  (Work.start circumstances options files).run circumstances.turns

end AtomicCss.Project
