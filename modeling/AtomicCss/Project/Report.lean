import AtomicCss.Project.Config
import AtomicCss.Text.Quoted
/-!
# Reports

What a run of the program leaves: what it has written to its two outputs, the directory, and how it
ended.
-/

namespace AtomicCss.Project

/-- Why a run failed. -/
inductive RunError where
  | config (error : ConfigError)
  | file (error : FileError)
  | noSourceDirectory (path : String)
  | noInput (path : String)
  | compilation (errors : Nat)
  | lint (errors : Nat)
deriving DecidableEq, Repr

def RunError.message : RunError → String
  | config error => error.message
  | file error => error.message
  | noSourceDirectory path => "Source directory does not exist: " ++ quoted path
  | noInput path => "Input path does not exist: " ++ path
  | compilation errors => "Compilation failed with " ++ toString errors ++ " errors"
  | lint errors => toString errors ++ " lint errors"

structure Report where
  stdout : String
  stderr : String
  directory : Directory
  result : Except RunError Unit

namespace Report

/-- The report of a run that has done nothing yet. -/
def start (directory : Directory) : Report :=
  ⟨"", "", directory, .ok ()⟩

/-- Writes a line to the standard output. -/
def say (report : Report) (line : String) : Report :=
  { report with stdout := report.stdout ++ line ++ "\n" }

/-- Writes lines to the standard output. -/
def sayAll (report : Report) (lines : List String) : Report :=
  lines.foldl say report

/-- Writes a line to the standard error. -/
def complain (report : Report) (line : String) : Report :=
  { report with stderr := report.stderr ++ line ++ "\n" }

/-- Writes lines to the standard error. -/
def complainAll (report : Report) (lines : List String) : Report :=
  lines.foldl complain report

/-- Writes what is logged to the standard error. -/
def log (report : Report) (text : String) : Report :=
  { report with stderr := report.stderr ++ text }

def fail (report : Report) (error : RunError) : Report :=
  { report with result := .error error }

/-- Ends a run: an error is shown between empty lines. -/
def finish (report : Report) : Report :=
  match report.result with
  | .ok () => report
  | .error error => report.complainAll ["", "Error: " ++ error.message, ""]

/-- The exit code of the program. -/
def exitCode (report : Report) : Nat :=
  match report.result with
  | .ok () => 0
  | .error _ => 1

end Report

end AtomicCss.Project
