import AtomicCss.Json.Writer
import AtomicCss.Lint.Sheet
import AtomicCss.Project.Command
import AtomicCss.Project.Report
import AtomicCss.Project.StyleFile
/-!
# Linting files

A file is linted whatever its name is; in a directory, the style files are. The report shows the
diagnostics of each file that has some, and counts them all at its end.
-/

namespace AtomicCss.Project

/-- What linting a file gave: diagnostics, or why it could not be read as JSON. -/
abbrev LintOutcome := Except Json.ParseError (List Lint.Diagnostic)

/-- How many diagnostics there were, and of which levels. A file that could not be read counts as
one error. -/
structure Totals where
  diagnostics : Nat
  errors : Nat
  warnings : Nat
deriving DecidableEq, Repr

namespace Totals

def zero : Totals := ⟨0, 0, 0⟩

def add (a b : Totals) : Totals :=
  ⟨a.diagnostics + b.diagnostics, a.errors + b.errors, a.warnings + b.warnings⟩

def ofOutcome : LintOutcome → Totals
  | .error _ => ⟨1, 1, 0⟩
  | .ok diagnostics =>
    ⟨diagnostics.length, diagnostics.countP (·.isError), diagnostics.countP (·.isWarning)⟩

end Totals

/-- The lines that show a diagnostic. -/
def diagnosticLines (d : Lint.Diagnostic) : List String :=
  ("  " ++ d.level.shown ++ " [" ++ d.rule ++ "] " ++ d.path ++ " " ++ d.message) ::
    match d.suggestion with
    | some text => ["    💡 " ++ text]
    | none => []

/-- Reports what linting a file gave. -/
def Report.tellLint (circumstances : Circumstances) (format : Format) (report : Report)
    (file : StyleFile × LintOutcome) : Report :=
  match file.2 with
  | .error error =>
    report.complain
      ("✗ Failed to parse " ++ file.1.path ++ ": " ++ circumstances.explain file.1.text error)
  | .ok [] => report
  | .ok diagnostics =>
    match format with
    | .json => report.say (Json.array (diagnostics.map Lint.Diagnostic.toJson)).pretty
    | .text => report.sayAll (file.1.path :: diagnostics.flatMap diagnosticLines ++ [""])

/-- Reports the totals. -/
def Report.tellTotals (report : Report) (files : Nat) (totals : Totals) : Report :=
  let report := report.say
    ("✨ Done Checked " ++ toString files ++ " files, " ++ toString totals.diagnostics ++
      " diagnostics")
  let report :=
    if 0 < totals.warnings then report.say ("   Warnings: " ++ toString totals.warnings) else report
  if 0 < totals.errors then report.fail (.lint totals.errors) else report

/-- The files that a path stands for: a file itself, or the style files of a directory. -/
def Directory.lintedFiles? (directory : Directory) (path : String) : Option (List StyleFile) :=
  match directory.read path with
  | .ok text => some [⟨path, [], text⟩]
  | .error _ => if directory.hasDirectory path then some (directory.styleFiles path) else none

/-- Lints files one after the other, up to the first that cannot be read. -/
def LintCommand.runOn (command : LintCommand) (circumstances : Circumstances) (report : Report)
    (files : List StyleFile) : Report :=
  let readable := files.takeWhile fun file => (circumstances.fault? file.path).isNone
  let outcomes := readable.map fun file => (file, Lint.checkText Lint.defaultRules file.text)
  let report := outcomes.foldl (Report.tellLint circumstances command.format) report
  match files.findSome? fun file => circumstances.fault? file.path with
  | some error => report.fail (.file error)
  | none =>
    let totals := (outcomes.map fun outcome => Totals.ofOutcome outcome.2).foldl Totals.add .zero
    report.tellTotals files.length totals

/-- Lints the input of a command, which is run in the directory `current`. -/
def LintCommand.run (command : LintCommand) (circumstances : Circumstances) (current : String)
    (directory : Directory) : Report :=
  let report := Report.start directory
  let input := Path.join current command.path
  match directory.lintedFiles? input with
  | none => report.fail (.noInput input)
  | some files => command.runOn circumstances report files

end AtomicCss.Project
