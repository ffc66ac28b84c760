import AtomicCss.Project.Command
import AtomicCss.Project.Report
import AtomicCss.Project.Task
/-!
# Compiling a project

All style files of a project are compiled into one store, and reported in the order of the search.
Output is written only if all of them compile: the stylesheet of the store, and the objects of each
file.
-/

namespace AtomicCss.Project

/-- A style file and what it compiled to. -/
structure CompiledFile where
  file : StyleFile
  compiled : CompiledModule

/-- What became of a style file: it compiled without errors, it has values that cannot be
normalized, or it was not compiled at all. -/
inductive FileOutcome where
  | compiled (compiled : CompiledModule)
  | rejected (errors : List ValueError)
  | failed (failure : FileFailure)

/-- How many errors the outcome counts for. -/
def FileOutcome.errorCount : FileOutcome → Nat
  | compiled _ => 0
  | rejected errors => errors.length
  | failed _ => 1

def FileOutcome.ofResult : FileResult → FileOutcome
  | .error failure => failed failure
  | .ok module => if module.errors.isEmpty then compiled module else rejected module.errors

/-- The files that compiled without errors. -/
def compiledFiles (outcomes : List (StyleFile × FileOutcome)) : List CompiledFile :=
  outcomes.filterMap fun
    | (file, .compiled compiled) => some ⟨file, compiled⟩
    | _ => none

def errorCount : List (StyleFile × FileOutcome) → Nat
  | [] => 0
  | (_, outcome) :: rest => outcome.errorCount + errorCount rest

/-- Reports what became of a file. -/
def Report.tell (circumstances : Circumstances) (report : Report)
    (outcome : StyleFile × FileOutcome) : Report :=
  let name := outcome.1.relative
  match outcome.2 with
  | .compiled _ => report.say ("  ✓ " ++ name)
  | .rejected errors =>
    (report.complain ("  ✗ " ++ name)).complainAll
      (errors.map fun error => "      " ++ error.message)
  | .failed failure =>
    report.complain
      ("  ✗ " ++ name ++ " - " ++ failure.message (circumstances.explain outcome.1.text))

/-- The text of the compiled objects of a file. -/
def CompiledFile.text (file : CompiledFile) : String :=
  file.compiled.toJson.pretty

/-- Shows the objects of a file behind its path. -/
def Report.show (report : Report) (file : CompiledFile) : Report :=
  report.sayAll ["// " ++ file.file.path, file.text]

/-- Writes a file into a directory that is made if it is missing. -/
def Directory.deposit (directory : Directory) (folder name text : String) :
    Except FileError Directory := do
  (← directory.makeDirectories folder).write (Path.join folder name) text

/-- Writes the objects of a file below the output directory. -/
def CompiledFile.deposit (out : String) (directory : Directory) (file : CompiledFile) :
    Except FileError Directory :=
  let inner := "/".intercalate file.file.names.dropLast
  directory.deposit (Path.join out inner) (file.file.stem ++ ".styles.json") file.text

/-- Makes changes one after the other up to the first that fails. -/
def Report.changeAll (report : Report) :
    List (Directory → Except FileError Directory) → Report
  | [] => report
  | change :: rest =>
    match change report.directory with
    | .error error => report.fail (.file error)
    | .ok directory => { report with directory }.changeAll rest

/-- The options of a configuration, with those of a command in their place. -/
def CompileCommand.options (command : CompileCommand) (config : Config) : Options :=
  { config.options with
    classPrefix := command.classPrefix.getD config.options.classPrefix
    devMarkers := command.devMarkers || config.options.devMarkers }

/-- Writes the stylesheet and the objects of all files, and says where. -/
def Report.deliver (report : Report) (out stylesheetName css : String)
    (files : List CompiledFile) : Report :=
  let report := report.changeAll
    ((fun directory => directory.deposit out stylesheetName css) ::
      files.map fun file directory => file.deposit out directory)
  match report.result with
  | .error _ => report
  | .ok () =>
    report.sayAll
      ["",
       "✅ Compiled " ++ toString files.length ++ " files into " ++
         Path.join out stylesheetName]

/-- Compiles the style files that were found in a project. -/
def CompileCommand.runOn (command : CompileCommand) (circumstances : Circumstances)
    (report : Report) (project : String) (config : Config) (files : List StyleFile) : Report :=
  let report := report.say ("🔨 Compiling " ++ toString files.length ++ " files")
  let (store, results) := compileFiles circumstances (command.options config) files
  let report := report.log circumstances.logged
  let outcomes := files.zip (results.map .ofResult)
  let report := outcomes.foldl (Report.tell circumstances) report
  if 0 < errorCount outcomes then report.fail (.compilation (errorCount outcomes))
  else
    let css := store.stylesheet.toCss
    let compiled := compiledFiles outcomes
    if command.toStdout then compiled.foldl Report.show (report.say css)
    else
      let out := Path.join project (command.outDir.getD config.outDir)
      report.deliver out config.stylesheetName css compiled

/-- Compiles the project of a command, which is run in the directory `current`. -/
def CompileCommand.run (command : CompileCommand) (circumstances : Circumstances)
    (current : String) (directory : Directory) : Report :=
  let report := Report.start directory
  let project := Path.join current command.path
  match Config.load circumstances directory project with
  | .error error => report.fail (.config error)
  | .ok config =>
    let source := Path.join project config.sourceDir
    if !directory.contains source then report.fail (.noSourceDirectory source)
    else
      match directory.styleFiles source with
      | [] => report.say "⚠️  No .style.json files found"
      | files => command.runOn circumstances report project config files

end AtomicCss.Project
