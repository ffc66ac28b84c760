import AtomicCss.Project.Program
import AtomicCss.Proofs.Json.Objects
import AtomicCss.Proofs.Project.Turns
/-!
# Projects with faulty files

A file is faulty if it cannot be read, loaded or compiled, or if it compiles with values that cannot
be normalized. A project with a faulty file gets no output at all (`run_of_faulty`): the other files
are compiled and reported, but the directory stays as it is, and no stylesheet is shown. This is so
whatever the circumstances are. The order in which the files come to the store may decide which of
them are faulty, but not whether one is (`exists_faulty_run_iff`).
-/

namespace AtomicCss.Project

/-- That a file does not compile, or not without errors of values. -/
inductive IsFaulty : FileResult → Prop
  | failed {failure : FileFailure} : IsFaulty (.error failure)
  | rejected {compiled : CompiledModule} (h : compiled.errors ≠ []) : IsFaulty (.ok compiled)

/-- How many files do not compile. -/
def failureCount (results : List FileResult) : Nat :=
  results.countP fun result => !result.isOk

/-- The errors of values that the others have. -/
def recordedErrors (results : List FileResult) : List ValueError :=
  results.flatMap fun
    | .ok compiled => compiled.errors
    | .error _ => []

/-! ## Counting -/

/-- A file that does not compile counts as one error, and another one with its own errors. -/
theorem errorCount_ofResult (result : FileResult) :
    (FileOutcome.ofResult result).errorCount =
      failureCount [result] + (recordedErrors [result]).length := by
  cases result with
  | error error => rfl
  | ok compiled =>
    cases herrors : compiled.errors with
    | nil => simp [FileOutcome.ofResult, FileOutcome.errorCount, failureCount, recordedErrors,
        Except.isOk, Except.toBool, herrors]
    | cons error errors => simp [FileOutcome.ofResult, FileOutcome.errorCount, failureCount,
        recordedErrors, Except.isOk, Except.toBool, herrors]

/-- The errors of all files together. -/
theorem errorCount_zip {files : List StyleFile} {results : List FileResult}
    (h : results.length = files.length) :
    errorCount (files.zip (results.map .ofResult)) =
      failureCount results + (recordedErrors results).length := by
  induction files generalizing results with
  | nil =>
    obtain rfl := List.length_eq_zero_iff.1 h
    rfl
  | cons file files ih =>
    cases results with
    | nil => cases h
    | cons result results =>
      rw [List.map_cons, List.zip_cons_cons, errorCount, ih (Nat.succ.inj h), errorCount_ofResult]
      simp only [failureCount, recordedErrors, List.countP_cons, List.flatMap_cons,
        List.length_append, List.countP_nil, List.flatMap_nil, List.length_nil]
      omega

/-- The recorded errors are those of the files that compile. -/
theorem mem_recordedErrors {results : List FileResult}
    {error : ValueError} :
    error ∈ recordedErrors results ↔
      ∃ compiled, .ok compiled ∈ results ∧ error ∈ compiled.errors := by
  rw [recordedErrors, List.mem_flatMap]
  constructor
  · rintro ⟨_ | compiled, hmem, herror⟩
    · cases herror
    · exact ⟨compiled, hmem, herror⟩
  · rintro ⟨compiled, hmem, herror⟩
    exact ⟨_, hmem, herror⟩

/-- There is something to count just if a file is faulty. -/
theorem count_pos_iff (results : List FileResult) :
    0 < failureCount results + (recordedErrors results).length ↔
      ∃ result ∈ results, IsFaulty result := by
  rw [Nat.add_pos_iff_pos_or_pos, failureCount, List.countP_pos_iff,
    List.length_pos_iff_exists_mem]
  constructor
  · rintro (⟨error | compiled, hmem, hok⟩ | ⟨error, herror⟩)
    · exact ⟨_, hmem, .failed⟩
    · cases hok
    · rcases mem_recordedErrors.1 herror with ⟨compiled, hmem, herror⟩
      exact ⟨_, hmem, .rejected (List.ne_nil_of_mem herror)⟩
  · rintro ⟨_, hmem, ⟨⟩ | herrors⟩
    · exact .inl ⟨_, hmem, rfl⟩
    · rcases List.exists_mem_of_ne_nil _ herrors with ⟨error, herror⟩
      exact .inr ⟨error, mem_recordedErrors.2 ⟨_, hmem, herror⟩⟩

/-! ## Compiling -/

/-- Each file has its result. -/
theorem length_compileFiles (circumstances : Circumstances) (options : Options)
    (files : List StyleFile) :
    (compileFiles circumstances options files).2.length = files.length := by
  rw [compileFiles, Work.length_run, Work.start, List.length_map]

/-- If work is not sound, some file fails in whatever order the files come to the store. -/
theorem exists_faulty_of_not_isSound {work : Work} (h : ¬ work.IsSound) (turns : List Nat) :
    ∃ result ∈ (work.run turns).2, IsFaulty result := by
  have hbad := mt (Work.forall_isOk_run_iff work turns).1 h
  push Not at hbad
  rcases hbad with ⟨failure | compiled, hmem, hok⟩
  · exact ⟨_, hmem, .failed⟩
  · exact absurd rfl hok

/-- Whether some file is faulty does not depend on the order in which the files come to the store,
although it does which of them are, and how many errors there are. -/
theorem exists_faulty_run_iff (work : Work) (turns others : List Nat) :
    (∃ result ∈ (work.run turns).2, IsFaulty result) ↔
      ∃ result ∈ (work.run others).2, IsFaulty result := by
  by_cases hsound : work.IsSound
  · rw [Work.run_eq_of_isSound hsound, Work.run_eq_of_isSound hsound]
  · exact ⟨fun _ => exists_faulty_of_not_isSound hsound others,
      fun _ => exists_faulty_of_not_isSound hsound turns⟩

/-! ## Reporting -/

/-- Lines, each with its end. -/
def linesText (lines : List String) : String :=
  String.join (lines.map (· ++ "\n"))

theorem linesText_append (first second : List String) :
    linesText (first ++ second) = linesText first ++ linesText second := by
  rw [linesText, List.map_append, String.join_append, linesText, linesText]

/-- The lines that the standard output has for a file. -/
def saidOf : StyleFile × FileResult → List String
  | (file, .ok compiled) => if compiled.errors.isEmpty then ["  ✓ " ++ file.relative] else []
  | (_, .error _) => []

/-- The lines that the standard error has for a file. -/
def complaintsOf (circumstances : Circumstances) : StyleFile × FileResult → List String
  | (file, .ok compiled) =>
    if compiled.errors.isEmpty then []
    else ("  ✗ " ++ file.relative) :: compiled.errors.map fun error => "      " ++ error.message
  | (file, .error failure) =>
    ["  ✗ " ++ file.relative ++ " - " ++ failure.message (circumstances.explain file.text)]

namespace Report

variable (circumstances : Circumstances) (report : Report)

theorem complainAll_eq (lines : List String) :
    report.complainAll lines = { report with stderr := report.stderr ++ linesText lines } := by
  induction lines generalizing report with
  | nil => simp [complainAll, linesText]
  | cons line lines ih =>
    rw [complainAll, List.foldl_cons, ← complainAll, ih]
    simp [complain, linesText, String.append_assoc]

/-- Both outputs with more lines. -/
def extended (said complained : List String) : Report :=
  { report with
    stdout := report.stdout ++ linesText said
    stderr := report.stderr ++ linesText complained }

theorem extended_extended (said complained said' complained' : List String) :
    (report.extended said complained).extended said' complained' =
      report.extended (said ++ said') (complained ++ complained') := by
  simp only [extended, linesText_append, String.append_assoc]

/-- Telling what became of a file adds lines to the outputs, and nothing else. -/
theorem tell_ofResult (file : StyleFile) (result : FileResult) :
    report.tell circumstances (file, .ofResult result) =
      report.extended (saidOf (file, result)) (complaintsOf circumstances (file, result)) := by
  cases result with
  | error failure =>
    simp [tell, FileOutcome.ofResult, complain, extended, saidOf, complaintsOf, linesText,
      String.append_assoc]
  | ok compiled =>
    cases herrors : compiled.errors.isEmpty with
    | true =>
      simp [tell, FileOutcome.ofResult, say, extended, saidOf, complaintsOf, linesText, herrors,
        String.append_assoc]
    | false =>
      simp [tell, FileOutcome.ofResult, complain, complainAll_eq, extended, saidOf, complaintsOf,
        linesText, herrors, String.append_assoc]

/-- Telling what became of files adds lines to the outputs, and nothing else. -/
theorem foldl_tell {files : List StyleFile} {results : List FileResult}
    (h : results.length = files.length) :
    (files.zip (results.map .ofResult)).foldl (tell circumstances) report =
      report.extended ((files.zip results).flatMap saidOf)
        ((files.zip results).flatMap (complaintsOf circumstances)) := by
  induction files generalizing results report with
  | nil => simp [extended, linesText]
  | cons file files ih =>
    cases results with
    | nil => cases h
    | cons result results =>
      rw [List.map_cons, List.zip_cons_cons, List.foldl_cons, tell_ofResult, ih _ (Nat.succ.inj h),
        extended_extended, List.zip_cons_cons, List.flatMap_cons, List.flatMap_cons]

/-- The end of a run that fails with some lines said and complained. -/
theorem finish_fail_extended (said complained : List String) (error : RunError) :
    ((report.extended said complained).fail error).finish =
      (report.extended said (complained ++ ["", "Error: " ++ error.message, ""])).fail error := by
  simp only [finish, fail, complainAll_eq, extended, linesText_append, String.append_assoc]

end Report

/-! ## Runs -/

/-- The last message of a run with faulty files. -/
theorem message_compilation (count : Nat) :
    "Error: " ++ (RunError.compilation count).message =
      "Error: Compilation failed with " ++ toString count ++ " errors" := by
  have htext : "Error: Compilation failed with " = "Error: " ++ "Compilation failed with " := by
    decide
  have hmessage : (RunError.compilation count).message =
      "Compilation failed with " ++ toString count ++ " errors" := rfl
  rw [hmessage, htext, String.append_assoc, String.append_assoc, String.append_assoc]

/-- What a run over style files of which one is faulty leaves: what is told about the files, and the
number of errors. -/
theorem runOn_of_faulty (command : CompileCommand) (circumstances : Circumstances)
    (report : Report) (project : String) {config : Config} {files : List StyleFile}
    {results : List FileResult}
    (hresults : (compileFiles circumstances (command.options config) files).2 = results)
    (hfaulty : ∃ result ∈ results, IsFaulty result) :
    command.runOn circumstances report project config files =
      (((report.say ("🔨 Compiling " ++ toString files.length ++ " files")).log
        circumstances.logged).extended ((files.zip results).flatMap saidOf)
          ((files.zip results).flatMap (complaintsOf circumstances))).fail
            (.compilation (failureCount results + (recordedErrors results).length)) := by
  have hlength : results.length = files.length := by
    rw [← hresults, length_compileFiles]
  simp only [CompileCommand.runOn, hresults, errorCount_zip hlength,
    if_pos ((count_pos_iff _).2 hfaulty), Report.foldl_tell circumstances _ hlength]

/-- The report of such a run that started with nothing told. -/
theorem finish_runOn_of_faulty (command : CompileCommand) (circumstances : Circumstances)
    (directory : Directory) (project : String) {config : Config} {files : List StyleFile}
    {results : List FileResult}
    (hresults : (compileFiles circumstances (command.options config) files).2 = results)
    (hfaulty : ∃ result ∈ results, IsFaulty result) :
    let report := (command.runOn circumstances (.start directory) project config files).finish
    report.exitCode = 1 ∧ report.directory = directory ∧
      report.stdout = linesText (("🔨 Compiling " ++ toString files.length ++ " files") ::
        (files.zip results).flatMap saidOf) ∧
      report.stderr = circumstances.logged ++
        linesText ((files.zip results).flatMap (complaintsOf circumstances) ++
          ["", "Error: Compilation failed with " ++
            toString (failureCount results + (recordedErrors results).length) ++ " errors",
            ""]) := by
  rw [runOn_of_faulty _ _ _ _ hresults hfaulty, Report.finish_fail_extended]
  refine ⟨rfl, rfl, ?_, ?_⟩
  · simp [Report.fail, Report.extended, Report.log, Report.say, Report.start, linesText]
  · simp only [Report.fail, Report.extended, Report.log, Report.say, Report.start,
      String.empty_append, message_compilation, String.append_assoc]

/-- A project with style files is compiled from these. -/
theorem run_eq_runOn {command : CompileCommand} {circumstances : Circumstances} {current : String}
    {directory : Directory} {config : Config}
    (hconfig :
      Config.load circumstances directory (Path.join current command.path) = .ok config)
    (hsource :
      directory.contains (Path.join (Path.join current command.path) config.sourceDir) = true)
    (hfiles :
      directory.styleFiles (Path.join (Path.join current command.path) config.sourceDir) ≠ []) :
    command.run circumstances current directory =
      (command.runOn circumstances (.start directory) (Path.join current command.path) config
        (directory.styleFiles (Path.join (Path.join current command.path) config.sourceDir))) := by
  unfold CompileCommand.run
  dsimp only
  generalize Config.load circumstances directory (Path.join current command.path) = loaded at *
  subst hconfig
  simp only [hsource, Bool.not_true, Bool.false_eq_true, if_false]

/-- If one of the style files of a project does not compile, or compiles with errors of values, the
program exits with one and leaves the directory as it was. The standard output names the files that
compiled without errors, and shows no stylesheet and no objects. The standard error has, behind what
was logged, all errors, and counts a file that does not compile as one. This is so in all
circumstances: whichever files cannot be read, and in whatever order the files come to the store. -/
theorem run_of_faulty {arguments : List String} {current : String} {directory : Directory}
    {circumstances : Circumstances} {command : CompileCommand} {config : Config}
    (hparse : Command.parse arguments = .ok (.compile command))
    (hconfig :
      Config.load circumstances directory (Path.join current command.path) = .ok config)
    (hsource :
      directory.contains (Path.join (Path.join current command.path) config.sourceDir) = true) :
    let files :=
      directory.styleFiles (Path.join (Path.join current command.path) config.sourceDir)
    let results := (compileFiles circumstances (command.options config) files).2
    (∃ result ∈ results, IsFaulty result) →
      ∃ report, run arguments current directory circumstances = .report report ∧
        report.exitCode = 1 ∧ report.directory = directory ∧
        report.stdout = linesText (("🔨 Compiling " ++ toString files.length ++ " files") ::
          (files.zip results).flatMap saidOf) ∧
        report.stderr = circumstances.logged ++
          linesText ((files.zip results).flatMap (complaintsOf circumstances) ++
            ["", "Error: Compilation failed with " ++
              toString (failureCount results + (recordedErrors results).length) ++
              " errors", ""]) := by
  intro files results hfaulty
  have hfiles : files ≠ [] := by
    intro hnone
    rcases hfaulty with ⟨result, hmem, -⟩
    have hlength : results.length = files.length := length_compileFiles _ _ files
    rw [hnone, List.length_nil, List.length_eq_zero_iff] at hlength
    rw [hlength] at hmem
    cases hmem
  have hrun := run_eq_runOn hconfig hsource hfiles
  refine ⟨(command.run circumstances current directory).finish,
    by simp only [run, hparse, Command.run], ?_⟩
  rw [hrun]
  exact finish_runOn_of_faulty command circumstances directory _ rfl hfaulty

/-! ## A project with faulty files of all kinds -/

/-- Two sheets whose class names collide, in both pairs of their declarations. -/
def firstSheet : Sheet :=
  ⟨[⟨"a", [.single ⟨"height", .value (.single (.text "5855rem"))⟩]⟩,
    ⟨"b", [.single ⟨"gap", .value (.single (.text "30967rem"))⟩]⟩]⟩

def secondSheet : Sheet :=
  ⟨[⟨"a", [.single ⟨"height", .value (.single (.text "836s"))⟩]⟩,
    ⟨"b", [.single ⟨"top", .value (.single (.text "78%"))⟩]⟩]⟩

/-- A sheet with a value that can be normalized and one that cannot. -/
def partlyBadSheet : Sheet :=
  ⟨[⟨"c", [.single ⟨"color", .value (.single (.text "red"))⟩,
    .single ⟨"width", .value (.single (.text "10furlongs"))⟩]⟩]⟩

def firstText : String :=
  "\x7b\"a\":\x7b\"height\":\"5855rem\"\x7d,\"b\":\x7b\"gap\":\"30967rem\"\x7d\x7d"

def secondText : String :=
  "\x7b\"a\":\x7b\"height\":\"836s\"\x7d,\"b\":\x7b\"top\":\"78%\"\x7d\x7d"

def partlyBadText : String :=
  "\x7b\"c\":\x7b\"color\":\"red\",\"width\":\"10furlongs\"\x7d\x7d"

/-- A project with these three sheets, a list, an empty text and a file that is no text, and with a
stylesheet of an earlier run. -/
def mixedProject : Directory :=
  ⟨[(["dist", "styles.css"], ".x1\x7bcolor:blue\x7d"), (["src", "a.style.json"], firstText),
    (["src", "b.style.json"], secondText), (["src", "list.style.json"], "[]"),
    (["src", "lost.style.json"], ""), (["src", "part.style.json"], partlyBadText),
    (["src", "sealed.style.json"], "")], []⟩

def mixedFiles : List StyleFile :=
  [⟨"/./src", ["a.style.json"], firstText⟩, ⟨"/./src", ["b.style.json"], secondText⟩,
    ⟨"/./src", ["list.style.json"], "[]"⟩, ⟨"/./src", ["lost.style.json"], ""⟩,
    ⟨"/./src", ["part.style.json"], partlyBadText⟩, ⟨"/./src", ["sealed.style.json"], ""⟩]

/-- A run of the project in which the files come to the store in an order that is given. -/
def mixedRun (turns : List Nat) : Circumstances where
  fault? path := if path = "/./src/sealed.style.json" then some .notText else none
  turns := turns
  logged := "2026-01-02T03:04:05.678901Z  WARN " ++
    "compile\x7bfile=\"/./src/part.style.json\" namespaces=1\x7d: Skipping declaration " ++
    "namespace=c property=width " ++
    "error=Unknown unit 'furlongs' in '10furlongs' for property 'width'\n"
  explain _ _ := "EOF while parsing a value at line 1 column 0"

theorem styleFiles_mixedProject :
    mixedProject.styleFiles (Path.join (Path.join "/" ".") "src") = mixedFiles := by
  have hbelow : mixedProject.filesBelow ["src"] =
      mixedFiles.map fun file => (file.names, file.text) :=
    List.mergeSort_of_pairwise (by decide)
  have hlocate : mixedProject.locate (Path.join (Path.join "/" ".") "src") = .ok ["src"] := rfl
  simp only [Directory.styleFiles, hlocate, hbelow]
  decide +kernel

theorem parse_firstText : Sheet.parse firstText = .ok firstSheet := by
  have ha := Json.isTextOf_field "height".toList "5855rem".toList (by decide) (by decide)
  have hb := Json.isTextOf_field "gap".toList "30967rem".toList (by decide) (by decide)
  have hsheet := Json.isTextOf_object
    (.more "a".toList (by decide) ha (.last "b".toList (by decide) hb))
  have hparse : Json.parse firstText = .ok (.object
      [("a", .object [("height", .string "5855rem")]),
        ("b", .object [("gap", .string "30967rem")])]) :=
    Json.parse_of_isTextOf hsheet (by decide) rfl
  rw [Sheet.parse, hparse]
  rfl

theorem parse_secondText : Sheet.parse secondText = .ok secondSheet := by
  have ha := Json.isTextOf_field "height".toList "836s".toList (by decide) (by decide)
  have hb := Json.isTextOf_field "top".toList "78%".toList (by decide) (by decide)
  have hsheet := Json.isTextOf_object
    (.more "a".toList (by decide) ha (.last "b".toList (by decide) hb))
  have hparse : Json.parse secondText = .ok (.object
      [("a", .object [("height", .string "836s")]), ("b", .object [("top", .string "78%")])]) :=
    Json.parse_of_isTextOf hsheet (by decide) rfl
  rw [Sheet.parse, hparse]
  rfl

theorem parse_partlyBadText : Sheet.parse partlyBadText = .ok partlyBadSheet := by
  have hcolor := Json.isTextOf_string "red".toList (by decide)
  have hwidth := Json.isTextOf_string "10furlongs".toList (by decide)
  have hc := Json.isTextOf_object
    (.more "color".toList (by decide) hcolor (.last "width".toList (by decide) hwidth))
  have hsheet := Json.isTextOf_object (.last "c".toList (by decide) hc)
  have hparse : Json.parse partlyBadText = .ok (.object
      [("c", .object [("color", .string "red"), ("width", .string "10furlongs")])]) :=
    Json.parse_of_isTextOf hsheet (by decide) rfl
  rw [Sheet.parse, hparse]
  rfl

/-- The files as tasks: three sheets, and three files that cannot be loaded. -/
def mixedWork : Work :=
  ⟨∅, [.running (firstSheet.emissions {}) (firstSheet.plan {} (some "/./src/a.style.json")),
    .running (secondSheet.emissions {}) (secondSheet.plan {} (some "/./src/b.style.json")),
    .ended (.error (.compile (.sheet .nonObjectSheet))),
    .ended (.error (.compile (.json ⟨1, 0⟩))),
    .running (partlyBadSheet.emissions {})
      (partlyBadSheet.plan {} (some "/./src/part.style.json")),
    .ended (.error (.unreadable "/./src/sealed.style.json" .notText))]⟩

/-- Three of the files are compiled, and three have failed before the first one emits anything. -/
theorem start_mixedFiles (turns : List Nat) :
    Work.start (mixedRun turns) {} mixedFiles = mixedWork := by
  have hlist : Sheet.parse "[]" = .error (.sheet .nonObjectSheet) := by
    have hparse : Json.parse "[]" = .ok (.array []) := by cbv
    rw [Sheet.parse, hparse]
    rfl
  have hlost : Sheet.parse "" = .error (.json ⟨1, 0⟩) := by
    have hparse : Json.parse "" = .error ⟨1, 0⟩ := by cbv
    rw [Sheet.parse, hparse]
    rfl
  have hpaths : mixedFiles.map (·.path) =
      ["/./src/a.style.json", "/./src/b.style.json", "/./src/list.style.json",
        "/./src/lost.style.json", "/./src/part.style.json", "/./src/sealed.style.json"] := by
    decide +kernel
  simp only [mixedFiles, List.map_cons, List.map_nil, List.cons.injEq, and_true] at hpaths
  simp only [Work.start, mixedFiles, List.map_cons, List.map_nil, Task.start, hpaths,
    parse_firstText, parse_secondText, parse_partlyBadText, hlist, hlost]
  rfl

/-- If the first file is through before the second one comes to the store, only the second one
collides. If they take turns, both do. Neither run writes anything, and each counts its errors. -/
theorem run_of_faulty_mixedProject :
    (∃ report, run ["compile"] "/" mixedProject (mixedRun []) = .report report ∧
      report.exitCode = 1 ∧ report.directory = mixedProject ∧
      report.stdout = "🔨 Compiling 6 files\n  ✓ a.style.json\n" ∧
      report.stderr = (mixedRun []).logged ++
        "  ✗ b.style.json - Class name 'xtuoih0' was generated for two different declarations: " ++
        "gap 30967rem and height 836s\n" ++
        "  ✗ list.style.json - A style sheet must be an object of namespaces.\n" ++
        "  ✗ lost.style.json - Invalid style JSON: EOF while parsing a value at line 1 column 0\n" ++
        "  ✗ part.style.json\n" ++
        "      Unknown unit 'furlongs' in '10furlongs' for property 'width'\n" ++
        "  ✗ sealed.style.json - Cannot read /./src/sealed.style.json\n" ++
        "\nError: Compilation failed with 5 errors\n\n") ∧
    ∃ report, run ["compile"] "/" mixedProject (mixedRun [0, 1]) = .report report ∧
      report.exitCode = 1 ∧ report.directory = mixedProject ∧
      report.stdout = "🔨 Compiling 6 files\n" ∧
      report.stderr = (mixedRun [0, 1]).logged ++
        "  ✗ a.style.json - Class name 'xtuoih0' was generated for two different declarations: " ++
        "height 836s and gap 30967rem\n" ++
        "  ✗ b.style.json - Class name 'x1c1qwvq' was generated for two different declarations: " ++
        "height 5855rem and top 78%\n" ++
        "  ✗ list.style.json - A style sheet must be an object of namespaces.\n" ++
        "  ✗ lost.style.json - Invalid style JSON: EOF while parsing a value at line 1 column 0\n" ++
        "  ✗ part.style.json\n" ++
        "      Unknown unit 'furlongs' in '10furlongs' for property 'width'\n" ++
        "  ✗ sealed.style.json - Cannot read /./src/sealed.style.json\n" ++
        "\nError: Compilation failed with 6 errors\n\n" := by
  have hparse :
      Command.parse ["compile"] = .ok (.compile ⟨".", false, none, none, false⟩) := rfl
  have hconfig : ∀ turns, Config.load (mixedRun turns) mixedProject (Path.join "/" ".") = .ok {} :=
    fun _ => rfl
  have hsource : mixedProject.contains (Path.join (Path.join "/" ".") "src") = true := rfl
  have hoptions : CompileCommand.options ⟨".", false, none, none, false⟩ {} = {} := rfl
  have hsound : ¬ mixedWork.IsSound := Work.not_isSound_of_failed _ _ [_, _] [_, _, _]
  have hfaulty := exists_faulty_of_not_isSound hsound
  have hfirst := run_of_faulty hparse (hconfig []) hsource
  have hturns := run_of_faulty hparse (hconfig [0, 1]) hsource
  simp only [styleFiles_mixedProject, compileFiles, hoptions, start_mixedFiles] at hfirst hturns
  constructor
  · rcases hfirst (hfaulty _) with ⟨report, hreport, hexit, hdirectory, hout, herr⟩
    refine ⟨report, hreport, hexit, hdirectory, ?_, ?_⟩
    · rw [hout]
      decide +kernel
    · rw [herr]
      decide +kernel
  · rcases hturns (hfaulty _) with ⟨report, hreport, hexit, hdirectory, hout, herr⟩
    refine ⟨report, hreport, hexit, hdirectory, ?_, ?_⟩
    · rw [hout]
      decide +kernel
    · rw [herr]
      decide +kernel

end AtomicCss.Project
