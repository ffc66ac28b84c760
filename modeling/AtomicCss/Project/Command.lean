import AtomicCss.Project.Arguments
/-!
# Commands

What the program can be asked to do: to compile a project, or to lint a file or directory.
-/

namespace AtomicCss.Project

/-- How to compile a project. Values that are given replace those of the configuration. -/
structure CompileCommand where
  path : String
  toStdout : Bool
  outDir : Option String
  classPrefix : Option String
  devMarkers : Bool
deriving DecidableEq, Repr

/-- How diagnostics are shown. -/
inductive Format where
  | text
  | json
deriving DecidableEq, Repr

structure LintCommand where
  path : String
  format : Format
deriving DecidableEq, Repr

inductive Command where
  | compile (command : CompileCommand)
  | lint (command : LintCommand)
deriving DecidableEq, Repr

namespace Command

/-- The path that a command names. -/
def path : Command → String
  | compile command => command.path
  | lint command => command.path

def helpSpec : OptionSpec := ⟨"help", some 'h', false⟩
def verboseSpec : OptionSpec := ⟨"verbose", some 'v', false⟩
def versionSpec : OptionSpec := ⟨"version", some 'V', false⟩

/-- The options in front of a command. -/
def leadingSpecs : List OptionSpec :=
  [verboseSpec, helpSpec, versionSpec]

def compileSpecs : List OptionSpec :=
  [⟨"stdout", none, false⟩, ⟨"out-dir", some 'o', true⟩, ⟨"prefix", none, true⟩,
   ⟨"dev", none, false⟩, verboseSpec, helpSpec]

def lintSpecs : List OptionSpec :=
  [⟨"format", some 'f', true⟩, verboseSpec, helpSpec]

def parseCompile (arguments : List String) : Except Stop Command := do
  let read ← Arguments.empty.read compileSpecs ⟨1, true⟩ arguments
  return .compile
    { path := read.operands.headD "."
      toStdout := read.has "stdout"
      outDir := read.value? "out-dir"
      classPrefix := read.value? "prefix"
      devMarkers := read.has "dev" }

/-- Any format but `json` is text. A path must be given, and cannot be empty. -/
def parseLint (arguments : List String) : Except Stop Command := do
  let read ← Arguments.empty.read lintSpecs ⟨1, false⟩ arguments
  match read.operands with
  | [] => .error .usage
  | path :: _ => return .lint ⟨path, if read.value? "format" = some "json" then .json else .text⟩

/-- Asks for help, about a command if one is named. -/
def parseHelp : List String → Except Stop Command
  | [] => .error .help
  | [name] => .error (if name = "compile" ∨ name = "lint" ∨ name = "help" then .help else .usage)
  | _ => .error .usage

def parse (arguments : List String) : Except Stop Command := do
  match ← Arguments.empty.readLeading leadingSpecs arguments with
  | none => .error .usage
  | some (name, rest) =>
    if name = "compile" then parseCompile rest
    else if name = "lint" then parseLint rest
    else if name = "help" then parseHelp rest
    else .error .usage

end Command

end AtomicCss.Project
