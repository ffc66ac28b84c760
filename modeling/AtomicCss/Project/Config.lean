import AtomicCss.Options.Loader
import AtomicCss.Project.Circumstances
/-!
# Configuration of a project

Where a project has its style files and where its output goes. A project without a configuration
file has the defaults.
-/

namespace AtomicCss.Project

structure Config where
  /-- The directory that is searched for style files. -/
  sourceDir : String := "src"
  /-- The directory for the stylesheet and the compiled objects. -/
  outDir : String := "dist"
  /-- The file of the stylesheet. -/
  stylesheetName : String := "styles.css"
  options : Options := {}
deriving DecidableEq

/-- Why a project has no configuration. -/
inductive ConfigError where
  /-- What is wrong with the text of the file, in words. -/
  | json (words : String)
  | file (error : FileError)
deriving DecidableEq, Repr

def ConfigError.message : ConfigError → String
  | json words => words
  | file error => error.message

namespace Config

/-- The name of the configuration file of a project. -/
def fileName : String := "quark.config.json"

open Json (RecordField)

/-- The fields of a configuration in JSON. -/
def fields : List (RecordField Config) :=
  [.ofText "srcDir" fun s config => { config with sourceDir := s },
   .ofText "outDir" fun s config => { config with outDir := s },
   .ofText "stylesheetName" fun s config => { config with stylesheetName := s },
   .ofRecord "compilerOptions" Options.fields {} fun o config => { config with options := o }]

/-- The configuration that a JSON text gives. -/
def parse (source : String) : Except Json.ParseError Config := do
  let document ← Json.Document.parse source
  match Json.readRecord? fields {} document with
  | some config => .ok config
  | none => .error (.at source.toList 0)

/-- The configuration of the project at a path. -/
def load (circumstances : Circumstances) (directory : Directory) (project : String) :
    Except ConfigError Config :=
  let path := Path.join project fileName
  if directory.contains path then
    match circumstances.read directory path with
    | .error error => .error (.file error)
    | .ok source =>
      (parse source).mapError fun error => .json (circumstances.explainConfig source error)
  else .ok {}

end Config

end AtomicCss.Project
