import AtomicCss.Project.Directory
/-!
# Style files

The files of a project that hold style sheets, known by the end of their names.
-/

namespace AtomicCss.Project

/-- What the name of a style file ends in. -/
def styleEnding : String := ".style.json"

structure StyleFile where
  /-- The path that the search started from. -/
  base : String
  /-- The names that lead from there to the file; none if it is the file itself. -/
  names : List String
  text : String
deriving DecidableEq, Repr

namespace StyleFile

/-- The path relative to the start of the search. -/
def relative (file : StyleFile) : String :=
  "/".intercalate file.names

def path (file : StyleFile) : String :=
  if file.names.isEmpty then file.base else Path.join file.base file.relative

/-- The name of the file that a path leads to. -/
def nameOf (path : String) : String :=
  String.ofList ((fileName? path.toList).getD [])

def isStyle (file : StyleFile) : Bool :=
  endsWith styleEnding (nameOf file.path)

/-- The name without the ending of style files. -/
def stem (file : StyleFile) : String :=
  let name := nameOf file.path
  if endsWith styleEnding name then
    String.ofList (name.toList.take (name.length - styleEnding.length))
  else name

end StyleFile

/-- The style files at or below a path. -/
def Directory.styleFiles (directory : Directory) (base : String) : List StyleFile :=
  match directory.locate base with
  | .error _ => []
  | .ok location =>
    ((directory.filesBelow location).map fun (names, text) => ⟨base, names, text⟩).filter
      StyleFile.isStyle

end AtomicCss.Project
