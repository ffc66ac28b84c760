import AtomicCss.Project.Program
/-!
# Command line

Runs the program on the files of the working directory and of the path that a command names, and
carries out on disk what the run did to them. Everything that is decided is decided by
`Project.run`.
-/

open AtomicCss.Project

/-- The names on the way to an absolute path. -/
def locationOf (path : String) : Location :=
  (Path.segments path).foldl (fun location name =>
    if Path.stays name then location
    else if name = ".." then location.dropLast
    else location ++ [name]) []

/-- What was found on disk: files and directories, and what went wrong when files were read. -/
structure Found where
  directory : Directory := ⟨[], []⟩
  faults : List (Location × FileError) := []

/-- Adds a file that cannot be read. -/
def Found.spoil (found : Found) (location : Location) (error : FileError) : Found :=
  ⟨found.directory.put location "", (location, error) :: found.faults⟩

/-- The fault of the file that a path leads to. -/
def Found.fault? (found : Found) (path : String) : Option FileError :=
  match found.directory.locate path with
  | .ok location => found.faults.lookup location
  | .error _ => none

/-- Adds what is at a path. -/
partial def load (found : Found) (entry : IO.FS.DirEntry) : IO Found := do
  let location := locationOf entry.path.toString
  let directory := found.directory
  if ← entry.path.isDir then
    if location ∈ directory.directories then return found
    (← entry.path.readDir).foldlM load
      { found with
        directory := { directory with directories := location :: directory.directories } }
  else if ← entry.path.pathExists then
    match ← (IO.FS.readBinFile entry.path).toBaseIO with
    | .error error => return found.spoil location (.system (toString error))
    | .ok bytes =>
      match String.fromUTF8? bytes with
      | none => return found.spoil location .notText
      | some text => return { found with directory := directory.put location text }
  else return found

/-- Makes the directories and writes the files that a run has made or changed. -/
def store (before after : Directory) : IO Unit := do
  for location in after.directories do
    if !before.isDirectory location then
      IO.FS.createDirAll ("/" ++ "/".intercalate location)
  for (location, text) in after.files do
    if before.textAt? location != some text then
      IO.FS.createDirAll ("/" ++ "/".intercalate location.dropLast)
      IO.FS.writeFile ("/" ++ "/".intercalate location) text

def main (arguments : List String) : IO UInt32 := do
  let current ← IO.currentDir
  let named := match Command.parse arguments with
    | .ok command => [command.path]
    | .error _ => []
  let found ← ("." :: named).foldlM (fun found path => load found ⟨current, path⟩) {}
  let result := run arguments current.toString found.directory { fault? := found.fault? }
  (← IO.getStdout).putStr result.stdout
  (← IO.getStderr).putStr result.stderr
  if let .report report := result then
    store found.directory report.directory
  return UInt32.ofNat result.exitCode
