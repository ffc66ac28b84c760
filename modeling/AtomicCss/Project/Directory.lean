import AtomicCss.Project.Path
/-!
# Directories

A tree of files as a value: the files with their texts, and the directories, by location. A location
lists the names on the way from the top. A path is followed name by name, through directories that
are there, so that `..` after a missing directory leads nowhere.
-/

namespace AtomicCss.Project

/-- The names that lead from the top to a file or directory. -/
abbrev Location := List String

structure Directory where
  files : List (Location × String)
  /-- Directories besides those that files stand in. -/
  directories : List Location

namespace Directory

def textAt? (directory : Directory) (location : Location) : Option String :=
  directory.files.lookup location

def isFile (directory : Directory) (location : Location) : Bool :=
  (directory.textAt? location).isSome

/-- The top is a directory, and so is everything on the way to a file. -/
def isDirectory (directory : Directory) (location : Location) : Bool :=
  location.isEmpty || directory.directories.any (location.isPrefixOf ·) ||
    directory.files.any fun file => location.isPrefixOf file.1 && location != file.1

/-! ## Paths -/

/-- The location that a name leads to from a directory. -/
def step (location : Location) (name : String) : Except FileError Location :=
  if Path.stays name then .ok location
  else if name = ".." then .ok location.dropLast
  else if Path.nameLimit < name.utf8ByteSize then .error .nameTooLong
  else .ok (location ++ [name])

/-- The location that a name leads to, from one which has to be a directory. -/
def enter (directory : Directory) (location : Location) (name : String) :
    Except FileError Location :=
  if directory.isDirectory location then step location name
  else .error (if directory.isFile location then .notADirectory else .notFound)

/-- Follows names from the top. What the last one leads to need not be there. -/
def follow (directory : Directory) (names : List String) : Except FileError Location :=
  names.foldlM directory.enter []

/-- The location of a path. -/
def locate (directory : Directory) (path : String) : Except FileError Location := do
  directory.follow (← Path.names path)

def hasFile (directory : Directory) (path : String) : Bool :=
  match directory.locate path with
  | .ok location => directory.isFile location
  | .error _ => false

def hasDirectory (directory : Directory) (path : String) : Bool :=
  match directory.locate path with
  | .ok location => directory.isDirectory location
  | .error _ => false

/-- Whether a path leads to something. -/
def contains (directory : Directory) (path : String) : Bool :=
  directory.hasFile path || directory.hasDirectory path

/-- The text of the file that a path leads to. -/
def read (directory : Directory) (path : String) : Except FileError String := do
  let location ← directory.locate path
  match directory.textAt? location with
  | some text => return text
  | none => .error (if directory.isDirectory location then .isADirectory else .notFound)

/-! ## Changes -/

/-- Sets the text of a file. -/
def put (directory : Directory) (location : Location) (text : String) : Directory :=
  { directory with
    files := (location, text) :: directory.files.filter fun file => file.1 != location }

/-- The directory in which a path names something, which has to be there, and the name. Slashes at
the end of the path do not count. -/
def entry (directory : Directory) (names : List String) :
    Except FileError (Location × String) :=
  match names.reverse.dropWhile (·.isEmpty) with
  | [] => .ok ([], "")
  | name :: before => do
    let folder ← directory.follow (before.reverse ++ [""])
    return (folder, name)

/-- Writes the file that a path leads to. A path that ends in a slash or in dots can only be that of
a directory. -/
def write (directory : Directory) (path text : String) : Except FileError Directory := do
  let names ← Path.names path
  let (folder, name) ← directory.entry names
  if !Path.isProper name || endsWith "/" path then .error .isADirectory
  else
    let location ← step folder name
    if directory.isDirectory location then .error .isADirectory
    else return directory.put location text

/-- Makes the directory that some names lead to. -/
def make (directory : Directory) (names : List String) : Except FileError Directory := do
  let (folder, name) ← directory.entry names
  let location ← step folder name
  if directory.isFile location || directory.isDirectory location then .error .alreadyThere
  else return { directory with directories := location :: directory.directories }

/-- Makes the directory that some names lead to unless it is there. -/
def ensure (directory : Directory) (names : List String) : Except FileError Directory :=
  match directory.make names with
  | .error .alreadyThere =>
    match directory.follow names with
    | .ok location =>
      if directory.isDirectory location then .ok directory else .error .alreadyThere
    | .error _ => .error .alreadyThere
  | result => result

/-- Makes the first directory in a list. What it has to stand in comes behind it, and is made only
if it is missing. -/
def makeWithin (directory : Directory) : List (List String) → Except FileError Directory
  | [] => .ok directory
  | names :: outer =>
    match directory.ensure names with
    | .error .notFound => do (← directory.makeWithin outer).ensure names
    | result => result

/-- Makes the directory of a path and those around it that are missing. -/
def makeDirectories (directory : Directory) (path : String) : Except FileError Directory := do
  let names ← Path.names path
  directory.makeWithin (names :: Path.around names)

/-! ## Search -/

/-- The order of a walk that visits the names of each directory in their order. -/
def walkOrder : Location → Location → Bool
  | [], _ => true
  | _ :: _, [] => false
  | a :: as, b :: bs => if a = b then walkOrder as bs else decide (a < b)

/-- The files at or below a location, in the order of a walk. Each comes with the names that lead to
it from there. -/
def filesBelow (directory : Directory) (base : Location) : List (Location × String) :=
  (directory.files.filterMap fun (location, text) =>
    (after? base location).map fun names => (names, text)).mergeSort
      fun a b => walkOrder a.1 b.1

end Directory

end AtomicCss.Project
