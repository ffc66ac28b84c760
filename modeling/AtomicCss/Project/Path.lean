import AtomicCss.Text.Affix
/-!
# Paths

A path is text: names between slashes. An empty name and a dot stay where they are, two dots go back
to the directory around, and any other name goes on to what has that name.
-/

namespace AtomicCss.Project

/-- Why a path, or what it leads to, could not be used. -/
inductive FileError where
  | notFound
  | alreadyThere
  | notADirectory
  | isADirectory
  | nameTooLong
  | nullCharacter
  | notText
  /-- Any other error, in the words of the system. -/
  | system (message : String)
deriving DecidableEq, Repr

def FileError.message : FileError → String
  | notFound => "No such file or directory (os error 2)"
  | alreadyThere => "File exists (os error 17)"
  | notADirectory => "Not a directory (os error 20)"
  | isADirectory => "Is a directory (os error 21)"
  | nameTooLong => "File name too long (os error 36)"
  | nullCharacter => "file name contained an unexpected NUL byte"
  | notText => "stream did not contain valid UTF-8"
  | system message => message

namespace Path

/-- How many bytes a name may have. -/
def nameLimit : Nat := 255

/-- How many bytes a path may have. -/
def lengthLimit : Nat := 4095

/-- The names in a path, with dots and empty names. -/
def segments (path : String) : List String :=
  (splitSlashes path.toList).map String.ofList

/-- The names in a path that can be followed. -/
def names (path : String) : Except FileError (List String) :=
  if path.toList.contains '\x00' then .error .nullCharacter
  else if lengthLimit < path.utf8ByteSize then .error .nameTooLong
  else .ok (segments path)

/-- A path behind another one. An absolute path stands for itself. -/
def join (base path : String) : String :=
  if beginsWith "/" path || base.isEmpty then path
  else if endsWith "/" base then base ++ path
  else base ++ "/" ++ path

/-- Whether a name stays where it is. -/
def stays (name : String) : Bool :=
  name == "" || name == "."

/-- Whether a name is one that a file can have. -/
def isProper (name : String) : Bool :=
  !stays name && name != ".."

/-- The starts of a path, longest first, that do not end in a name that stays. The path is given
from its last name to its first. -/
def starts : List String → List (List String)
  | [] => []
  | name :: rest =>
    if stays name then starts rest else (name :: rest).reverse :: starts rest

/-- The paths around a path, from the inside out. -/
def around (names : List String) : List (List String) :=
  starts ((names.reverse.dropWhile stays).drop 1)

end Path

end AtomicCss.Project
