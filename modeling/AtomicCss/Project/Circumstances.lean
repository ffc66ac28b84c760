import AtomicCss.Json.Reader
import AtomicCss.Project.Directory
/-!
# Circumstances

What a run of the program depends on besides its arguments and the files that are there: which of
the files cannot be read, in which order the files that are compiled at the same time come to the
store, what is logged meanwhile, and how errors of JSON texts are worded. Nothing is assumed of any
of these.
-/

namespace AtomicCss.Project

/-- A wording of errors of JSON texts, for runs that are given no other one. -/
def plainWords (error : Json.ParseError) : String :=
  "invalid JSON at line " ++ toString error.line ++ " column " ++ toString error.column

structure Circumstances where
  /-- What goes wrong when the file at a path is read, if anything does. The file is there all the
  same, and whatever text a directory has for it is not looked at. -/
  fault? : String → Option FileError := fun _ => none
  /-- Which of the files that are compiled at the same time comes to the store next. Files that are
  not through when the list ends are compiled to their ends one after the other. -/
  turns : List Nat := []
  /-- What is logged to the standard error. A value that is left out has a line in it, and each line
  has its time. -/
  logged : String := ""
  /-- The words for what is wrong with a text that is read as JSON. -/
  explain : String → Json.ParseError → String := fun _ => plainWords
  /-- The words for what is wrong with a text that is read as a configuration. -/
  explainConfig : String → Json.ParseError → String := fun _ => plainWords

/-- The text of the file that a path leads to, if nothing goes wrong when it is read. -/
def Circumstances.read (circumstances : Circumstances) (directory : Directory) (path : String) :
    Except FileError String :=
  match circumstances.fault? path with
  | some error => .error error
  | none => directory.read path

end AtomicCss.Project
