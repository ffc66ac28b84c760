import AtomicCss.Project.Compile
import AtomicCss.Project.Lint
/-!
# The program

A run of the program as a function of its arguments, the directory in which it is run, the files
that are there, and the circumstances.
-/

namespace AtomicCss.Project

/-- What a run leaves: a report, or a text that answers arguments that are no command. -/
inductive Run where
  | report (report : Report)
  | stopped (stop : Stop)

def Command.run (command : Command) (circumstances : Circumstances) (current : String)
    (directory : Directory) : Report :=
  match command with
  | .compile command => command.run circumstances current directory
  | .lint command => command.run circumstances current directory

/-- Runs the program with arguments. -/
def run (arguments : List String) (current : String) (directory : Directory)
    (circumstances : Circumstances := {}) : Run :=
  match Command.parse arguments with
  | .error stop => .stopped stop
  | .ok command => .report (command.run circumstances current directory).finish

/-- The text that tells how the program is used. -/
def usageText : String :=
  "Usage: quark [-v] compile [PATH] [--stdout] [-o OUT_DIR] [--prefix PREFIX] [--dev]\n" ++
  "       quark [-v] lint INPUT [-f text|json]\n"

def versionText : String := "quark 0.1.0\n"

namespace Run

def exitCode : Run → Nat
  | report r => r.exitCode
  | stopped .usage => 2
  | stopped _ => 0

def stdout : Run → String
  | report r => r.stdout
  | stopped .usage => ""
  | stopped .help => usageText
  | stopped .version => versionText

def stderr : Run → String
  | report r => r.stderr
  | stopped .usage => usageText
  | stopped _ => ""

end Run

end AtomicCss.Project
