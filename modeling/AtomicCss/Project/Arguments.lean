/-!
# Arguments

Reading the arguments of a command: options by name or letter, with or without a value, and
operands.

* `--name value`, `--name=value`, `-n value`, `-nvalue` and `-n=value` give an option its value, and
  letters of options without a value may stand together;
* an argument that begins with a dash, unless it is a dash alone, is never the value of an option
  that stands in front of it;
* after `--` all arguments are operands;
* an option may be given once.
-/

namespace AtomicCss.Project

/-- An option that a command knows. -/
structure OptionSpec where
  name : String
  letter : Option Char
  takesValue : Bool

/-- The operands that a command takes: at most `limit` of them. -/
structure OperandSpec where
  limit : Nat
  /-- Whether an operand may be empty. -/
  mayBeEmpty : Bool

/-- Why arguments do not make a command: they are wrong, or they ask for something else. -/
inductive Stop where
  | usage
  | help
  | version
deriving DecidableEq, Repr

/-- Options with their values, which are empty for those that take none, and operands. -/
structure Arguments where
  given : List (String × String)
  operands : List String
deriving DecidableEq, Repr

namespace Arguments

def empty : Arguments := ⟨[], []⟩

def has (arguments : Arguments) (name : String) : Bool :=
  (arguments.given.lookup name).isSome

def value? (arguments : Arguments) (name : String) : Option String :=
  arguments.given.lookup name

/-- Records an option; the words for help and version stop the reading. -/
def give (arguments : Arguments) (name value : String) : Except Stop Arguments :=
  if name = "help" then .error .help
  else if name = "version" then .error .version
  else if arguments.has name then .error .usage
  else .ok { arguments with given := arguments.given ++ [(name, value)] }

/-- Whether an argument looks like an option. -/
def isOption (argument : String) : Bool :=
  match argument.toList with
  | '-' :: _ :: _ => true
  | _ => false

/-- What an argument with letters does: it is complete, or its last option still needs a value. -/
inductive Letters where
  | done (arguments : Arguments)
  | awaits (arguments : Arguments) (name : String)

/-- Reads the letters behind a dash. -/
def readLetters (specs : List OptionSpec) (arguments : Arguments) :
    List Char → Except Stop Letters
  | [] => .ok (.done arguments)
  | letter :: rest =>
    match specs.find? (·.letter == some letter) with
    | none => .error .usage
    | some spec =>
      if spec.takesValue then
        match rest with
        | [] => .ok (.awaits arguments spec.name)
        | '=' :: value => (arguments.give spec.name (String.ofList value)).map .done
        | value => (arguments.give spec.name (String.ofList value)).map .done
      else
        match arguments.give spec.name "" with
        | .error stop => .error stop
        | .ok arguments => readLetters specs arguments rest

/-- Reads a name behind two dashes, with its value if one is written behind it. -/
def readName (specs : List OptionSpec) (arguments : Arguments) (text : List Char) :
    Except Stop Letters :=
  let name := String.ofList (text.takeWhile (· != '='))
  match specs.find? (·.name == name), text.dropWhile (· != '=') with
  | none, _ => .error .usage
  | some spec, '=' :: value =>
    if spec.takesValue then (arguments.give spec.name (String.ofList value)).map .done
    else .error .usage
  | some spec, _ =>
    if spec.takesValue then .ok (.awaits arguments spec.name)
    else (arguments.give spec.name "").map .done

/-- Reads an argument that looks like an option. -/
def readOption (specs : List OptionSpec) (arguments : Arguments) (argument : String) :
    Except Stop Letters :=
  match argument.toList with
  | '-' :: '-' :: text => readName specs arguments text
  | '-' :: letters => readLetters specs arguments letters
  | _ => .error .usage

/-- Records operands. -/
def operate (arguments : Arguments) (spec : OperandSpec) (operands : List String) :
    Except Stop Arguments :=
  let all := arguments.operands ++ operands
  if spec.limit < all.length then .error .usage
  else if !spec.mayBeEmpty && operands.any (·.isEmpty) then .error .usage
  else .ok { arguments with operands := all }

/-- Reads arguments. -/
def read (specs : List OptionSpec) (operands : OperandSpec) (arguments : Arguments) :
    List String → Except Stop Arguments
  | [] => .ok arguments
  | argument :: rest =>
    if argument = "--" then arguments.operate operands rest
    else if !isOption argument then
      match arguments.operate operands [argument] with
      | .error stop => .error stop
      | .ok arguments => read specs operands arguments rest
    else
      match readOption specs arguments argument with
      | .error stop => .error stop
      | .ok (.done arguments) => read specs operands arguments rest
      | .ok (.awaits arguments name) =>
        match rest with
        | [] => .error .usage
        | value :: rest =>
          if isOption value then .error .usage
          else
            match arguments.give name value with
            | .error stop => .error stop
            | .ok arguments => read specs operands arguments rest

/-- Reads options up to the first operand, and gives that with the arguments behind it. -/
def readLeading (specs : List OptionSpec) (arguments : Arguments) :
    List String → Except Stop (Option (String × List String))
  | [] => .ok none
  | argument :: rest =>
    if argument = "--" then .error .usage
    else if !isOption argument then .ok (some (argument, rest))
    else
      match readOption specs arguments argument with
      | .ok (.done arguments) => readLeading specs arguments rest
      | .ok (.awaits _ _) => .error .usage
      | .error stop => .error stop

end Arguments

end AtomicCss.Project
