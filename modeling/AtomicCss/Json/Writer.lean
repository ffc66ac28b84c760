import AtomicCss.Json.Basic
/-!
# Writing JSON

A value as text, on one line without blanks (`compact`) or with one member or item a line and two
spaces a level (`pretty`). Strings escape quotes, backslashes and the controls below the space, and
nothing else.
-/

namespace AtomicCss.Json

def escapedChar (c : Char) : List Char :=
  match c with
  | '"' => ['\\', '"']
  | '\\' => ['\\', '\\']
  | '\n' => ['\\', 'n']
  | '\r' => ['\\', 'r']
  | '\t' => ['\\', 't']
  | '\x08' => ['\\', 'b']
  | '\x0c' => ['\\', 'f']
  | c =>
    if c.toNat < 0x20 then
      ['\\', 'u', '0', '0', Nat.digitChar (c.toNat / 16), Nat.digitChar (c.toNat % 16)]
    else [c]

def stringText (s : String) : List Char :=
  '"' :: s.toList.flatMap escapedChar ++ ['"']

mutual

def compactText : Json → List Char
  | null => "null".toList
  | bool b => (if b then "true" else "false").toList
  | number n => n.text
  | string s => stringText s
  | array items => '[' :: compactItems items ++ [']']
  | object members => '\x7b' :: compactMembers members ++ ['\x7d']

def compactItems : List Json → List Char
  | [] => []
  | [item] => compactText item
  | item :: rest => compactText item ++ ',' :: compactItems rest

def compactMembers : List (String × Json) → List Char
  | [] => []
  | [(name, value)] => stringText name ++ ':' :: compactText value
  | (name, value) :: rest =>
    stringText name ++ ':' :: compactText value ++ ',' :: compactMembers rest

end

def compact (value : Json) : String :=
  String.ofList (compactText value)

/-- A line break and the indentation of a level. -/
def newline (level : Nat) : List Char :=
  '\n' :: List.replicate (2 * level) ' '

mutual

def prettyText (level : Nat) : Json → List Char
  | array items =>
    if items.isEmpty then ['[', ']']
    else '[' :: prettyItems (level + 1) items ++ newline level ++ [']']
  | object members =>
    if members.isEmpty then ['\x7b', '\x7d']
    else '\x7b' :: prettyMembers (level + 1) members ++ newline level ++ ['\x7d']
  | null => "null".toList
  | bool b => (if b then "true" else "false").toList
  | number n => n.text
  | string s => stringText s

def prettyItems (level : Nat) : List Json → List Char
  | [] => []
  | [item] => newline level ++ prettyText level item
  | item :: rest => newline level ++ prettyText level item ++ ',' :: prettyItems level rest

def prettyMembers (level : Nat) : List (String × Json) → List Char
  | [] => []
  | [(name, value)] => newline level ++ stringText name ++ ':' :: ' ' :: prettyText level value
  | (name, value) :: rest =>
    newline level ++ stringText name ++ ':' :: ' ' :: prettyText level value ++
      ',' :: prettyMembers level rest

end

def pretty (value : Json) : String :=
  String.ofList (prettyText 0 value)

end AtomicCss.Json
