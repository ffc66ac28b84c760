import AtomicCss.Token.Lexer
import AtomicCss.Value.Dimension
/-!
# Printing lexemes

The canonical spelling of a value: blanks only where they matter, numbers and units in their
canonical form, function names in lower case, strings in double quotes.

Every open parenthesis is a group. A group is a math group if it is a call of `calc`, `min`, `max`
or `clamp`, perhaps with a vendor's mark, or a plain parenthesis directly inside a math group. The
open groups, innermost first, are kept as a list of flags: true for a math group.
-/

namespace AtomicCss

def mathFunctions : List String :=
  ["calc", "min", "max", "clamp"]

/-- The vendors' marks that a math function may carry. -/
def mathMarks : List (List Char) :=
  ["-webkit-".toList, "-moz-".toList]

/-- Whether a function token, its name with the parenthesis, is a math function. -/
def isMathFunction (text : List Char) : Bool :=
  let name := lowercase (text.filter (· != '('))
  let bare := (mathMarks.findSome? (after? · name)).getD name
  mathFunctions.contains (String.ofList bare)

/-- A single-quoted text in double quotes: a quote that was escaped needs that no longer, and a
double quote needs it now. -/
def requoteInner : List Char → List Char
  | '\\' :: '\'' :: rest => '\'' :: requoteInner rest
  | '\\' :: c :: rest => '\\' :: c :: requoteInner rest
  | '"' :: rest => '\\' :: '"' :: requoteInner rest
  | c :: rest => c :: requoteInner rest
  | [] => []

/-- A string token in double quotes. -/
def requote (text : List Char) : List Char :=
  '"' :: requoteInner (text.drop 1).dropLast ++ ['"']

/-- What stands between two tokens. `spaced` tells whether there was a gap, `inMath` whether the
innermost group is a math group. -/
def separator (before after : Token) (spaced inMath : Bool) : List Char :=
  if before.opens || before.kind == .comma || after.kind == .rightParen || after.kind == .comma ||
      after.kind == .important then []
  else if inMath && (before.isOperator || after.isOperator) then [' ']
  else if before.kind == .slash || after.kind == .slash then []
  else if spaced then [' '] else []

/-- The canonical spelling of a token inside the given groups. -/
def Setting.token (setting : Setting) (groups : List Bool) (token : Token) :
    Except Fault (List Char) :=
  match token.kind with
  | .function => .ok (lowercase token.text)
  | .number => return formatNumber (← readNumber token.text)
  | .dimension => setting.dimension (groups.any id) token.text
  | .singleQuoted => .ok (requote token.text)
  | .important => .ok ('!' :: Token.importantWord)
  | .rightParen => if groups.isEmpty then .error .unbalancedParenthesis else .ok token.text
  | _ => .ok token.text

/-- The groups that are open after a token. -/
def groupsAfter (groups : List Bool) (token : Token) : List Bool :=
  match token.kind with
  | .function => isMathFunction token.text :: groups
  | .leftParen => groups.headD false :: groups
  | .rightParen => groups.tail
  | _ => groups

/-- Prints lexemes behind the token `before`, inside the given groups. -/
def Setting.printAfter (setting : Setting) :
    List Bool → Option Token → List Lexeme → Except Fault (List Char)
  | groups, _, [] => if groups.isEmpty then .ok [] else .error .unclosedFunction
  | groups, before, lexeme :: rest => do
    let space :=
      match before with
      | none => []
      | some before => separator before lexeme.token (!lexeme.gap.isEmpty) (groups.headD false)
    let text ← setting.token groups lexeme.token
    let tail ← setting.printAfter (groupsAfter groups lexeme.token) (some lexeme.token) rest
    return space ++ text ++ tail

/-- The canonical spelling of lexemes. -/
def Setting.print (setting : Setting) (lexemes : List Lexeme) : Except Fault (List Char) :=
  setting.printAfter [] none lexemes

end AtomicCss
