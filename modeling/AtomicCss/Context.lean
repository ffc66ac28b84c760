import AtomicCss.Text.Blank
import AtomicCss.Text.Affix
import AtomicCss.Token.Lexer
/-!
# Contexts

Where a declaration applies: everywhere, under a pseudo selector, or inside an at-rule. An at-rule
is kept in a canonical spelling, so that spellings that differ in blanks only are one context.
-/

namespace AtomicCss

inductive Context where
  | plain
  | pseudo (selector : String)
  | atRule (condition : String)
deriving DecidableEq, Repr

namespace AtRule

/-- Whether the keyword of an at-rule ends in front of a character. -/
def endsKeyword (c : Char) : Bool :=
  isBlank c || c == '('

/-- Whether nothing stands between two tokens of a prelude even if a gap was written there. -/
def isTight (before after : Token) : Bool :=
  before.opens || before.kind == .colon || before.kind == .comma ||
    after.kind == .rightParen || after.kind == .colon || after.kind == .comma

/-- The tokens of a prelude, a gap between them as one space. The first argument is the token
before them. -/
def spellPrelude : Option Token → List Lexeme → List Char
  | _, [] => []
  | none, lexeme :: rest => lexeme.token.text ++ spellPrelude (some lexeme.token) rest
  | some before, lexeme :: rest =>
    let space := if lexeme.gap.isEmpty || isTight before lexeme.token then [] else [' ']
    space ++ lexeme.token.text ++ spellPrelude (some lexeme.token) rest

/-- The canonical spelling of an at-rule. If its prelude has no tokens to go by, blanks are only
collapsed. -/
def canonicalText (text : List Char) : List Char :=
  let text := trim text
  let keyword := text.takeWhile (!endsKeyword ·)
  match Token.lex (trim (text.dropWhile (!endsKeyword ·))) with
  | .error _ => List.intercalate [' '] (words text)
  | .ok [] => keyword
  | .ok lexemes => keyword ++ ' ' :: spellPrelude none lexemes

def canonical (text : String) : String :=
  String.ofList (canonicalText text.toList)

end AtRule

namespace Context

/-- The context that a conditional key opens; a key of a property opens none. -/
def ofKey? (key : String) : Option Context :=
  match trim key.toList with
  | ':' :: rest => some (.pseudo (String.ofList (':' :: rest)))
  | '@' :: rest => some (.atRule (AtRule.canonical (String.ofList ('@' :: rest))))
  | _ => none

/-- The at-rule of a condition in any spelling. -/
def ofCondition (condition : String) : Context :=
  .atRule (AtRule.canonical condition)

def text : Context → String
  | plain => ""
  | pseudo selector => selector
  | atRule condition => condition

def isPlain : Context → Bool
  | plain => true
  | _ => false

/-- The key of a property in a compiled object: `:hover_color` in a context, `color` without. -/
def decorate (context : Context) (key : String) : String :=
  match context with
  | plain => key
  | other => other.text ++ "_" ++ key

end Context

end AtomicCss
