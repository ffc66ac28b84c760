/-!
# Tokens

What a value or the prelude of an at-rule is made of. A token keeps its kind and exactly the text
that it was read from; a lexeme is a token with the blanks in front of it.
-/

namespace AtomicCss

inductive Token.Kind where
  | number
  | dimension
  | hash
  | function
  | url
  | ident
  | doubleQuoted
  | singleQuoted
  | important
  | leftParen
  | rightParen
  | comma
  | slash
  | plus
  | minus
  | star
  | colon
  | delim
deriving DecidableEq, Repr

/-- A token. The text of a function is its name with the opening parenthesis, that of a string has
its quotes. -/
structure Token where
  kind : Token.Kind
  text : List Char
deriving DecidableEq, Repr

/-- A token and the gap between it and the token before. -/
structure Lexeme where
  gap : List Char
  token : Token
deriving DecidableEq, Repr

namespace Token

/-- Arithmetic signs, which get a blank on each side inside math functions. -/
def isOperator (token : Token) : Bool :=
  match token.kind with
  | .plus | .minus | .star | .slash => true
  | _ => false

/-- Tokens that open a group. -/
def opens (token : Token) : Bool :=
  token.kind == .function || token.kind == .leftParen

end Token

/-- The length of a text in UTF-8 bytes. -/
def byteLength : List Char → Nat
  | [] => 0
  | c :: cs => c.utf8Size + byteLength cs

/-- Kind, start and end of every token, in bytes from a given start. -/
def Lexeme.spans (start : Nat) : List Lexeme → List (Token.Kind × Nat × Nat)
  | [] => []
  | lexeme :: rest =>
    let first := start + byteLength lexeme.gap
    let last := first + byteLength lexeme.token.text
    (lexeme.token.kind, first, last) :: spans last rest

/-- The text that lexemes were read from. -/
def Lexeme.spell (lexemes : List Lexeme) : List Char :=
  lexemes.flatMap fun lexeme => lexeme.gap ++ lexeme.token.text

end AtomicCss
