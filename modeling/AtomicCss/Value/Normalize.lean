import AtomicCss.Text.Blank
import AtomicCss.Value.Basic
import AtomicCss.Value.Error
import AtomicCss.Value.Printer
/-!
# Normalizing values

The canonical form of what an author wrote for a property, so that spellings that mean the same
become the same class.
-/

namespace AtomicCss

/-- A fault in a value, with the value and its property. -/
def Fault.inValue (fault : Fault) (property : String) (source : List Char) : ValueError :=
  let value := String.ofList source
  match fault with
  | .expectedNumber => .expectedNumber property value
  | .nonFiniteNumber => .nonFiniteNumber property
  | .unknownUnit unit => .unknownUnit property value unit
  | .unbalancedParenthesis => .unbalancedParenthesis property value
  | .unclosedFunction => .unclosedFunction property value

/-- The lexemes of a value. -/
def lexValue (property : String) (source : List Char) : Except ValueError (List Lexeme) :=
  match Token.lex source with
  | .ok lexemes => .ok lexemes
  | .error rest =>
    .error (.unexpectedInput property (String.ofList source) (Token.offsetOf source rest))

/-- The canonical spelling of a text as a value. -/
def Setting.printText (setting : Setting) (source : List Char) :
    Except ValueError (List Char) := do
  let lexemes ← lexValue setting.property source
  match setting.print lexemes with
  | .ok text => .ok text
  | .error fault => .error (fault.inValue setting.property source)

/-! ## Quoted properties -/

/-- Keywords that `content` and `quotes` take without quotes. -/
def contentKeywords : List String :=
  ["none", "normal", "auto", "open-quote", "close-quote", "no-open-quote", "no-close-quote"]

/-- Whether a text reads as tokens of which the first is a function or an address. -/
def startsWithFunction (text : List Char) : Bool :=
  match Token.lex text with
  | .ok (lexeme :: _) => lexeme.token.kind == .function || lexeme.token.kind == .url
  | _ => false

/-- A backslash in front of quotes and backslashes. -/
def escapeQuotes (cs : List Char) : List Char :=
  cs.flatMap fun c => if c = '"' ∨ c = '\\' then ['\\', c] else [c]

/-- Bare text in double quotes. What is quoted already, a keyword or a function is left alone. -/
def quoteContent (text : List Char) : List Char :=
  let trimmed := trim text
  let word := String.ofList trimmed
  let isQuotedAlready := trimmed.head? == some '"' || trimmed.head? == some '\''
  if !trimmed.isEmpty && (isQuotedAlready || contentKeywords.contains word ||
      Property.globalKeywords.contains word || startsWithFunction trimmed) then trimmed
  else '"' :: escapeQuotes trimmed ++ ['"']

/-! ## Properties that take numbers -/

/-- Whether the tokens of a value are a number, one of the keywords, or begin with a function. -/
def isNumeric (keywords : List String) (tokens : List Token) : Bool :=
  match tokens.filter (·.kind != .important) with
  | [] => false
  | token :: rest =>
    if token.kind = .function then true
    else if !rest.isEmpty then false
    else if token.kind = .number then true
    else if token.kind = .ident then
      let word := String.ofList (lowercase token.text)
      keywords.contains word || Property.globalKeywords.contains word
    else false

/-- Rejects a printed value that a property of numbers does not take. -/
def checkNumeric (property : String) (printed : List Char) : Except ValueError Unit :=
  match Property.numericKeywords? property with
  | none => .ok ()
  | some keywords => do
    let lexemes ← lexValue property printed
    if isNumeric keywords (lexemes.map (·.token)) then .ok ()
    else .error (.expectedNumber property (String.ofList printed))

/-! ## Scalars and values -/

/-- The text that an authored text stands for before it is printed. -/
def sourceOfText (property : String) (text : String) : List Char :=
  if Property.isQuoted property then quoteContent text.toList else trim text.toList

/-- The text that a finite number stands for before it is printed: with quotes, as milliseconds, or
as pixels. -/
def sourceOfNumber (property : String) (x : Binary64) : List Char :=
  if Property.isQuoted property then quoteContent (formatNumber x)
  else if Property.isTime property then formatNumber x ++ ['m', 's']
  else formatNumber x ++ ['p', 'x']

def Setting.normalizeSource (setting : Setting) (source : List Char) :
    Except ValueError String := do
  if source.isEmpty then .error (.emptyValue setting.property)
  else
    let printed ← setting.printText source
    checkNumeric setting.property printed
    return String.ofList printed

/-- The canonical text of one authored value. -/
def Setting.normalizeScalar (setting : Setting) : Scalar → Except ValueError String
  | .text text => setting.normalizeSource (sourceOfText setting.property text)
  | .number x =>
    if !x.isFinite then .error (.nonFiniteNumber setting.property)
    else if !Property.isQuoted setting.property && Property.isUnitless setting.property then
      .ok (String.ofList (formatNumber x))
    else setting.normalizeSource (sourceOfNumber setting.property x)

/-- The canonical form of an authored value; the first fallback that does not fit decides the
error. -/
def normalize (options : Options) (property : String) (raw : RawValue) :
    Except ValueError Value := do
  let texts ← raw.scalars.mapM (Setting.normalizeScalar ⟨property, options⟩)
  return ⟨texts⟩

end AtomicCss
