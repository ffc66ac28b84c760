import AtomicCss.Text.Affix
/-!
# Property names

A property has a CSS name, `margin-top` or `-webkit-appearance`, and a style key, `marginTop` or
`WebkitAppearance`. Authors may write either, or one of a few old aliases. `cssName` resolves what
was written to the CSS name, `styleKey` gives the key of a CSS name. A custom property, `--x`, is
its own name and key.
-/

namespace AtomicCss.Property

/-- Old names and the properties that they stand for. -/
def aliases : List (String × String) :=
  [("marginStart", "margin-inline-start"),
   ("marginEnd", "margin-inline-end"),
   ("paddingStart", "padding-inline-start"),
   ("paddingEnd", "padding-inline-end"),
   ("start", "inset-inline-start"),
   ("end", "inset-inline-end")]

def isCustom (property : String) : Bool :=
  beginsWith "--" property

/-- Each upper-case letter as a dash and the letter in lower case. -/
def hyphenate (cs : List Char) : List Char :=
  cs.flatMap fun c => if c.isUpper then ['-', c.toLower] else [c]

/-- A key without dashes in CSS spelling. A leading `ms` is a vendor's mark if a capital follows
it; the other marks are capitalized themselves. -/
def hyphenateKey (cs : List Char) : List Char :=
  match cs with
  | 'm' :: 's' :: c :: _ => if c.isUpper then '-' :: hyphenate cs else hyphenate cs
  | cs => hyphenate cs

/-- The CSS name of a property that is written as `key`. -/
def cssName (key : String) : String :=
  if isCustom key then key
  else
    match aliases.lookup key with
    | some property => property
    | none =>
      if '-' ∈ key.toList then String.ofList (lowercase key.toList)
      else String.ofList (hyphenateKey key.toList)

/-- Drops dashes; a character behind some is put in upper case. The flag tells whether a dash came
just before. -/
def camelCase (capital : Bool) : List Char → List Char
  | [] => []
  | c :: cs =>
    if c = '-' then camelCase true cs
    else (if capital then c.toUpper else c) :: camelCase false cs

/-- The style key of a CSS name. -/
def styleKey (property : String) : String :=
  if isCustom property then property
  else
    match property.toList with
    | '-' :: 'm' :: 's' :: '-' :: rest =>
      String.ofList (camelCase false ('m' :: 's' :: '-' :: rest))
    | cs => String.ofList (camelCase false cs)

end AtomicCss.Property
