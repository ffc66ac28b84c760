import AtomicCss.Json.Document
/-!
# Reading JSON

The grammar of RFC 8259, strictly: no comments, no trailing commas, no leading zeros, no raw
control characters in strings. Each function reads one production off the front of a text and gives
what is left, which is shorter. An error is the length of what was left where reading stopped.
-/

namespace AtomicCss.Json

/-- What is left of a text after a part of it was read. -/
abbrev Shorter (cs : List Char) := { rest : List Char // rest.length < cs.length }

/-- The blanks of JSON. -/
def isJsonBlank (c : Char) : Bool :=
  c == ' ' || c == '\n' || c == '\t' || c == '\r'

def skipBlanks (cs : List Char) : List Char :=
  cs.dropWhile isJsonBlank

theorem length_dropWhile_le (p : Char → Bool) (cs : List Char) :
    (cs.dropWhile p).length ≤ cs.length :=
  (List.dropWhile_sublist p).length_le

/-- Skipping blanks leaves no more than there was. -/
theorem length_skipBlanks_le (cs : List Char) : (skipBlanks cs).length ≤ cs.length :=
  length_dropWhile_le _ cs

/-! ## Strings -/

def hexValue? (c : Char) : Option Nat :=
  if c.isDigit then some (c.toNat - '0'.toNat)
  else if 'a' ≤ c ∧ c ≤ 'f' then some (c.toNat - 'a'.toNat + 10)
  else if 'A' ≤ c ∧ c ≤ 'F' then some (c.toNat - 'A'.toNat + 10)
  else none

def codeUnit? (a b c d : Char) : Option Nat := do
  let a ← hexValue? a
  let b ← hexValue? b
  let c ← hexValue? c
  let d ← hexValue? d
  some (((a * 16 + b) * 16 + c) * 16 + d)

/-- The character that a one-letter escape stands for. -/
def escaped? : Char → Option Char
  | '"' => some '"'
  | '\\' => some '\\'
  | '/' => some '/'
  | 'b' => some '\x08'
  | 'f' => some '\x0c'
  | 'n' => some '\n'
  | 'r' => some '\r'
  | 't' => some '\t'
  | _ => none

/-- A string after its opening quote. -/
def readString : (cs : List Char) → Except Nat (List Piece × Shorter cs)
  | [] => .error 0
  | '"' :: rest => .ok ([], ⟨rest, by simp⟩)
  | '\\' :: 'u' :: a :: b :: c :: d :: rest =>
    match codeUnit? a b c d with
    | none => .error rest.length
    | some n =>
      match readString rest with
      | .error left => .error left
      | .ok (pieces, ⟨left, h⟩) => .ok (.unit n :: pieces, ⟨left, by simp; omega⟩)
  | '\\' :: e :: rest =>
    match escaped? e with
    | none => .error rest.length
    | some c =>
      match readString rest with
      | .error left => .error left
      | .ok (pieces, ⟨left, h⟩) => .ok (.char c :: pieces, ⟨left, by simp; omega⟩)
  | c :: rest =>
    if c.toNat < 0x20 ∨ c = '\\' then .error rest.length
    else
      match readString rest with
      | .error left => .error left
      | .ok (pieces, ⟨left, h⟩) => .ok (.char c :: pieces, ⟨left, by simp; omega⟩)

/-! ## Numbers -/

/-- At least one digit, and what follows the digits. -/
def readDigits (cs : List Char) : Except Nat (List Char × Shorter cs) :=
  match cs with
  | [] => .error 0
  | d :: rest =>
    if d.isDigit then
      .ok (d :: rest.takeWhile Char.isDigit,
        ⟨rest.dropWhile Char.isDigit, Nat.lt_succ_of_le (length_dropWhile_le _ rest)⟩)
    else .error rest.length

/-- The digits before the point: a single zero, or no zero in front. -/
def readWhole (cs : List Char) : Except Nat (List Char × Shorter cs) :=
  match readDigits cs with
  | .error left => .error left
  | .ok ('0' :: _ :: _, ⟨left, _⟩) => .error left.length
  | .ok result => .ok result

/-- A point and digits, if a point comes next. -/
def readFraction : (cs : List Char) →
    Except Nat (Option (List Char) × { rest : List Char // rest.length ≤ cs.length })
  | '.' :: rest =>
    match readDigits rest with
    | .error left => .error left
    | .ok (digits, ⟨left, h⟩) => .ok (some digits, ⟨left, by simp; omega⟩)
  | cs => .ok (none, ⟨cs, Nat.le_refl _⟩)

/-- A sign, if one comes next: whether it is a minus. -/
def readSign : (cs : List Char) → Bool × { rest : List Char // rest.length ≤ cs.length }
  | '-' :: rest => (true, ⟨rest, by simp⟩)
  | '+' :: rest => (false, ⟨rest, by simp⟩)
  | cs => (false, ⟨cs, Nat.le_refl _⟩)

/-- An exponent, if one comes next. -/
def readExponent (cs : List Char) :
    Except Nat (Option (Bool × List Char) × { rest : List Char // rest.length ≤ cs.length }) :=
  match cs with
  | [] => .ok (none, ⟨[], Nat.le_refl _⟩)
  | e :: rest =>
    if e = 'e' ∨ e = 'E' then
      let (negative, ⟨unsigned, h₁⟩) := readSign rest
      match readDigits unsigned with
      | .error left => .error left
      | .ok (digits, ⟨left, h₂⟩) => .ok (some (negative, digits), ⟨left, by simp; omega⟩)
    else .ok (none, ⟨e :: rest, Nat.le_refl _⟩)

/-- A number without its minus. -/
def readUnsigned (negative : Bool) (cs : List Char) : Except Nat (NumberText × Shorter cs) :=
  match readWhole cs with
  | .error left => .error left
  | .ok (whole, ⟨afterWhole, h₁⟩) =>
    match readFraction afterWhole with
    | .error left => .error left
    | .ok (fraction, ⟨afterFraction, h₂⟩) =>
      match readExponent afterFraction with
      | .error left => .error left
      | .ok (exponent, ⟨left, h₃⟩) =>
        .ok (⟨negative, whole, fraction, exponent⟩, ⟨left, by omega⟩)

def readNumber (cs : List Char) : Except Nat (NumberText × Shorter cs) :=
  match cs with
  | '-' :: rest =>
    match readUnsigned true rest with
    | .error left => .error left
    | .ok (text, ⟨left, h⟩) => .ok (text, ⟨left, Nat.lt_succ_of_lt h⟩)
  | cs => readUnsigned false cs

/-! ## Values -/

mutual

/-- A value, blanks in front of it skipped. -/
def readValue (cs : List Char) : Except Nat (Document × Shorter cs) :=
  have hskip := length_skipBlanks_le cs
  match hcs : skipBlanks cs with
  | [] => .error 0
  | 'n' :: 'u' :: 'l' :: 'l' :: rest =>
    .ok (.null, ⟨rest, by rw [hcs] at hskip; simp at hskip; omega⟩)
  | 't' :: 'r' :: 'u' :: 'e' :: rest =>
    .ok (.bool true, ⟨rest, by rw [hcs] at hskip; simp at hskip; omega⟩)
  | 'f' :: 'a' :: 'l' :: 's' :: 'e' :: rest =>
    .ok (.bool false, ⟨rest, by rw [hcs] at hskip; simp at hskip; omega⟩)
  | '"' :: rest =>
    match readString rest with
    | .error left => .error left
    | .ok (pieces, ⟨left, h⟩) =>
      .ok (.string pieces, ⟨left, by rw [hcs] at hskip; simp at hskip; omega⟩)
  | '[' :: rest =>
    have hrest : rest.length < cs.length := by rw [hcs] at hskip; simp at hskip; omega
    match hskipped : skipBlanks rest with
    | ']' :: left =>
      .ok (.array [], ⟨left, by
        have hle := length_skipBlanks_le rest
        rw [hskipped] at hle
        simp at hle
        omega⟩)
    | _ =>
      match readItems rest with
      | .error left => .error left
      | .ok (items, ⟨left, h⟩) => .ok (.array items, ⟨left, by omega⟩)
  | '\x7b' :: rest =>
    have hrest : rest.length < cs.length := by rw [hcs] at hskip; simp at hskip; omega
    match hskipped : skipBlanks rest with
    | '\x7d' :: left =>
      .ok (.object [], ⟨left, by
        have hle := length_skipBlanks_le rest
        rw [hskipped] at hle
        simp at hle
        omega⟩)
    | _ =>
      match readMembers rest with
      | .error left => .error left
      | .ok (members, ⟨left, h⟩) => .ok (.object members, ⟨left, by omega⟩)
  | c :: rest =>
    match readNumber (c :: rest) with
    | .error left => .error left
    | .ok (text, ⟨left, h⟩) => .ok (.number text, ⟨left, by rw [hcs] at hskip; omega⟩)
termination_by (cs.length, 0)

/-- The items of an array, at least one, and the closing bracket. -/
def readItems (cs : List Char) : Except Nat (List Document × Shorter cs) :=
  match readValue cs with
  | .error left => .error left
  | .ok (item, ⟨afterItem, hitem⟩) =>
    have hskip := length_skipBlanks_le afterItem
    match hcs : skipBlanks afterItem with
    | ']' :: left => .ok ([item], ⟨left, by rw [hcs] at hskip; simp at hskip; omega⟩)
    | ',' :: rest =>
      have hrest : rest.length < cs.length := by rw [hcs] at hskip; simp at hskip; omega
      match readItems rest with
      | .error left => .error left
      | .ok (items, ⟨left, h⟩) => .ok (item :: items, ⟨left, by omega⟩)
    | other => .error other.length
termination_by (cs.length, 1)

/-- The members of an object, at least one, and the closing brace. -/
def readMembers (cs : List Char) : Except Nat (List (List Piece × Document) × Shorter cs) :=
  have hskip := length_skipBlanks_le cs
  match hcs : skipBlanks cs with
  | '"' :: name =>
    match readString name with
    | .error left => .error left
    | .ok (key, ⟨afterKey, hkey⟩) =>
      have hcolon := length_skipBlanks_le afterKey
      match hkeyEnd : skipBlanks afterKey with
      | ':' :: afterColon =>
        have hafter : afterColon.length < cs.length := by
          rw [hcs] at hskip
          rw [hkeyEnd] at hcolon
          simp at hskip hcolon
          omega
        match readValue afterColon with
        | .error left => .error left
        | .ok (value, ⟨afterValue, hvalue⟩) =>
          have hend := length_skipBlanks_le afterValue
          match hvalueEnd : skipBlanks afterValue with
          | '\x7d' :: left =>
            .ok ([(key, value)], ⟨left, by rw [hvalueEnd] at hend; simp at hend; omega⟩)
          | ',' :: rest =>
            have hrest : rest.length < cs.length := by
              rw [hvalueEnd] at hend
              simp at hend
              omega
            match readMembers rest with
            | .error left => .error left
            | .ok (members, ⟨left, h⟩) => .ok ((key, value) :: members, ⟨left, by omega⟩)
          | other => .error other.length
      | other => .error other.length
  | other => .error other.length
termination_by (cs.length, 1)

end

/-! ## Texts -/

/-- Where a text stops being JSON: line and column, both from one. -/
structure ParseError where
  line : Nat
  column : Nat
deriving DecidableEq, Repr

/-- The place in a text where `left` characters are left. -/
def ParseError.at (cs : List Char) (left : Nat) : ParseError :=
  let before := cs.take (cs.length - left)
  { line := before.count '\n' + 1
    column := (before.reverse.takeWhile (· != '\n')).length }

/-- The document that a text is: one value with nothing but blanks around it. -/
def Document.parse (source : String) : Except ParseError Document :=
  let cs := source.toList
  match readValue cs with
  | .error left => .error (.at cs left)
  | .ok (document, ⟨rest, _⟩) =>
    match skipBlanks rest with
    | [] => .ok document
    | other => .error (.at cs other.length)

/-- The value that a text stands for. A document without a value is an error at its end. -/
def parse (source : String) : Except ParseError Json := do
  let document ← Document.parse source
  match document.toJson? with
  | some value => .ok value
  | none => .error (.at source.toList 0)

end AtomicCss.Json
