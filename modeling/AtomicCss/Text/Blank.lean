/-!
# Blanks

The characters with the Unicode property White_Space, trimming them off a text, and splitting a
text into words at them.
-/

namespace AtomicCss

/-- The property White_Space: the five ASCII blanks and the vertical tab, the separators of the
space, line and paragraph kinds, and the next-line control. -/
def isBlank (c : Char) : Bool :=
  let n := c.toNat
  (0x09 ≤ n && n ≤ 0x0D) || n == 0x20 || n == 0x85 || n == 0xA0 || n == 0x1680 ||
    (0x2000 ≤ n && n ≤ 0x200A) || n == 0x2028 || n == 0x2029 || n == 0x202F || n == 0x205F ||
    n == 0x3000

/-- A text without the blanks at its end. -/
def trimEnd (cs : List Char) : List Char :=
  cs.foldr (fun c rest => if rest.isEmpty && isBlank c then [] else c :: rest) []

/-- A text without the blanks at its ends. -/
def trim (cs : List Char) : List Char :=
  trimEnd (cs.dropWhile isBlank)

/-- The longest pieces of a text without blanks. The first argument is the piece that is being
read, reversed. -/
def wordsFrom : List Char → List Char → List (List Char)
  | piece, [] => if piece.isEmpty then [] else [piece.reverse]
  | piece, c :: cs =>
    if isBlank c then
      if piece.isEmpty then wordsFrom [] cs else piece.reverse :: wordsFrom [] cs
    else wordsFrom (c :: piece) cs

def words (cs : List Char) : List (List Char) :=
  wordsFrom [] cs

end AtomicCss
