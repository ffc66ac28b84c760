/-!
# Beginnings and ends of texts

What a text begins or ends with, and what is left of it then. A path ends in the name of a file: its
last part between slashes, of which the part before the first dot is the stem.
-/

namespace AtomicCss

def beginsWith (start text : String) : Bool :=
  start.toList.isPrefixOf text.toList

def endsWith (ending text : String) : Bool :=
  ending.toList.isSuffixOf text.toList

/-- What follows `front` in a list that begins with it. -/
def after? [DecidableEq α] : List α → List α → Option (List α)
  | [], xs => some xs
  | _ :: _, [] => none
  | f :: front, x :: xs => if f = x then after? front xs else none

/-- What was behind a front makes up the list together with it. -/
theorem append_of_after? [DecidableEq α] {front xs rest : List α}
    (h : after? front xs = some rest) : front ++ rest = xs := by
  induction front generalizing xs with
  | nil => simpa [after?, eq_comm] using h
  | cons f front ih =>
    cases xs with
    | nil => simp [after?] at h
    | cons x xs =>
      simp only [after?] at h
      split at h
      · rename_i heq
        simp [ih h, heq]
      · simp at h

/-- A text with its ASCII letters in lower case. -/
def lowercase (cs : List Char) : List Char :=
  cs.map Char.toLower

/-! ## File names in paths -/

/-- The pieces of a text between slashes. -/
def splitSlashes : List Char → List (List Char)
  | [] => [[]]
  | c :: cs =>
    match splitSlashes cs with
    | [] => [[c]]
    | piece :: rest => if c = '/' then [] :: piece :: rest else (c :: piece) :: rest

/-- The last part of a path, doubled slashes and single dots left out. There is none if nothing is
left, or if the path ends in the parent of a directory. -/
def fileName? (path : List Char) : Option (List Char) :=
  match ((splitSlashes path).filter fun part => part ≠ [] ∧ part ≠ ['.']).getLast? with
  | none => none
  | some part => if part = ['.', '.'] then none else some part

/-- The name of a file up to its first dot. A path without a file name stands for itself. -/
def fileStem (path : String) : String :=
  let name := (fileName? path.toList).getD path.toList
  String.ofList (name.takeWhile (· != '.'))

end AtomicCss
