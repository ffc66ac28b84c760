import AtomicCss.Text.Affix
/-!
# Pseudo selectors

The pseudo classes and elements that a style may use, and the order of precedence among the
classes of user actions.
-/

namespace AtomicCss.Pseudo

/-- Pseudo classes without arguments. -/
def classes : List String :=
  [":active", ":autofill", ":checked", ":default", ":disabled", ":empty", ":enabled",
   ":first-child", ":first-of-type", ":focus", ":focus-visible", ":focus-within", ":hover",
   ":in-range", ":indeterminate", ":invalid", ":last-child", ":last-of-type", ":link",
   ":only-child", ":only-of-type", ":optional", ":out-of-range", ":placeholder-shown",
   ":read-only", ":read-write", ":required", ":target", ":valid", ":visited"]

/-- Pseudo elements. -/
def elements : List String :=
  ["::after", "::backdrop", "::before", "::cue", "::file-selector-button", "::first-letter",
   "::first-line", "::marker", "::placeholder", "::selection", "::-moz-focus-inner",
   "::-webkit-inner-spin-button", "::-webkit-outer-spin-button", "::-webkit-scrollbar",
   "::-webkit-scrollbar-thumb", "::-webkit-scrollbar-track", "::-webkit-search-cancel-button",
   "::-webkit-search-decoration", "::-webkit-search-results-button",
   "::-webkit-search-results-decoration"]

/-- The beginnings of pseudo classes with arguments. -/
def functions : List String :=
  [":nth-child(", ":nth-last-child(", ":nth-of-type(", ":nth-last-of-type(", ":not(", ":is(",
   ":where(", ":has("]

/-- Classes of links and user actions; a later one wins over an earlier one. -/
def precedence : List String :=
  [":link", ":visited", ":hover", ":focus-within", ":focus", ":focus-visible", ":active"]

def isValid (pseudo : String) : Bool :=
  classes.contains pseudo || elements.contains pseudo ||
    functions.any fun start => beginsWith start pseudo && endsWith ")" pseudo

/-- The place of a pseudo selector in the order of precedence, from one; zero for those without. -/
def rank (pseudo : String) : Nat :=
  if pseudo ∈ precedence then precedence.idxOf pseudo + 1 else 0

end AtomicCss.Pseudo
