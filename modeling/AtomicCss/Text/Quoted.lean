import AtomicCss.Text.Hidden
/-!
# Quoted text

A text between double quotes, on one line and with nothing hidden in it: quotes, backslashes, line
breaks, tabs and the null character as short escapes, other hidden characters by their number.
-/

namespace AtomicCss

/-- The digits of a number in base sixteen, in front of `rest`. -/
def hexDigitsOnto (n : Nat) (rest : List Char) : List Char :=
  if n < 16 then Nat.digitChar n :: rest
  else hexDigitsOnto (n / 16) (Nat.digitChar (n % 16) :: rest)
termination_by n

/-- The digits of a number in base sixteen, in lower case. -/
def hexDigits (n : Nat) : List Char :=
  hexDigitsOnto n []

/-- One character inside a quoted text. -/
def quotedChar (c : Char) : List Char :=
  match c with
  | '\x00' => ['\\', '0']
  | '\t' => ['\\', 't']
  | '\n' => ['\\', 'n']
  | '\r' => ['\\', 'r']
  | '"' => ['\\', '"']
  | '\\' => ['\\', '\\']
  | c => if isHidden c then ['\\', 'u', '\x7b'] ++ hexDigits c.toNat ++ ['\x7d'] else [c]

/-- The text between quotes. -/
def quoted (text : String) : String :=
  String.ofList ('"' :: text.toList.flatMap quotedChar ++ ['"'])

end AtomicCss
