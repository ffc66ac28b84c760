import AtomicCss.Decimal.Basic
/-!
# Class names

A class is named by the CRC-32 checksum of the text that it stands for, written in base 36 behind a
mark that all names of a build share.
-/

namespace AtomicCss.ClassName

/-- The polynomial of CRC-32 with its bits reversed. -/
def polynomial : UInt32 := 0xEDB88320

/-- One bit of the checksum's division. -/
def shiftBit (register : UInt32) : UInt32 :=
  if register &&& 1 = 1 then (register >>> 1) ^^^ polynomial else register >>> 1

def feedByte (register : UInt32) (byte : UInt8) : UInt32 :=
  let r := register ^^^ byte.toUInt32
  shiftBit (shiftBit (shiftBit (shiftBit (shiftBit (shiftBit (shiftBit (shiftBit r)))))))

def checksumOfBytes (bytes : List UInt8) : UInt32 :=
  bytes.foldl feedByte 0xFFFFFFFF ^^^ 0xFFFFFFFF

/-- The checksum of the UTF-8 bytes of a text. -/
def checksum (text : String) : UInt32 :=
  checksumOfBytes text.toUTF8.toList

/-- The digit of a number below 36: `0` to `9`, then `a` to `z`. -/
def digitChar (d : Nat) : Char :=
  if d < 10 then Char.ofNat ('0'.toNat + d) else Char.ofNat ('a'.toNat + (d - 10))

/-- The digits of a number in base 36, in front of `rest`. -/
def base36Onto (n : Nat) (rest : List Char) : List Char :=
  if n < 36 then digitChar n :: rest
  else base36Onto (n / 36) (digitChar (n % 36) :: rest)
termination_by n

/-- The digits of a number in base 36, without leading zeros. -/
def base36 (n : Nat) : List Char :=
  base36Onto n []

/-- The name behind a mark of the class that stands for a text. -/
def ofText (mark text : String) : String :=
  mark ++ String.ofList (base36 (checksum text).toNat)

end AtomicCss.ClassName
