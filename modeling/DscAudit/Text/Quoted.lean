import DscAudit.Text.Digit
import DscAudit.Text.Printable

/-!
# Quoted text

Inside messages a string is shown between quotes, on one line and with printable characters only.
The quotes are single ones unless the string holds a single quote and no double one.
-/

namespace DscAudit.Text.Quoted

/-- The quote character that a string is shown with. -/
def mark (s : List Char) : Char := if s.contains '\x27' && !s.contains '"' then '"' else '\x27'

/-- One character between the given quotes. -/
def escape (quote c : Char) : List Char :=
  if c == quote || c == '\\' then ['\\', c]
  else if c == '\t' then ['\\', 't']
  else if c == '\n' then ['\\', 'n']
  else if c == '\r' then ['\\', 'r']
  else if isPrintable c then [c]
  else if c.toNat < 0x100 then '\\' :: 'x' :: hexDigits 2 c.toNat
  else if c.toNat < 0x10000 then '\\' :: 'u' :: hexDigits 4 c.toNat
  else '\\' :: 'U' :: hexDigits 8 c.toNat

/-- The string between quotes. -/
def encode (s : List Char) : List Char :=
  mark s :: s.flatMap (escape (mark s)) ++ [mark s]

/-- The string between quotes. -/
def encodeString (s : String) : String := String.ofList (encode s.toList)

/-- One octet between the given quotes. -/
def escapeOctet (quote : Char) (octet : UInt8) : List Char :=
  let c := Char.ofNat octet.toNat
  if octet.toNat < 0x80 then escape quote c else '\\' :: 'x' :: hexDigits 2 octet.toNat

/-- A string of octets between quotes, marked by a letter in front. -/
def encodeOctets (octets : List UInt8) : List Char :=
  let shown := octets.map fun octet => Char.ofNat octet.toNat
  'b' :: mark shown :: octets.flatMap (escapeOctet (mark shown)) ++ [mark shown]

end DscAudit.Text.Quoted
