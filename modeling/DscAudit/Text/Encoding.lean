import DscAudit.Text.Lines

/-!
# Encoded text

Octets are read as text in UTF-8, UTF-16 or UTF-32.  Lenient reading puts the replacement character
for each part that no character encodes: in UTF-8 for each longest run of octets that starts some
character's encoding but does not finish it, or for a single octet that starts none; strict reading
refuses such text.
-/

namespace DscAudit.Text

/-- The content of a file. -/
abbrev Octets := List UInt8

/-- What stands for undecodable octets. -/
def replacement : Char := '\uFFFD'

namespace Utf8

/-- A character whose first octets are read: the octets still owed, the bounds of the next one, and
the value of the bits so far. -/
structure Pending where
  owed : Nat
  low : Nat
  high : Nat
  bits : Nat

/-- What a first octet begins: a whole character, a longer one, or none. -/
inductive Start where
  | whole (c : Char)
  | longer (pending : Pending)
  | invalid

/-- The shortest encodings of the code points that are characters, and no others, are accepted. -/
def start (octet : Nat) : Start :=
  if octet < 0x80 then .whole (Char.ofNat octet)
  else if 0xC2 ≤ octet ∧ octet ≤ 0xDF then .longer ⟨1, 0x80, 0xBF, octet - 0xC0⟩
  else if octet = 0xE0 then .longer ⟨2, 0xA0, 0xBF, 0⟩
  else if octet = 0xED then .longer ⟨2, 0x80, 0x9F, 0x0D⟩
  else if 0xE1 ≤ octet ∧ octet ≤ 0xEF then .longer ⟨2, 0x80, 0xBF, octet - 0xE0⟩
  else if octet = 0xF0 then .longer ⟨3, 0x90, 0xBF, 0⟩
  else if 0xF1 ≤ octet ∧ octet ≤ 0xF3 then .longer ⟨3, 0x80, 0xBF, octet - 0xF0⟩
  else if octet = 0xF4 then .longer ⟨3, 0x80, 0x8F, 4⟩
  else .invalid

/-- What the text is so far and what is pending when an octet comes at the start of a character.
The text is a list of characters, with `none` for an undecodable part. -/
def begin (octet : Nat) : List (Option Char) × Option Pending :=
  match start octet with
  | .whole c => ([some c], none)
  | .longer pending => ([], some pending)
  | .invalid => ([none], none)

/-- The characters of some octets after the first octets of a pending one. -/
def decodeFrom : Option Pending → Octets → List (Option Char)
  | none, [] => []
  | some _, [] => [none]
  | none, octet :: rest =>
    let (found, pending) := begin octet.toNat
    found ++ decodeFrom pending rest
  | some p, octet :: rest =>
    if p.low ≤ octet.toNat ∧ octet.toNat ≤ p.high then
      let bits := 64 * p.bits + (octet.toNat - 0x80)
      if p.owed = 1 then some (Char.ofNat bits) :: decodeFrom none rest
      else decodeFrom (some ⟨p.owed - 1, 0x80, 0xBF, bits⟩) rest
    else
      let (found, pending) := begin octet.toNat
      none :: found ++ decodeFrom pending rest

/-- The characters that octets encode, with `none` for each undecodable part. -/
def decode (octets : Octets) : List (Option Char) := decodeFrom none octets

/-- The text, with the replacement character for each undecodable part. -/
def lenient (octets : Octets) : List Char := (decode octets).map (·.getD replacement)

/-- The text, if every octet belongs to a character. -/
def strict? (octets : Octets) : Option (List Char) := (decode octets).mapM id

/-- The octets of a character. -/
def encodeChar (c : Char) : Octets :=
  let n := c.toNat
  if n < 0x80 then [n.toUInt8]
  else if n < 0x800 then [(0xC0 + n / 64).toUInt8, (0x80 + n % 64).toUInt8]
  else if n < 0x10000 then
    [(0xE0 + n / 4096).toUInt8, (0x80 + n / 64 % 64).toUInt8, (0x80 + n % 64).toUInt8]
  else
    [(0xF0 + n / 262144).toUInt8, (0x80 + n / 4096 % 64).toUInt8, (0x80 + n / 64 % 64).toUInt8,
      (0x80 + n % 64).toUInt8]

/-- The octets of a text. -/
def encode (s : List Char) : Octets := s.flatMap encodeChar

end Utf8

/-- The order in which the octets of a code unit are written. -/
inductive ByteOrder where
  | little
  | big
  deriving DecidableEq

/-- The number that octets write in the given order. -/
def ByteOrder.value (order : ByteOrder) (octets : Octets) : Nat :=
  match order with
  | .little => octets.foldr (fun octet value => 256 * value + octet.toNat) 0
  | .big => octets.foldl (fun value octet => 256 * value + octet.toNat) 0

/-- A code unit of `width` octets in the given order. -/
def ByteOrder.unit (order : ByteOrder) (width value : Nat) : Octets :=
  let little := (List.range width).map fun i => (value / Nat.pow 256 i % 256).toUInt8
  match order with
  | .little => little
  | .big => little.reverse

namespace Utf16

def isHighSurrogate (unit : Nat) : Bool := 0xD800 ≤ unit && unit < 0xDC00

def isLowSurrogate (unit : Nat) : Bool := 0xDC00 ≤ unit && unit < 0xE000

/-- The text, where a surrogate outside a pair, and what is left at the end of a cut text, become
the replacement character. -/
def lenient (order : ByteOrder) : Octets → List Char
  | a :: b :: rest =>
    let unit := order.value [a, b]
    if isHighSurrogate unit then
      match rest with
      | c :: d :: rest =>
        let second := order.value [c, d]
        if isLowSurrogate second then
          Char.ofNat (0x10000 + 0x400 * (unit - 0xD800) + (second - 0xDC00)) :: lenient order rest
        else replacement :: lenient order (c :: d :: rest)
      | _ => [replacement]
    else if isLowSurrogate unit then replacement :: lenient order rest
    else Char.ofNat unit :: lenient order rest
  | [] => []
  | _ => [replacement]

/-- The octets of a character. -/
def encodeChar (order : ByteOrder) (c : Char) : Octets :=
  let n := c.toNat
  if n < 0x10000 then order.unit 2 n
  else
    order.unit 2 (0xD800 + (n - 0x10000) / 0x400) ++ order.unit 2 (0xDC00 + (n - 0x10000) % 0x400)

/-- The octets of a text, without a mark. -/
def encode (order : ByteOrder) (s : List Char) : Octets := s.flatMap (encodeChar order)

end Utf16

namespace Utf32

/-- The text, where a number that is no character, and what is left at the end of a cut text,
become the replacement character. -/
def lenient (order : ByteOrder) : Octets → List Char
  | a :: b :: c :: d :: rest =>
    let code := order.value [a, b, c, d]
    (if code.isValidChar then Char.ofNat code else replacement) :: lenient order rest
  | [] => []
  | _ => [replacement]

/-- The octets of a text, without a mark. -/
def encode (order : ByteOrder) (s : List Char) : Octets :=
  s.flatMap fun c => order.unit 4 c.toNat

end Utf32

/-!
## Byte order marks

A file may start with a mark that names its encoding.  The mark of UTF-32 in little endian starts
with that of UTF-16, so it is looked for first.
-/

/-- The mark of UTF-8. -/
def utf8Mark : Octets := [0xEF, 0xBB, 0xBF]

/-- The marks of UTF-32 in both orders. -/
def utf32Marks : List (Octets × ByteOrder) :=
  [([0xFF, 0xFE, 0x00, 0x00], .little), ([0x00, 0x00, 0xFE, 0xFF], .big)]

/-- The marks of UTF-16 in both orders. -/
def utf16Marks : List (Octets × ByteOrder) :=
  [([0xFF, 0xFE], .little), ([0xFE, 0xFF], .big)]

/-- What follows the first of the marks that the octets start with, and the order it names. -/
def afterMark? (marks : List (Octets × ByteOrder)) (octets : Octets) :
    Option (ByteOrder × Octets) :=
  (marks.find? fun mark => mark.1.isPrefixOf octets).map fun mark =>
    (mark.2, octets.drop mark.1.length)

/-- Is the file marked as UTF-16 or UTF-32? -/
def hasUnicodeMark (octets : Octets) : Bool :=
  (afterMark? utf32Marks octets).isSome || (afterMark? utf16Marks octets).isSome

/-- The octets after a mark of UTF-8, if they have one. -/
def withoutUtf8Mark (octets : Octets) : Octets :=
  if utf8Mark.isPrefixOf octets then octets.drop 3 else octets

/-- UTF-8 with or without a mark, read leniently. -/
def decodeUtf8 (octets : Octets) : List Char := Utf8.lenient (withoutUtf8Mark octets)

/-- Text in the encoding that the mark names, UTF-8 if there is none, read leniently. -/
def decodeMarked (octets : Octets) : List Char :=
  match afterMark? utf32Marks octets with
  | some (order, rest) => Utf32.lenient order rest
  | none =>
    match afterMark? utf16Marks octets with
    | some (order, rest) => Utf16.lenient order rest
    | none => decodeUtf8 octets

/-- A text file whose reader waits for a whole mark: one or two first octets of a mark, and nothing
else, count as an empty file. -/
def unmarkedContent (octets : Octets) : Octets :=
  if octets.length < 3 && octets.isPrefixOf utf8Mark then [] else withoutUtf8Mark octets

/-- A UTF-8 text file, with or without a mark, read leniently; its line ends become line feeds. -/
def readTextFile (octets : Octets) : List Char :=
  normalizeNewlines (Utf8.lenient (unmarkedContent octets))

/-- A UTF-8 text file, with or without a mark, if it is valid; its line ends become line feeds. -/
def readTextFile? (octets : Octets) : Option (List Char) :=
  (Utf8.strict? (unmarkedContent octets)).map normalizeNewlines

end DscAudit.Text
