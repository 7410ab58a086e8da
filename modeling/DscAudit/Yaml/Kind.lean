import DscAudit.Text.Digit
import DscAudit.Text.Infix
import DscAudit.Yaml.Timestamp

/-!
# Kinds of YAML nodes

The tag of a node tells its kind.  A plain scalar without a tag is of the kind that its text has the form
of; a line feed at its end does not count for that.
-/

namespace DscAudit.Yaml

/-- What the data model calls the kinds of nodes. -/
inductive TagKind where
  | null
  | bool
  | int
  | float
  | binary
  | timestamp
  | omap
  | pairs
  | set
  | str
  | seq
  | map
  | merge
  | value
  | unknown
  deriving DecidableEq

namespace TagKind

/-- The names of kinds behind the common start of their tags. -/
def names : List (String × TagKind) :=
  [("null", .null), ("bool", .bool), ("int", .int), ("float", .float), ("binary", .binary),
   ("timestamp", .timestamp), ("omap", .omap), ("pairs", .pairs), ("set", .set), ("str", .str),
   ("seq", .seq), ("map", .map), ("merge", .merge), ("value", .value)]

/-- The kind that a tag names. -/
def ofName (name : String) : TagKind :=
  ((names.find? fun entry => "tag:yaml.org,2002:" ++ entry.1 == name).map (·.2)).getD .unknown

/-! ## Plain scalars -/

def boolWords : List (String × Bool) :=
  [("yes", true), ("no", false), ("true", true), ("false", false), ("on", true), ("off", false)]

/-- Is the text a word of truth in lower case, in upper case or with a capital? -/
def isBoolText (s : String) : Bool :=
  boolWords.any fun entry =>
    s == entry.1 || s == entry.1.toUpper || s == entry.1.capitalize

def isNullText (s : String) : Bool := ["~", "null", "Null", "NULL"].contains s

/-- The text behind a sign, if it starts with one. -/
def unsigned : List Char → List Char
  | '-' :: rest => rest
  | '+' :: rest => rest
  | s => s

def isDigitOrLine (c : Char) : Bool := c.isDigit || c == '_'

/-- Digits and low lines, the first being a digit. -/
def isDigits : List Char → Bool
  | [] => false
  | c :: rest => c.isDigit && rest.all isDigitOrLine

/-- A part of a number in base sixty behind the first one. -/
def isSixtieth : List Char → Bool
  | [c] => c.isDigit
  | [c, d] => '0' ≤ c && c ≤ '5' && d.isDigit
  | _ => false

/-- Is the text an exponent with a sign, or empty? -/
def isExponent : List Char → Bool
  | [] => true
  | [_] => false
  | c :: sign :: digits =>
    (c == 'e' || c == 'E') && (sign == '-' || sign == '+') && !digits.isEmpty &&
      digits.all Char.isDigit

/-- The parts of a text before and behind its first point. -/
def splitPoint? (s : List Char) : Option (List Char × List Char) :=
  match s.dropWhile (· != '.') with
  | _ :: rest => some (s.takeWhile (· != '.'), rest)
  | [] => none

def isFloatText (s : List Char) : Bool :=
  let bare := unsigned s
  let decimal := match splitPoint? bare with
    | none => false
    | some (whole, fraction) =>
      let behind := fraction.dropWhile isDigitOrLine
      if whole.isEmpty then
        s.length == bare.length && isDigits (fraction.takeWhile isDigitOrLine) && isExponent behind
      else
        (isDigits whole && isExponent behind) ||
          (match Text.splitAt ':' whole with
            | first :: part :: parts =>
              isDigits first && (part :: parts).all isSixtieth && behind.isEmpty
            | _ => false)
  decimal || [".inf".toList, ".Inf".toList, ".INF".toList].contains bare ||
    [".nan".toList, ".NaN".toList, ".NAN".toList].contains s

def isIntText (s : List Char) : Bool :=
  let bare := unsigned s
  match bare with
  | [] => false
  | ['0'] => true
  | '0' :: 'b' :: digits => !digits.isEmpty && digits.all fun c => c == '0' || c == '1' || c == '_'
  | '0' :: 'x' :: digits =>
    !digits.isEmpty && digits.all fun c => (Text.hexValue? c).isSome || c == '_'
  | '0' :: digits => digits.all fun c => ('0' ≤ c && c ≤ '7') || c == '_'
  | bare =>
    match Text.splitAt ':' bare with
    | first :: parts => isDigits first && parts.all isSixtieth
    | [] => false

/-- What a plain scalar of one line is.  A text that is only a mark in front of nodes is of no kind. -/
def ofLine (s : List Char) : TagKind :=
  let text := String.ofList s
  if isBoolText text then .bool
  else if isFloatText s then .float
  else if isIntText s then .int
  else if text = "<<" then .merge
  else if isNullText text then .null
  else if (Timestamp.read? s).any Timestamp.isPlain then .timestamp
  else if text = "=" then .value
  else if text = "!" ∨ text = "&" ∨ text = "*" then .unknown
  else .str

/-- The text without a line feed at its end. -/
def withoutLineEnd (s : List Char) : List Char :=
  match s.reverse with
  | '\n' :: rest => rest.reverse
  | _ => s

/-- What a plain scalar is. -/
def ofPlain (text : String) : TagKind :=
  if text.isEmpty then .null else ofLine (withoutLineEnd text.toList)

theorem ofPlain_empty : ofPlain "" = .null := rfl

end TagKind

end DscAudit.Yaml
