import DscAudit.File.Volume
import DscAudit.Text.Quoted

/-!
# Failures

A failure of a kind that the user can mend is a complaint: a message, the exit code of the program, and
a word for its kind.  All others are defects: files that cannot be reached, and results of tools that
do not have the form they should have.
-/

namespace DscAudit

/-- How the program can end. -/
inductive ExitCode where
  | ok
  | checks
  | usage
  | config
  | prereq
  | validation
  | internal
  | timeout
  deriving DecidableEq, Repr

namespace ExitCode

def all : List ExitCode := [ok, checks, usage, config, prereq, validation, internal, timeout]

def number : ExitCode → Nat
  | ok => 0
  | checks => 1
  | usage => 2
  | config => 3
  | prereq => 4
  | validation => 5
  | internal => 99
  | timeout => 124

def name : ExitCode → String
  | ok => "OK"
  | checks => "ERR_CHECKS"
  | usage => "ERR_USAGE"
  | config => "ERR_CONFIG"
  | prereq => "ERR_PREREQ"
  | validation => "ERR_VALIDATION"
  | internal => "ERR_INTERNAL"
  | timeout => "ERR_TIMEOUT"

end ExitCode

/-- A failure that the user can mend. -/
structure Complaint where
  message : String
  code : ExitCode
  kind : String

/-- A failure that no part of the program expects. -/
inductive Defect where
  | file (error : FileError) (path : String)
  | sameFile (source target : String)
  | nullInPath
  | notWithin (path directory : String)
  | noHome
  | undecodable
  | missingKey (key : String)
  | noAttribute (type name : String)
  | notIterable (type : String)
  | notSubscriptable (type : String)
  | notText (index : Nat) (type : String)
  | notJoinable
  | textSubscript
  | listSubscript
  | noInteger (type : String)
  | badInteger (base : Nat) (text : String)
  | infiniteInteger
  | nanInteger
  | emptyNumber
  | noNumber (text : String)
  | noSuchTime (reason : String)
  | noSuchCharacter
  | characterTooLarge
  | integerTooLarge
  | notTextual (type : String)
  | other (kind message : String)

namespace Defect

/-- The kind that a message names. -/
def kind : Defect → String
  | file .notFound _ => "FileNotFoundError"
  | file .present _ => "FileExistsError"
  | file .notDirectory _ => "NotADirectoryError"
  | file .isDirectory _ => "IsADirectoryError"
  | file .nameTooLong _ => "OSError"
  | sameFile _ _ => "SameFileError"
  | nullInPath => "ValueError"
  | notWithin _ _ => "ValueError"
  | noHome => "RuntimeError"
  | undecodable => "UnicodeDecodeError"
  | missingKey _ => "KeyError"
  | noAttribute _ _ => "AttributeError"
  | notIterable _ => "TypeError"
  | notSubscriptable _ => "TypeError"
  | notText _ _ => "TypeError"
  | notJoinable => "TypeError"
  | textSubscript => "TypeError"
  | listSubscript => "TypeError"
  | noInteger _ => "TypeError"
  | badInteger _ _ => "ValueError"
  | infiniteInteger => "OverflowError"
  | nanInteger => "ValueError"
  | emptyNumber => "IndexError"
  | noNumber _ => "ValueError"
  | noSuchTime _ => "ValueError"
  | noSuchCharacter => "ValueError"
  | characterTooLarge => "OverflowError"
  | integerTooLarge => "OverflowError"
  | notTextual _ => "TypeError"
  | other kind _ => kind

def message : Defect → String
  | file error path =>
    "[Errno " ++ toString error.number ++ "] " ++ error.message ++ ": " ++ Text.Quoted.encodeString path
  | sameFile source target =>
    "PosixPath(" ++ Text.Quoted.encodeString source ++ ") and PosixPath(" ++
      Text.Quoted.encodeString target ++ ") are the same file"
  | nullInPath => "embedded null byte"
  | notWithin path directory =>
    Text.Quoted.encodeString path ++ " is not in the subpath of " ++
      Text.Quoted.encodeString directory ++ " OR one path is relative and the other is absolute."
  | noHome => "Could not determine home directory."
  | undecodable => "<utf-8>"
  | missingKey key => Text.Quoted.encodeString key
  | noAttribute type name => "\x27" ++ type ++ "\x27 object has no attribute \x27" ++ name ++ "\x27"
  | notIterable type => "\x27" ++ type ++ "\x27 object is not iterable"
  | notSubscriptable type => "\x27" ++ type ++ "\x27 object is not subscriptable"
  | notText index type =>
    "sequence item " ++ toString index ++ ": expected str instance, " ++ type ++ " found"
  | notJoinable => "can only join an iterable"
  | textSubscript => "string indices must be integers, not \x27str\x27"
  | listSubscript => "list indices must be integers or slices, not str"
  | noInteger type =>
    "int() argument must be a string, a bytes-like object or a real number, not \x27" ++ type ++ "\x27"
  | badInteger base text =>
    "invalid literal for int() with base " ++ toString base ++ ": " ++
      String.ofList ((Text.Quoted.encode text.toList).take 200)
  | infiniteInteger => "cannot convert float infinity to integer"
  | nanInteger => "cannot convert float NaN to integer"
  | emptyNumber => "string index out of range"
  | noNumber text => "could not convert string to float: " ++ Text.Quoted.encodeString text
  | noSuchTime reason => reason
  | noSuchCharacter => "chr() arg not in range(0x110000)"
  | characterTooLarge => "Python int too large to convert to C int"
  | integerTooLarge => "int too large to convert to float"
  | notTextual type => "expected string or bytes-like object, got \x27" ++ type ++ "\x27"
  | other _ message => message

end Defect

/-- Why an action stops. -/
inductive Failure where
  | complaint (complaint : Complaint)
  | defect (defect : Defect)

namespace Failure

def message : Failure → String
  | .complaint c => c.message
  | .defect d => d.message

/-- The failure as a warning shows it. -/
def text : Failure → String
  | .complaint c => "ScriptError: " ++ c.message
  | .defect d => d.kind ++ ": " ++ d.message

end Failure

end DscAudit
