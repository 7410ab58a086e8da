import DscAudit.CommandLine.Word

/-!
# Reading the command line

The words of a level give settings and operands; a command hands the words behind it over to its own
level.  Words that no level takes are refused in the end.
-/

namespace DscAudit.CommandLine

/-- How far the operands of a level have come. -/
inductive Progress where
  | waiting
  /-- An operand has just been taken. -/
  | taken
  | done
  deriving DecidableEq

/-- What the words of a level gave. -/
structure Reading where
  settings : List (String × String)
  operands : List String
  extras : List String

namespace Reading

def empty : Reading := ⟨[], [], []⟩

def withSetting (reading : Reading) (opt : Opt) (value : String) : Reading :=
  { reading with settings := reading.settings ++ [(opt.name, value)] }

def withOperand (reading : Reading) (operand : String) : Reading :=
  { reading with operands := reading.operands ++ [operand] }

def withExtra (reading : Reading) (word : String) : Reading :=
  { reading with extras := reading.extras ++ [word] }

def append (a b : Reading) : Reading :=
  ⟨a.settings ++ b.settings, a.operands ++ b.operands, a.extras ++ b.extras⟩

/-- Takes an option with its value. -/
def take (reading : Reading) (opt : Opt) (value : String) : Except Problem Reading :=
  match opt.excludes.find? fun other => reading.settings.any fun setting => setting.1 == other with
  | some other => .error (.excluded opt other)
  | none =>
    match opt.arity with
    | .value [] => .ok (reading.withSetting opt value)
    | .value choices =>
      if choices.contains value then .ok (reading.withSetting opt value)
      else .error (.invalidChoice opt.shown value choices)
    | _ => .ok (reading.withSetting opt value)

end Reading

/-- A command that was named, and the words behind it. -/
structure Handover where
  level : Level
  words : List String

/-- What stops the reading of a level. -/
inductive Interruption where
  | problem (problem : Problem)
  | help

/-- What follows the short option for help within its word: the option once more, or letters that do
not matter, but no value and no hyphen. -/
def helpWithTail (opt : Opt) : List Char → Interruption
  | [] => .help
  | '=' :: value => .problem (.ignoredValue opt (String.ofList value))
  | '-' :: rest => .problem (.ignoredValue opt (String.ofList ('-' :: rest)))
  | 'h' :: rest => helpWithTail opt rest
  | _ :: _ => .help

/-- Help is wanted, unless a value is attached to the option. -/
def helpWith (opt : Opt) (word : String) (attached : Option String) : Interruption :=
  if "--".isPrefixOf word then
    match attached with
    | none => .help
    | some value => .problem (.ignoredValue opt value)
  else helpWithTail opt (word.toList.drop 2)

/-- What an operand does at a level. -/
inductive Step where
  | operand
  | extra
  | command (level : Level)
  | refuse (problem : Problem)

/-- What an operand that is waited for does, a separator before it being part of a command. -/
def stepOf (operands : Operands) (afterSeparator : Bool) (text : String) : Step :=
  match operands with
  | .none => .extra
  | .one _ => .operand
  | .several _ => .operand
  | .command name commands =>
    let given := if afterSeparator then "--" else text
    match commands.find? fun command => command.1 == given with
    | some command => .command command.2
    | none => .refuse (.invalidChoice name given (commands.map (·.1)))

/-- Do more operands belong to the one that has just been taken? -/
def takesMore : Operands → Bool
  | .several _ => true
  | _ => false

/-- Reads the words of a level.  A separator that stands beside an operand belongs to it. -/
def readWords (operands : Operands) (afterSeparator : Bool) (progress : Progress)
    (reading : Reading) : List Word → Except Interruption (Reading × Progress × Option Handover)
  | [] => .ok (reading, progress, none)
  | word :: rest =>
    let ended := if progress = .taken then .done else progress
    match word.kind with
    | .unknown => readWords operands false ended (reading.withExtra word.text) rest
    | .option opt attached =>
      match opt.arity with
      | .help => .error (helpWith opt word.text attached)
      | .flag =>
        match attached with
        | some value => .error (.problem (.ignoredValue opt value))
        | none =>
          match reading.take opt "" with
          | .ok reading => readWords operands false ended reading rest
          | .error problem => .error (.problem problem)
      | .value _ =>
        match attached, rest with
        | some value, rest =>
          match reading.take opt value with
          | .ok reading => readWords operands false ended reading rest
          | .error problem => .error (.problem problem)
        | none, ⟨value, .operand⟩ :: rest =>
          match reading.take opt value with
          | .ok reading => readWords operands false ended reading rest
          | .error problem => .error (.problem problem)
        | none, _ => .error (.problem (.expectedValue opt))
    | .separator =>
      match progress with
      | .waiting =>
        match operands with
        | .none => readWords operands false .waiting (reading.withExtra word.text) rest
        | _ =>
          if rest.isEmpty then .ok (reading.withExtra word.text, .waiting, none)
          else readWords operands true .waiting reading rest
      | .taken =>
        readWords operands false (if takesMore operands then .taken else .done) reading rest
      | .done => readWords operands false .done (reading.withExtra word.text) rest
    | .operand =>
      match progress with
      | .waiting =>
        match stepOf operands afterSeparator word.text with
        | .operand => readWords operands false .taken (reading.withOperand word.text) rest
        | .extra => readWords operands false .waiting (reading.withExtra word.text) rest
        | .command level => .ok (reading, .done, some ⟨level, rest.map (·.text)⟩)
        | .refuse problem => .error (.problem problem)
      | .taken =>
        if takesMore operands then
          readWords operands false .taken (reading.withOperand word.text) rest
        else readWords operands false .done (reading.withExtra word.text) rest
      | .done => readWords operands false .done (reading.withExtra word.text) rest

/-- The name of the operand that a level must have and did not get. -/
def missing? (operands : Operands) (progress : Progress) : Option String :=
  if progress = .waiting then
    match operands with
    | .none => none
    | .one name => some name
    | .several name => some name
    | .command name _ => some name
  else none

/-- Reads one level: what it gave, and the command it hands over to. -/
def readLevel (level : Level) (texts : List String) :
    Except Stop (Reading × Option Handover) := do
  let found ← match words level.options texts with
    | .ok found => pure found
    | .error problem => throw (.refused level problem)
  match readWords level.operands false .waiting .empty found with
  | .error .help => throw (.help level)
  | .error (.problem problem) => throw (.refused level problem)
  | .ok (reading, progress, handover) =>
    match missing? level.operands progress with
    | some name => throw (.refused level (.missing name))
    | none => return (reading, handover)

/-- Reads a level and those of its commands; the last level is that of the command that is run. -/
def readFrom (level : Level) (texts : List String) : Except Stop (Level × Reading) := do
  let (reading, handover) ← readLevel level texts
  match handover with
  | none => return (level, reading)
  | some next =>
    if _h : next.words.length < texts.length then
      let (last, more) ← readFrom next.level next.words
      return (last, reading.append more)
    else throw (.refused level (.unrecognized next.words))
termination_by texts.length

/-- Reads a command line. -/
def read (texts : List String) : Except Stop (Level × Reading) := do
  let (level, reading) ← readFrom .main texts
  if reading.extras.isEmpty then return (level, reading)
  else throw (.refused .main (.unrecognized reading.extras))

end DscAudit.CommandLine
