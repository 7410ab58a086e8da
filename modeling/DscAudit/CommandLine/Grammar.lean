import DscAudit.Text.Quoted

/-!
# The grammar of the command line

The command line has levels: options of the program, a command, and its options and operands; one
command has commands of its own.
-/

namespace DscAudit.CommandLine

/-- What an option takes. -/
inductive Arity where
  | help
  | flag
  /-- A value, which is one of the choices if there are any. -/
  | value (choices : List String)
  deriving DecidableEq, Repr

structure Opt where
  names : List String
  arity : Arity
  /-- The names of the options that may not stand beside it. -/
  excludes : List String
  deriving DecidableEq, Repr

namespace Opt

/-- The name of an option in a table of settings. -/
def name (opt : Opt) : String := opt.names.getLast?.getD ""

/-- The option as a message shows it. -/
def shown (opt : Opt) : String := "/".intercalate opt.names

def help : Opt := ⟨["-h", "--help"], .help, []⟩

def flag (name : String) : Opt := ⟨[name], .flag, []⟩

def value (name : String) : Opt := ⟨[name], .value [], []⟩

def json : Opt := flag "--json"

end Opt

/-- The levels of the command line. -/
inductive Level where
  | main
  | check
  | list
  | explain
  | analyze
  | config
  | dump
  | validate
  | doctor
  | version
  deriving DecidableEq, Repr

/-- What a level takes besides options. -/
inductive Operands where
  | none
  | one (name : String)
  | several (name : String)
  | command (name : String) (commands : List (String × Level))

namespace Level

/-- The words that lead to a level. -/
def program : Level → String
  | main => "dscmeta"
  | check => "dscmeta check"
  | list => "dscmeta list"
  | explain => "dscmeta explain"
  | analyze => "dscmeta analyze"
  | config => "dscmeta config"
  | dump => "dscmeta config dump"
  | validate => "dscmeta config validate"
  | doctor => "dscmeta doctor"
  | version => "dscmeta version"

def options : Level → List Opt
  | main =>
    [.help, .value "--module-root", .value "--run-id", .value "--evidence-root",
     ⟨["--format"], .value ["text", "json"], []⟩, .flag "--log-json",
     ⟨["--verbose"], .flag, ["--quiet"]⟩, ⟨["--quiet"], .flag, ["--verbose"]⟩]
  | check =>
    [.help, .value "--domain", .value "--select", .flag "--fail-fast", .value "--out-file", .json]
  | list => [.help, .value "--domain", .json]
  | config => [.help]
  | version => [.help]
  | _ => [.help, .json]

def operands : Level → Operands
  | main =>
    .command "cmd"
      [("check", check), ("list", list), ("explain", explain), ("analyze", analyze),
       ("config", config), ("doctor", doctor), ("version", version)]
  | explain => .one "check_id"
  | analyze => .several "paths"
  | config => .command "config_cmd" [("dump", dump), ("validate", validate)]
  | _ => .none

/-- How a level is used, in lines. -/
def usage : Level → List String
  | main =>
    ["usage: dscmeta [-h] [--module-root MODULE_ROOT] [--run-id RUN_ID]",
     "               [--evidence-root EVIDENCE_ROOT] [--format \x7btext,json\x7d]",
     "               [--log-json] [--verbose | --quiet]",
     "               \x7bcheck,list,explain,analyze,config,doctor,version\x7d ..."]
  | check =>
    ["usage: dscmeta check [-h] [--domain DOMAIN] [--select ID] [--fail-fast]",
     "                     [--out-file OUT_FILE] [--json]"]
  | list => ["usage: dscmeta list [-h] [--domain DOMAIN] [--json]"]
  | explain => ["usage: dscmeta explain [-h] [--json] check_id"]
  | analyze => ["usage: dscmeta analyze [-h] [--json] paths [paths ...]"]
  | config => ["usage: dscmeta config [-h] \x7bdump,validate\x7d ..."]
  | dump => ["usage: dscmeta config dump [-h] [--json]"]
  | validate => ["usage: dscmeta config validate [-h] [--json]"]
  | doctor => ["usage: dscmeta doctor [-h] [--json]"]
  | version => ["usage: dscmeta version [-h]"]

end Level

/-- Why a command line is refused. -/
inductive Problem where
  | ambiguous (word : String) (names : List String)
  | expectedValue (opt : Opt)
  | ignoredValue (opt : Opt) (value : String)
  | invalidChoice (name value : String) (choices : List String)
  | excluded (opt : Opt) (other : String)
  | missing (name : String)
  | unrecognized (words : List String)

def Problem.message : Problem → String
  | ambiguous word names =>
    "ambiguous option: " ++ word ++ " could match " ++ ", ".intercalate names
  | expectedValue opt => "argument " ++ opt.shown ++ ": expected one argument"
  | ignoredValue opt value =>
    "argument " ++ opt.shown ++ ": ignored explicit argument " ++ Text.Quoted.encodeString value
  | invalidChoice name value choices =>
    "argument " ++ name ++ ": invalid choice: " ++ Text.Quoted.encodeString value ++
      " (choose from " ++ ", ".intercalate (choices.map Text.Quoted.encodeString) ++ ")"
  | excluded opt other => "argument " ++ opt.shown ++ ": not allowed with argument " ++ other
  | missing name => "the following arguments are required: " ++ name
  | unrecognized words => "unrecognized arguments: " ++ " ".intercalate words

/-- Why a command line gives no request: it is refused at a level, or help on one is wanted. -/
inductive Stop where
  | refused (level : Level) (problem : Problem)
  | help (level : Level)

/-- What is written for a refused command line. -/
def refusalText (level : Level) (problem : Problem) : String :=
  String.join (level.usage.map fun line => line ++ "\n") ++ level.program ++ ": error: " ++
    problem.message ++ "\n"

end DscAudit.CommandLine
