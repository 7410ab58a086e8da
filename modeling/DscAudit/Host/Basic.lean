import DscAudit.Host.Failure
import DscAudit.Host.Moment
import DscAudit.Value.Basic

/-!
# The host

The host is all that a run depends on and changes: the volume, the environment, the tools that can be
found, the results of the processes that are started, the clock, and the two output streams.  An
action reads and changes the host and may fail; what it did before it failed stays done.
-/

namespace DscAudit

open Decimal (Binary64)
open Text (Octets)

/-- What a process that was stopped has written to a stream. -/
inductive PartialOutput where
  | nothing
  | text (s : String)
  | octets (octets : Octets)

def PartialOutput.toText : PartialOutput → String
  | nothing => ""
  | text s => s
  | octets content => String.ofList (Text.Utf8.lenient content)

/-- What comes of starting a process. -/
inductive ProcessResult where
  | finished (code : Int) (output errors : String)
  | timedOut (output errors : PartialOutput)
  | missing (name : Option String)

/-- A process that was started. -/
structure ProcessCall where
  command : List String
  directory : Path
  timeout : Option Number
  environment : Option (List (String × String))

/-- All that a run depends on and changes. -/
structure Host where
  volume : Volume
  directory : Path
  environment : List (String × String)
  tools : List (String × String)
  results : List ProcessResult
  calls : List ProcessCall
  sleeps : List Binary64
  now : Moment
  milliseconds : Nat
  /-- The version of what the program runs on, which it shows with the tools. -/
  platform : String
  output : List String
  errors : List String

/-- What can be done on a host, and can fail. -/
abbrev Action := ExceptT Failure (StateM Host)

namespace Action

def fail {α : Type} (message : String) (code : ExitCode) (kind : String) : Action α :=
  throw (.complaint ⟨message, code, kind⟩)

def defect {α : Type} (defect : Defect) : Action α := throw (.defect defect)

/-- The result of a step on a file. -/
def ofFile {α : Type} (path : Path) : Except FileError α → Action α
  | .ok a => pure a
  | .error error => defect (.file error path.toString)

def environment? (name : String) : Action (Option String) := do
  let host ← get
  return (host.environment.find? fun entry => entry.1 == name).map (·.2)

/-- Writes a line to the output. -/
def printLine (line : String) : Action Unit :=
  modify fun host => { host with output := host.output ++ [line ++ "\n"] }

/-- Writes text to the stream for errors. -/
def printError (text : String) : Action Unit :=
  modify fun host => { host with errors := host.errors ++ [text] }

/-- The path of a tool, if it can be found. -/
def findTool (name : String) : Action (Option String) := do
  let host ← get
  return (host.tools.find? fun tool => tool.1 == name).map (·.2)

/-- The absolute path with no double points. -/
def resolve (path : Path) : Action Path := do
  if path.hasNull then defect .nullInPath
  return path.resolve (← get).directory

/-- What a question on a path is answered with, unless the path leads to a name that no file can
have. -/
def askVolume (path : Path) (question : Volume → Path → Path → Bool) : Action Bool := do
  let host ← get
  if !path.hasNull && host.volume.refuses host.directory path then
    defect (.file .nameTooLong path.toString)
  return question host.volume host.directory path

def isFile (path : Path) : Action Bool := askVolume path Volume.isFile

def isDirectory (path : Path) : Action Bool := askVolume path Volume.isDirectory

def isPresent (path : Path) : Action Bool := askVolume path Volume.isPresent

def readFile (path : Path) : Action Octets := do
  if path.hasNull then defect .nullInPath
  let host ← get
  ofFile path (host.volume.read host.directory path)

def writeFile (path : Path) (content : Octets) : Action Unit := do
  if path.hasNull then defect .nullInPath
  let host ← get
  let volume ← ofFile path (host.volume.write host.directory path content)
  set { host with volume := volume }

/-- Do two paths lead to the same file or directory? -/
def isSame (a b : Path) : Action Bool := do
  let host ← get
  match host.volume.lookup host.directory a, host.volume.lookup host.directory b with
  | .ok (x, _), .ok (y, _) => return x == y
  | _, _ => return false

/-- Writes the content of a file into another one. -/
def copyFile (source target : Path) : Action Unit := do
  if ← isSame source target then defect (.sameFile source.toString target.toString)
  writeFile target (← readFile source)

/-- Makes one directory, and tells what prevents it. -/
def makeDirectoryHere? (path : Path) : Action (Option FileError) := do
  let host ← get
  let made := do
    let place ← host.volume.locate host.directory path
    host.volume.makeDirectory place
  match made with
  | .ok volume => do
    set { host with volume := volume }
    return none
  | .error error => return some error

/-- Makes a directory unless there is one.  With more than one try, missing directories around it are
made as well, from the outside in. -/
def makeDirectories : (tries : Nat) → Path → Action Unit
  | 0, _ => return ()
  | tries + 1, path => do
    match ← makeDirectoryHere? path with
    | none => return ()
    | some .notFound =>
      if path.parts.isEmpty || tries = 0 then defect (.file .notFound path.toString)
      else
        makeDirectories tries path.parent
        match ← makeDirectoryHere? path with
        | none => return ()
        | some error =>
          if ← isDirectory path then return () else defect (.file error path.toString)
    | some error => if ← isDirectory path then return () else defect (.file error path.toString)

/-- Makes a directory and those around it, unless they are there. -/
def makeDirectory (path : Path) : Action Unit := do
  if path.hasNull then defect .nullInPath
  makeDirectories (path.parts.length + 1) path

/-- The paths below a directory, relative to it, and what they name. -/
def below (path : Path) : Action (List (Path × Node)) := do
  let host ← get
  match host.volume.lookup host.directory path with
  | .ok (place, .directory) =>
    return (host.volume.below place).map fun entry => (⟨.relative, entry.1⟩, entry.2)
  | _ => return []

/-- The names in a directory and what they name. -/
def children (path : Path) : Action (List (String × Node)) := do
  let host ← get
  let (place, node) ← ofFile path (host.volume.lookup host.directory path)
  match node with
  | .directory => return host.volume.children place
  | .file _ => defect (.file .notDirectory path.toString)

end Action

end DscAudit
