import DscAudit.CommandLine.Answer

/-!
# The program

The files that a run may look at are read beforehand, and what it has changed is written afterwards.
The program starts no processes: tools count as not found.
-/

namespace DscAudit.Program

/-- The variables of the environment that a run looks at. -/
def variableNames : List String :=
  ["HOME", "CI", "DSCMETA_MODULE_ROOT", "DSCMETA_RUN_ID", "DSCMETA_EVIDENCE_ROOT"]

def readEnvironment : IO (List (String × String)) := do
  let values ← variableNames.mapM fun name => do return (name, ← IO.getEnv name)
  return values.filterMap fun entry => entry.2.map fun value => (entry.1, value)

/-- The current time: a new file was changed just now. -/
def readClock : IO Moment := do
  let (_, path) ← IO.FS.createTempFile
  let seconds := (← path.metadata).modified.sec
  IO.FS.removeFile path
  return .ofSeconds seconds.toNat

/-- Is the entry of a directory, whose path has no links, no link itself? -/
def isOwn (entry : IO.FS.DirEntry) : IO Bool := do
  match ← (IO.FS.realPath entry.path).toBaseIO with
  | .ok real => return real.toString == entry.path.toString
  | .error _ => return false

/-- Adds a file, or a directory and, if its entries count, all below it.  Those of a directory that is
only linked to do not count. -/
partial def readTree (withEntries : Bool) (volume : Volume) (path : Path) : IO Volume := do
  let place := path.parts
  match ← (IO.FS.realPath path.toString).toBaseIO with
  | .error _ => return volume
  | .ok source =>
    if ← source.isDir then
      let volume := volume.putDirectories place
      if withEntries then
        (← source.readDir).foldlM
          (fun volume entry => do readTree (← isOwn entry) volume (path.child entry.fileName)) volume
      else return volume
    else
      let content ← IO.FS.readBinFile source
      return (volume.putDirectories place.dropLast).put place (.file content.toList)

/-- The paths that a request names: the module, and the files to analyze. -/
def namedPaths (request : CommandLine.Request) (environment : List (String × String)) :
    List String :=
  let paths := match request.command with
    | .analyze paths => paths
    | _ => []
  let root := (environment.find? fun entry => entry.1 == "DSCMETA_MODULE_ROOT").map (·.2)
  request.moduleRoot.toList ++ root.toList ++ paths

def readHost (request : CommandLine.Request) : IO Host := do
  let directory := Path.ofString (← IO.currentDir).toString
  let environment ← readEnvironment
  let named := (namedPaths request environment).map fun raw =>
    (Path.ofString raw).resolve directory
  let volume ← (directory :: named).foldlM (readTree true) ⟨[]⟩
  return {
    volume := volume
    directory := directory
    environment := environment
    tools := []
    results := []
    calls := []
    sleeps := []
    now := ← readClock
    milliseconds := 0
    platform := "none"
    output := []
    errors := [] }

/-- Writes what is new or changed. -/
def writeChanges (before after : Volume) : IO Unit :=
  after.entries.forM fun entry => do
    if before.find? entry.1 != some entry.2 then
      let path := (Path.mk .slash entry.1).toString
      match entry.2 with
      | .directory => IO.FS.createDirAll path
      | .file content => IO.FS.writeBinFile path ⟨content.toArray⟩

/-- Answers a request, and gives the exit code. -/
def answer (request : CommandLine.Request) : IO Nat := do
  let host ← readHost request
  let (code, after) := (ExceptT.run (CommandLine.run request)).run host
  writeChanges host.volume after.volume
  IO.print (String.join after.output)
  IO.eprint (String.join after.errors)
  match code with
  | .ok code => return code.number
  | .error _ => return ExitCode.internal.number

/-- Runs the program on a command line, and gives the exit code. -/
def run (words : List String) : IO UInt32 := do
  match CommandLine.Request.ofWords words with
  | .ok request => return (← answer request).toUInt32
  | .error (.refused level problem) => do
    IO.eprint (CommandLine.refusalText level problem)
    return 2
  | .error (.help level) => do
    IO.println ("\n".intercalate level.usage)
    return 0

end DscAudit.Program

def main (words : List String) : IO UInt32 := DscAudit.Program.run words
