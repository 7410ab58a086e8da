import DscAudit.Check.Basic
import DscAudit.File.Walk
import DscAudit.Proofs.Host.Effect

/-!
# What the steps of the program do

A lemma for each step from which the program is made: those that only look at the host, those that
write a line to one of the streams, and those that have to do with processes.
-/

namespace DscAudit

namespace Action

variable {α β : Type} {allowed : Effect → Prop}

namespace Does

theorem guard {c : Prop} [Decidable c] {early : Action PUnit} {next : PUnit → Action α}
    (hearly : Does allowed early) (hnext : ∀ r, Does allowed (next r)) :
    Does allowed (if c then early >>= next else next ⟨⟩) := by
  split
  · exact bind hearly hnext
  · exact hnext ⟨⟩

theorem ite {c : Prop} [Decidable c] {first second : Action α} (hfirst : c → Does allowed first)
    (hsecond : ¬ c → Does allowed second) : Does allowed (if c then first else second) := by
  split
  · exact hfirst ‹_›
  · exact hsecond ‹_›

end Does

/-! ## Steps that only read -/

theorem does_fail (message : String) (code : ExitCode) (kind : String) :
    Does allowed (fail message code kind : Action α) := .throw _

theorem does_defect (cause : Defect) : Does allowed (defect cause : Action α) := .throw _

theorem reads_ofFile (path : Path) (result : Except FileError α) : Reads (ofFile path result) := by
  cases result with
  | ok a => exact .pure a
  | error error => exact does_defect _

theorem reads_environment? (name : String) : Reads (environment? name) :=
  .get_bind fun _ => .pure _

theorem reads_findTool (name : String) : Reads (findTool name) := .get_bind fun _ => .pure _

theorem reads_resolve (path : Path) : Reads (resolve path) := by
  unfold resolve
  exact .guard (does_defect _) fun _ => .get_bind fun _ => .pure _

theorem exec_resolve {path : Path} (hpath : path.hasNull = false) (host : Host) :
    (resolve path).exec host = (.ok (path.resolve host.directory), host) := by
  unfold resolve
  simp only [hpath, Bool.false_eq_true, if_false]
  rfl

theorem reads_askVolume (path : Path) (question : Volume → Path → Path → Bool) :
    Reads (askVolume path question) := by
  unfold askVolume
  exact .get_bind fun _ => .guard (does_defect _) fun _ => .pure _

theorem reads_isFile (path : Path) : Reads (isFile path) := reads_askVolume path _

theorem reads_isDirectory (path : Path) : Reads (isDirectory path) := reads_askVolume path _

theorem reads_isPresent (path : Path) : Reads (isPresent path) := reads_askVolume path _

theorem reads_readFile (path : Path) : Reads (readFile path) := by
  unfold readFile
  exact .guard (does_defect _) fun _ => .get_bind fun _ => reads_ofFile _ _

theorem reads_isSame (a b : Path) : Reads (isSame a b) := by
  unfold isSame
  refine .get_bind fun host => ?_
  split <;> exact .pure _

theorem reads_below (path : Path) : Reads (below path) := by
  unfold below
  refine .get_bind fun host => ?_
  split <;> exact .pure _

theorem reads_children (path : Path) : Reads (children path) := by
  unfold children
  refine .get_bind fun host => .bind (reads_ofFile _ _) fun ⟨place, node⟩ => ?_
  cases node with
  | directory => exact .pure _
  | file content => exact does_defect _

/-! ## Steps that write to a stream -/

theorem does_printError {text : String} (htext : allowed (.report text)) :
    Does allowed (printError text) := .modify htext fun _ => rfl

theorem does_log (settings : LogSettings) (event : Event)
    (hline : ∀ line, allowed (.report (line ++ "\n"))) : Does allowed (log settings event) := by
  unfold log
  split
  · exact .get_bind fun _ => does_printError (hline _)
  · exact .pure _

theorem does_log? (settings : Option LogSettings) (event : Event)
    (hline : ∀ line, allowed (.report (line ++ "\n"))) : Does allowed (log? settings event) := by
  cases settings with
  | none => exact .pure _
  | some settings => exact does_log settings event hline

end Action

/-! ## Steps that look for files -/

namespace File

open DscAudit.Action

theorem reads_all (root : Path) (excluded : List String) : Reads (all root excluded) := by
  unfold all
  exact .bind (reads_below root) fun _ => .pure _

theorem reads_withSuffix (root : Path) (excluded suffixes : List String) :
    Reads (withSuffix root excluded suffixes) := by
  unfold withSuffix
  exact .bind (reads_all root excluded) fun _ => .pure _

theorem reads_withExtension (root : Path) (excluded extensions : List String) :
    Reads (withExtension root excluded extensions) := by
  unfold withExtension
  exact .bind (reads_all root excluded) fun _ => .pure _

theorem reads_scriptsAt (excluded : List String) (path : Path) :
    Reads (scriptsAt excluded path) := by
  unfold scriptsAt
  refine .bind (reads_isDirectory path) fun found => .ite (fun _ => ?_) fun _ => ?_
  · exact .bind (reads_below path) fun _ => .pure _
  · exact .bind (reads_isFile path) fun found => .ite (fun _ => .pure _) fun _ => .pure _

theorem reads_scripts (excluded : List String) (paths : List Path) :
    Reads (scripts excluded paths) := by
  unfold scripts
  refine .bind ?_ fun _ => .pure _
  exact (Does.compositional _).mapM fun path _ => reads_scriptsAt excluded path

theorem reads_namesIn (path : Path) (wanted : Node → Bool) : Reads (namesIn path wanted) := by
  unfold namesIn
  exact .bind (reads_children path) fun _ => .pure _

end File

/-! ## Processes -/

namespace Command

open DscAudit.Action

variable {allowed : Effect → Prop}

/-- The process of a command. -/
def call (command : Command) : ProcessCall :=
  ⟨command.words, command.directory, command.limit, command.environment⟩

theorem does_start (command : Command) (hcall : allowed (.start command.call)) :
    Does allowed command.start :=
  fun host => ⟨[.start command.call], by simpa using hcall, rfl⟩

theorem does_pause (delay : Decimal.Binary64) (hpause : allowed (.pause delay)) :
    Does allowed (pause delay) := by
  unfold pause
  exact .ite (fun _ => .modify hpause fun _ => rfl) fun _ => .pure _

variable (hlog : ∀ line, allowed (.report (line ++ "\n")))
  (hpause : ∀ delay, allowed (.pause delay))
include hlog hpause

theorem does_attempts (command : Command) (hcall : allowed (.start command.call))
    (delay : Decimal.Binary64) (settings : Option LogSettings) (attempt left : Nat) :
    Does allowed (attempts command delay settings attempt left) := by
  induction left generalizing attempt with
  | zero =>
    unfold attempts
    exact .bind (does_start command hcall) fun _ => .bind (does_log? _ _ hlog) fun _ => .pure _
  | succ left ih =>
    unfold attempts
    refine .bind (does_start command hcall) fun _ => .bind (does_log? _ _ hlog) fun _ => ?_
    refine .ite (fun _ => .pure _) fun _ => .bind (does_pause delay (hpause delay)) fun _ => ?_
    exact ih (attempt + 1)

theorem does_run (command : Command) (hcall : allowed (.start command.call)) (times : Nat)
    (delay : Decimal.Binary64) (settings : Option LogSettings) :
    Does allowed (command.run times delay settings) := by
  cases times with
  | zero => exact .pure _
  | succ left => exact does_attempts hlog hpause command hcall delay settings 1 left

theorem does_runOnce (command : Command) (hcall : allowed (.start command.call))
    (settings : Option LogSettings) : Does allowed (command.runOnce settings) :=
  does_run hlog hpause command hcall 1 _ settings

end Command

end DscAudit
