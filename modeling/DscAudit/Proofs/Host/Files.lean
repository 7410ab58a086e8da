import DscAudit.Proofs.Check.Composition
import DscAudit.Proofs.File.Directory
import DscAudit.Proofs.Host.Attempt

/-!
# Steps that look at files

Some steps depend on nothing but the files and the current directory of the host, and do nothing to it.
Such a step ends alike whenever it is done on the same files, whatever else the host has.
-/

namespace DscAudit

variable {α β : Type}

structure Host.SameFiles (host other : Host) : Prop where
  volume : other.volume = host.volume
  directory : other.directory = host.directory

namespace Host.SameFiles

variable {host other third : Host}

theorem refl (host : Host) : host.SameFiles host := ⟨rfl, rfl⟩

theorem trans (hfirst : host.SameFiles other) (hsecond : other.SameFiles third) :
    host.SameFiles third :=
  ⟨hsecond.volume.trans hfirst.volume, hsecond.directory.trans hfirst.directory⟩

theorem of_starts {calls : List ProcessCall} (hstarts : host.Starts calls other) :
    host.SameFiles other := by
  obtain ⟨logs, rfl⟩ := hstarts
  exact ⟨rfl, rfl⟩

end Host.SameFiles

namespace Action

def LooksAtFiles (step : Action α) : Prop :=
  ∀ host : Host, ∃ ending, ∀ other, host.SameFiles other → step.exec other = (ending, other)

namespace LooksAtFiles

theorem pure (a : α) : LooksAtFiles (pure a) := fun _ => ⟨.ok a, fun _ _ => rfl⟩

theorem of_defect (cause : Defect) : LooksAtFiles (defect cause : Action α) :=
  fun _ => ⟨.error (.defect cause), fun _ _ => rfl⟩

theorem bind {step : Action α} {next : α → Action β} (hstep : LooksAtFiles step)
    (hnext : ∀ a, LooksAtFiles (next a)) : LooksAtFiles (step >>= next) := by
  intro host
  obtain ⟨ending, hend⟩ := hstep host
  cases ending with
  | error failure => exact ⟨.error failure, fun other hother => exec_bind_error (hend other hother) next⟩
  | ok a =>
    obtain ⟨last, hlast⟩ := hnext a host
    refine ⟨last, fun other hother => ?_⟩
    rw [exec_bind_ok (hend other hother), hlast other hother]

theorem compositional : Compositional (m := Action) fun _ => LooksAtFiles := ⟨pure, bind⟩

theorem of_reads {step : Action α} (hreads : Reads step)
    (hsame : ∀ host other : Host, host.SameFiles other → (step.exec other).1 = (step.exec host).1) :
    LooksAtFiles step :=
  fun host => ⟨(step.exec host).1, fun other hother =>
    Prod.ext (hsame host other hother) (hreads.exec_snd other)⟩

end LooksAtFiles

/-! ## Looking at one path -/

theorem looks_ofFile (path : Path) (result : Except FileError α) : LooksAtFiles (ofFile path result) := by
  cases result with
  | ok a => exact .pure a
  | error error => exact .of_defect _

theorem looks_isFile (path : Path) : LooksAtFiles (isFile path) := by
  apply LooksAtFiles.of_reads (reads_isFile path)
  intro host other hsame
  rw [isFile, exec_askVolume, exec_askVolume, hsame.volume, hsame.directory]
  split <;> rfl

theorem looks_readFile (path : Path) : LooksAtFiles (readFile path) := by
  have hlook : LooksAtFiles (do
      let host ← get
      ofFile path (host.volume.read host.directory path)) := by
    intro host
    obtain ⟨ending, hend⟩ := looks_ofFile path (host.volume.read host.directory path) host
    refine ⟨ending, fun other hother => ?_⟩
    rw [← hend other hother, ← hother.volume, ← hother.directory]
    rfl
  unfold readFile
  split
  · exact .bind (.of_defect _) fun _ => hlook
  · exact hlook

theorem looks_below (path : Path) : LooksAtFiles (below path) := by
  apply LooksAtFiles.of_reads (reads_below path)
  intro host other hsame
  rw [below, exec_get_bind, exec_get_bind, hsame.volume, hsame.directory]
  split <;> rfl

theorem looks_children (path : Path) : LooksAtFiles (children path) := by
  apply LooksAtFiles.of_reads (reads_children path)
  intro host other hsame
  rw [children, exec_get_bind, exec_get_bind, hsame.volume, hsame.directory]
  rcases host.volume.lookup host.directory path with error | ⟨place, _ | content⟩ <;> rfl

end Action

open DscAudit.Action

/-! ## Looking for files -/

namespace File

theorem looks_all (root : Path) (excluded : List String) : LooksAtFiles (all root excluded) :=
  .bind (looks_below root) fun _ => .pure _

theorem looks_withSuffix (root : Path) (excluded suffixes : List String) :
    LooksAtFiles (withSuffix root excluded suffixes) :=
  .bind (looks_all root excluded) fun _ => .pure _

theorem looks_withExtension (root : Path) (excluded extensions : List String) :
    LooksAtFiles (withExtension root excluded extensions) :=
  .bind (looks_all root excluded) fun _ => .pure _

theorem looks_namesIn (path : Path) (wanted : Node → Bool) : LooksAtFiles (namesIn path wanted) :=
  .bind (looks_children path) fun _ => .pure _

end File

namespace Manifest

theorem looks_candidates (root : Path) : LooksAtFiles (candidates root) :=
  .bind (File.looks_namesIn _ _) fun _ => .pure _

theorem Content.looks_load (root : Path) : LooksAtFiles (Content.load root) := by
  apply LooksAtFiles.bind (looks_candidates root)
  intro names
  split
  · exact .pure _
  · exact .bind (looks_readFile _) fun _ => .pure _

end Manifest

namespace Check.Resource

theorem looks_directories (root : Path) : LooksAtFiles (directories root) := by
  apply LooksAtFiles.bind (.bind (File.looks_namesIn _ _) fun _ => .pure _)
  intro container
  cases container with
  | none => exact .pure _
  | some container => exact .bind (File.looks_namesIn _ _) fun _ => .pure _

theorem looks_directoriesWith (subject : Subject) (suffix : String) :
    LooksAtFiles (directoriesWith subject suffix) := by
  apply LooksAtFiles.bind (looks_directories _)
  intro directories
  exact LooksAtFiles.compositional.filterM fun directory _ => looks_isFile _

theorem looks_readText (path : Path) : LooksAtFiles (readText path) :=
  .bind (looks_readFile path) fun _ => .pure _

end Check.Resource

end DscAudit
