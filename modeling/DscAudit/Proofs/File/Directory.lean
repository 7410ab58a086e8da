import DscAudit.File.Walk
import DscAudit.Proofs.File.Volume
import DscAudit.Proofs.Host.Primitive
import DscAudit.Proofs.Text.Sorted

/-!
# Directories and the files below them

A directory at a path without double points is made from the outside in, so that nothing but the
places on the way to it can become directories, and only those where nothing was.  Afterwards the path
leads to a directory; a failure leaves the volume as it was, unless a name is too long, which shows
only after the directories before it were made.

The files below a directory that are not excluded are found, whatever the order in which the volume has
them, and each by the path that leads from the directory to it.
-/

/-! ## Making directories and writing files -/

namespace DscAudit

open Text (Octets)

/-- Some part of the place is too long for a name. -/
def Place.HasLongName (target : Place) : Prop := ∃ part ∈ target, isTooLong part = true

theorem Path.hasNull_parent {path : Path} (hpath : path.hasNull = false) :
    path.parent.hasNull = false := by
  simp only [hasNull, List.any_eq_false] at hpath ⊢
  exact fun part hpart => hpath part (List.dropLast_subset _ hpart)

namespace Volume

/-- The second volume is the first one with directories at some places where nothing was, all of them
on the way to a place. -/
def GrowsTowards (target : Place) (before after : Volume) : Prop :=
  ∀ place, after.find? place = before.find? place ∨
    place <+: target ∧ before.find? place = none ∧ after.find? place = some .directory

namespace GrowsTowards

variable {target : Place} {before between after : Volume}

theorem refl (target : Place) (volume : Volume) : volume.GrowsTowards target volume :=
  fun _ => .inl rfl

theorem trans (hfirst : before.GrowsTowards target between)
    (hsecond : between.GrowsTowards target after) : before.GrowsTowards target after := by
  intro place
  rcases hsecond place with hsame | ⟨hstarts, hnone, hmade⟩
  · rw [hsame]
    exact hfirst place
  · rcases hfirst place with hsame | ⟨-, -, hmade'⟩
    · exact .inr ⟨hstarts, hsame ▸ hnone, hmade⟩
    · rw [hnone] at hmade'
      cases hmade'

theorem mono {target' : Place} (hgrows : before.GrowsTowards target after)
    (htarget : target <+: target') : before.GrowsTowards target' after :=
  fun place => (hgrows place).imp_right fun ⟨hstarts, hrest⟩ => ⟨hstarts.trans htarget, hrest⟩

theorem find?_directory (hgrows : before.GrowsTowards target after) {place : Place}
    (hplace : before.find? place = some .directory) : after.find? place = some .directory := by
  rcases hgrows place with hsame | ⟨-, hnone, -⟩
  · rw [hsame, hplace]
  · rw [hplace] at hnone
    cases hnone

end GrowsTowards

theorem ne_nil_of_find?_eq_none {volume : Volume} {place : Place}
    (hplace : volume.find? place = none) : place ≠ [] := by
  intro heq
  rw [heq, find?_nil] at hplace
  cases hplace

theorem growsTowards_put {volume : Volume} {place : Place} (hplace : volume.find? place = none) :
    volume.GrowsTowards place (volume.put place .directory) := by
  intro other
  by_cases hother : other = place
  · subst hother
    exact .inr ⟨List.prefix_refl _, hplace, find?_put_self (ne_nil_of_find?_eq_none hplace)⟩
  · exact .inl (find?_put_of_ne hother)

/-- The path leads to a directory that is there. -/
structure LeadsToDirectory (volume : Volume) (path : Path) : Prop where
  walkable : volume.IsWalkable [] path.parts
  found : volume.find? path.parts = some .directory

namespace LeadsToDirectory

variable {volume : Volume} {path : Path}

theorem find?_of_prefix (hpath : volume.LeadsToDirectory path) {place : Place}
    (hplace : place <+: path.parts) : volume.find? place = some .directory := by
  by_cases heq : place = path.parts
  · rw [heq, hpath.found]
  · simpa using hpath.walkable.directories place hplace heq

end LeadsToDirectory

/-- A path leads to a directory exactly if the host says so. -/
theorem isDirectory_iff {volume : Volume} {path : Path} (hpath : path.IsNormal)
    (hnull : path.hasNull = false) (directory : Path) :
    volume.isDirectory directory path = true ↔ volume.LeadsToDirectory path := by
  unfold isDirectory lookup
  rw [locate_of_isNormal hpath, hnull]
  constructor
  · intro hdirectory
    rcases hwalk : volume.walk [] path.parts with error | place
    · simp [hwalk, bind, Except.bind] at hdirectory
    · obtain ⟨rfl, hwalkable⟩ := eq_of_walk_eq_ok hpath.noDoublePoint hwalk
      refine ⟨hwalkable, ?_⟩
      simp only [hwalk, bind, Except.bind, List.nil_append] at hdirectory
      rcases hfind : volume.find? path.parts with - | ⟨- | content⟩
      all_goals simp [hfind, throw, throwThe, MonadExceptOf.throw, pure, Except.pure] at hdirectory ⊢
  · intro hleads
    rw [walk_eq_ok hpath.noDoublePoint hleads.walkable]
    simp [bind, Except.bind, hleads.found, pure, Except.pure]

/-- A file stands at a place or on the way to it. -/
def IsBlocked (volume : Volume) (target : Place) : Prop :=
  ∃ place content, place <+: target ∧ volume.find? place = some (.file content)

theorem write_eq (volume : Volume) (directory path : Path) (content : Octets) :
    volume.write directory path content =
      match volume.locate directory path with
      | .error error => .error error
      | .ok place =>
        if volume.find? place = some .directory then .error .isDirectory
        else .ok (volume.put place (.file content)) := by
  unfold write
  rcases volume.locate directory path with error | place
  · rfl
  · simp only [bind, Except.bind]
    rcases volume.find? place with - | ⟨- | old⟩ <;> simp <;> rfl

end Volume

namespace Action

variable {path : Path} {allowed : Effect → Prop}

/-! ## How the steps end -/

theorem exec_ofFile_bind {α β : Type} (path : Path) (result : Except FileError α)
    (next : α → Action β) (host : Host) :
    (ofFile path result >>= next).exec host =
      match result with
      | .ok a => (next a).exec host
      | .error error => (.error (.defect (.file error path.toString)), host) := by
  cases result <;> rfl

theorem exec_makeDirectoryHere? (path : Path) (host : Host) :
    (makeDirectoryHere? path).exec host =
      match host.volume.locate host.directory path with
      | .error error => (.ok (some error), host)
      | .ok place =>
        if (host.volume.find? place).isSome then (.ok (some .present), host)
        else (.ok none, { host with volume := host.volume.put place .directory }) := by
  unfold makeDirectoryHere?
  rw [exec_get_bind]
  rcases host.volume.locate host.directory path with error | place
  · rfl
  · simp only [bind, Except.bind, Volume.makeDirectory]
    rcases host.volume.find? place with - | node <;> rfl

theorem exec_askVolume (path : Path) (question : Volume → Path → Path → Bool) (host : Host) :
    (askVolume path question).exec host =
      if (!path.hasNull && host.volume.refuses host.directory path) = true then
        (.error (.defect (.file .nameTooLong path.toString)), host)
      else (.ok (question host.volume host.directory path), host) := by
  unfold askVolume
  rw [exec_get_bind]
  by_cases hrefuses : (!path.hasNull && host.volume.refuses host.directory path) = true
  · simp only [if_pos hrefuses]
    rfl
  · simp only [if_neg hrefuses]
    rfl

theorem exec_writeFile (path : Path) (content : Octets) (host : Host) :
    (writeFile path content).exec host =
      if path.hasNull = true then (.error (.defect .nullInPath), host)
      else
        match host.volume.locate host.directory path with
        | .error error => (.error (.defect (.file error path.toString)), host)
        | .ok place =>
          if host.volume.find? place = some .directory then
            (.error (.defect (.file .isDirectory path.toString)), host)
          else (.ok (), { host with volume := host.volume.put place (.file content) }) := by
  unfold writeFile
  by_cases hnull : path.hasNull = true
  · simp only [if_pos hnull]
    rfl
  · simp only [if_neg hnull]
    rw [exec_get_bind, exec_ofFile_bind, Volume.write_eq]
    rcases host.volume.locate host.directory path with error | place
    · rfl
    · by_cases hdirectory : host.volume.find? place = some .directory
      · simp only [if_pos hdirectory]
      · simp only [if_neg hdirectory]
        rfl

/-! ## What is done -/

theorem does_makeDirectoryHere?
    (hallowed : ∀ (volume : Volume) directory place,
      volume.locate directory path = .ok place → allowed (.makeDirectory place)) :
    Does allowed (makeDirectoryHere? path) := by
  intro host
  rw [exec_makeDirectoryHere?]
  rcases hlocate : host.volume.locate host.directory path with error | place
  · exact ⟨[], by simp, rfl⟩
  · refine ⟨[.makeDirectory place], ?_, ?_⟩
    · simpa using hallowed _ _ _ hlocate
    · simp only [Effect.onAll_cons, Effect.onAll_nil, Effect.on]
      split <;> rfl

/-- Only directories on the way to the path are made. -/
theorem does_makeDirectories
    (hallowed : ∀ ancestor : Path, ancestor.root = path.root → ancestor.parts <+: path.parts →
      ∀ (volume : Volume) directory place,
        volume.locate directory ancestor = .ok place → allowed (.makeDirectory place))
    (tries : Nat) : Does allowed (makeDirectories tries path) := by
  induction tries generalizing path with
  | zero => exact .pure _
  | succ tries ih =>
    have hhere : Does allowed (makeDirectoryHere? path) :=
      does_makeDirectoryHere? (hallowed path rfl (List.prefix_refl _))
    have hpresent : ∀ error : FileError, Does allowed (do
        if ← isDirectory path then return () else defect (.file error path.toString)) :=
      fun error => .bind (reads_isDirectory path).does fun _ =>
        .ite (fun _ => .pure _) fun _ => does_defect _
    unfold makeDirectories
    refine .bind hhere fun error => ?_
    split
    · exact .pure _
    · refine .ite (fun _ => does_defect _) fun _ => ?_
      have hparent : Does allowed (makeDirectories tries path.parent) :=
        ih fun ancestor hroot hparts =>
          hallowed ancestor hroot (hparts.trans (List.dropLast_prefix path.parts))
      refine .bind hparent fun _ => .bind hhere fun again => ?_
      cases again with
      | none => exact .pure _
      | some error => exact hpresent error
    · exact hpresent _

theorem does_makeDirectory
    (hallowed : ∀ ancestor : Path, ancestor.root = path.root → ancestor.parts <+: path.parts →
      ∀ (volume : Volume) directory place,
        volume.locate directory ancestor = .ok place → allowed (.makeDirectory place)) :
    Does allowed (makeDirectory path) := by
  unfold makeDirectory
  exact .guard (does_defect _) fun _ => does_makeDirectories hallowed _

theorem does_writeFile (content : Octets)
    (hallowed : ∀ (volume : Volume) directory place,
      volume.locate directory path = .ok place → allowed (.writeFile place content)) :
    Does allowed (writeFile path content) := by
  intro host
  rw [exec_writeFile]
  split
  · exact ⟨[], by simp, rfl⟩
  rcases hlocate : host.volume.locate host.directory path with error | place
  · exact ⟨[], by simp, rfl⟩
  · refine ⟨[.writeFile place content], ?_, ?_⟩
    · simpa using hallowed _ _ _ hlocate
    · simp only [Effect.onAll_cons, Effect.onAll_nil, Effect.on]
      split <;> rfl

theorem does_copyFile (source : Path)
    (hallowed : ∀ content (volume : Volume) directory place,
      volume.locate directory path = .ok place → allowed (.writeFile place content)) :
    Does allowed (copyFile source path) := by
  unfold copyFile
  refine .bind (reads_isSame _ _).does fun same => .guard (does_defect _) fun _ => ?_
  exact .bind (reads_readFile _).does fun content => does_writeFile content (hallowed content)

/-! ## Directories made from the outside in -/

/-- What an error says of a volume on which a directory cannot be made. -/
def Explains (volume : Volume) (path : Path) : FileError → Prop
  | .notFound => ∃ passed, passed <+: path.parts ∧ passed ≠ path.parts ∧ volume.find? passed = none
  | .notDirectory => volume.IsBlocked path.parts
  | .nameTooLong => Place.HasLongName path.parts
  | .present => volume.IsWalkable [] path.parts ∧ (volume.find? path.parts).isSome
  | .isDirectory => False

/-- How the attempt to make the directory at a path without double points ends. -/
theorem makeDirectoryHere?_cases (hpath : path.IsNormal) (host : Host) :
    (∃ volume, (makeDirectoryHere? path).exec host = (.ok none, { host with volume := volume }) ∧
      host.volume.GrowsTowards path.parts volume ∧ volume.LeadsToDirectory path) ∨
    ∃ error, (makeDirectoryHere? path).exec host = (.ok (some error), host) ∧
      Explains host.volume path error := by
  rw [exec_makeDirectoryHere?, Volume.locate_of_isNormal hpath]
  rcases Volume.walk_cases host.volume [] hpath.noDoublePoint with ⟨hwalk, hwalkable⟩ |
      ⟨hwalk, hmissing⟩ | ⟨hwalk, passed, content, hstarts, -, hfile⟩ | ⟨hwalk, hlong⟩
  · simp only [hwalk, List.nil_append]
    rcases hfind : host.volume.find? path.parts with - | node
    · left
      have hgrows := Volume.growsTowards_put hfind
      refine ⟨_, rfl, hgrows, ⟨fun passed hpassed hne => ?_, hwalkable.short⟩, ?_⟩
      · exact hgrows.find?_directory (hwalkable.directories passed hpassed hne)
      · exact Volume.find?_put_self (Volume.ne_nil_of_find?_eq_none hfind)
    · exact .inr ⟨.present, rfl, hwalkable, by rw [hfind]; rfl⟩
  · exact .inr ⟨.notFound, by rw [hwalk], by simpa [Explains] using hmissing⟩
  · exact .inr ⟨.notDirectory, by rw [hwalk], passed, content, hstarts, hfile⟩
  · exact .inr ⟨.nameTooLong, by rw [hwalk], hlong⟩

/-- What is done after an error: it does not matter where there is a directory all the same. -/
def settle (path : Path) (error : FileError) : Action Unit := do
  if ← isDirectory path then return () else defect (.file error path.toString)

/-- Unless the path leads to a directory all the same, a file stands in the way or a name is too long. -/
theorem settle_cases (hpath : path.IsNormal) (hnull : path.hasNull = false) {error : FileError}
    {host : Host} (hexplains : Explains host.volume path error) (hmissing : error ≠ .notFound) :
    ((settle path error).exec host = (.ok (), host) ∧ host.volume.LeadsToDirectory path) ∨
    ∃ error' shown, (settle path error).exec host = (.error (.defect (.file error' shown)), host) ∧
      (host.volume.IsBlocked path.parts ∨ Place.HasLongName path.parts) := by
  have hwhy : ¬ host.volume.LeadsToDirectory path →
      host.volume.IsBlocked path.parts ∨ Place.HasLongName path.parts := by
    intro hnot
    cases error with
    | notFound => exact absurd rfl hmissing
    | notDirectory => exact .inl hexplains
    | nameTooLong => exact .inr hexplains
    | isDirectory => exact hexplains.elim
    | present =>
      obtain ⟨hwalkable, hsome⟩ := hexplains
      obtain ⟨node, hnode⟩ := Option.isSome_iff_exists.mp hsome
      cases node with
      | directory => exact absurd ⟨hwalkable, hnode⟩ hnot
      | file content => exact .inl ⟨path.parts, content, List.prefix_refl _, hnode⟩
  rw [settle, exec_bind, isDirectory, exec_askVolume]
  by_cases hrefuses : (!path.hasNull && host.volume.refuses host.directory path) = true
  · rw [if_pos hrefuses]
    refine .inr ⟨_, _, rfl, hwhy fun hleads => ?_⟩
    simp only [Volume.refuses, Volume.locate_of_isNormal hpath,
      Volume.walk_eq_ok hpath.noDoublePoint hleads.walkable, Bool.and_false] at hrefuses
    cases hrefuses
  · rw [if_neg hrefuses]
    rcases hdirectory : host.volume.isDirectory host.directory path with - | -
    · refine .inr ⟨_, _, rfl, hwhy fun hleads => ?_⟩
      rw [(Volume.isDirectory_iff hpath hnull _).mpr hleads] at hdirectory
      cases hdirectory
    · exact .inl ⟨rfl, (Volume.isDirectory_iff hpath hnull _).mp hdirectory⟩

/-- Where something was missing on the way to a place, making the directories before it leaves nothing
in the way. -/
theorem not_isBlocked_of_growsTowards {before after : Volume} (htree : before.IsTree)
    (hgrows : before.GrowsTowards path.parent.parts after)
    (hleads : after.LeadsToDirectory path.parent) {missing : Place} (hstarts : missing <+: path.parts)
    (hne : missing ≠ path.parts) (hnone : before.find? missing = none) :
    ¬ after.IsBlocked path.parts := by
  rintro ⟨place, content, hplace, hfile⟩
  by_cases heq : place = path.parts
  · rw [heq] at hfile
    have hbefore : (before.find? path.parts).isSome := by
      rcases hgrows path.parts with hsame | ⟨-, -, hmade⟩
      · rw [← hsame, hfile]
        rfl
      · rw [hfile] at hmade
        cases hmade
    rw [htree.find?_of_prefix hbefore hstarts hne] at hnone
    cases hnone
  · rw [hleads.find?_of_prefix (Volume.prefix_dropLast_of_ne hplace heq)] at hfile
    cases hfile

/-- What is done once the directory before a path is there. -/
def tryAgain (path : Path) : Action Unit := do
  match ← makeDirectoryHere? path with
  | none => return ()
  | some error => settle path error

/-- Where something was missing on the way to a path and the directory before it was made, only a name
that is too long can still stop the second try. -/
theorem tryAgain_cases (hpath : path.IsNormal) (hnull : path.hasNull = false) (host : Host)
    {before : Volume} (htree : before.IsTree)
    (hgrows : before.GrowsTowards path.parent.parts host.volume)
    (hleads : host.volume.LeadsToDirectory path.parent) {missing : Place}
    (hstarts : missing <+: path.parts) (hne : missing ≠ path.parts)
    (hnone : before.find? missing = none) :
    ∃ ending volume,
      (tryAgain path).exec host = (ending, { host with volume := volume }) ∧
      before.GrowsTowards path.parts volume ∧
      (ending = .ok () ∧ volume.LeadsToDirectory path ∨
       ∃ error shown, ending = .error (.defect (.file error shown)) ∧
        Place.HasLongName path.parts) := by
  have hgrown := hgrows.mono (List.dropLast_prefix path.parts)
  unfold tryAgain
  rcases makeDirectoryHere?_cases hpath host with ⟨volume, hagain, hgrows', hleads'⟩ |
      ⟨error, hagain, hexplains⟩
  · exact ⟨.ok (), volume, exec_bind_ok hagain _, hgrown.trans hgrows', .inl ⟨rfl, hleads'⟩⟩
  rw [exec_bind_ok hagain]
  have hfound : error ≠ .notFound := by
    rintro rfl
    obtain ⟨passed, hpassed, hne', hnone'⟩ := hexplains
    rw [hleads.find?_of_prefix (Volume.prefix_dropLast_of_ne hpassed hne')] at hnone'
    cases hnone'
  rcases settle_cases hpath hnull hexplains hfound with
      ⟨hsettle, hleads'⟩ | ⟨error', shown, hsettle, hwhy⟩
  · exact ⟨_, host.volume, hsettle, hgrown, .inl ⟨rfl, hleads'⟩⟩
  · have hfree := not_isBlocked_of_growsTowards htree hgrows hleads hstarts hne hnone
    exact ⟨_, host.volume, hsettle, hgrown, .inr ⟨error', shown, rfl, hwhy.resolve_left hfree⟩⟩

/-- Something other than a missing directory ends the first try. -/
theorem exec_makeDirectories_settle {tries : Nat} {host : Host} {error : FileError}
    (hhere : (makeDirectoryHere? path).exec host = (.ok (some error), host))
    (hmissing : error ≠ .notFound) :
    (makeDirectories (tries + 1) path).exec host = (settle path error).exec host := by
  unfold makeDirectories
  rw [exec_bind_ok hhere]
  cases error with
  | notFound => exact absurd rfl hmissing
  | _ => rfl

/-- A missing directory is made before the second try. -/
theorem exec_makeDirectories_again {tries : Nat} {host : Host}
    (hhere : (makeDirectoryHere? path).exec host = (.ok (some .notFound), host))
    (htries : tries ≠ 0) (hparts : path.parts ≠ []) :
    (makeDirectories (tries + 1) path).exec host =
      (makeDirectories tries path.parent >>= fun _ => tryAgain path).exec host := by
  have hmore : (path.parts.isEmpty || decide (tries = 0)) = false := by simp [htries, hparts]
  conv_lhs => unfold makeDirectories
  rw [exec_bind_ok hhere]
  simp only [hmore, Bool.false_eq_true, if_false]
  rfl

/-- How making a directory and those around it ends, on a volume that is a tree, if there are enough
tries. -/
theorem makeDirectories_cases (hpath : path.IsNormal) (hnull : path.hasNull = false) {tries : Nat}
    (htries : path.parts.length < tries) {host : Host} (htree : host.volume.IsTree) :
    ∃ ending volume,
      (makeDirectories tries path).exec host = (ending, { host with volume := volume }) ∧
      host.volume.GrowsTowards path.parts volume ∧
      (ending = .ok () ∧ volume.LeadsToDirectory path ∨
       ∃ error shown, ending = .error (.defect (.file error shown)) ∧
        (volume = host.volume ∧ host.volume.IsBlocked path.parts ∨ Place.HasLongName path.parts)) := by
  induction tries generalizing path with
  | zero => exact absurd htries (Nat.not_lt_zero _)
  | succ tries ih =>
    rcases makeDirectoryHere?_cases hpath host with ⟨volume, hhere, hgrows, hleads⟩ |
        ⟨error, hhere, hexplains⟩
    · unfold makeDirectories
      exact ⟨.ok (), volume, exec_bind_ok hhere _, hgrows, .inl ⟨rfl, hleads⟩⟩
    by_cases hmissing : error = .notFound
    · subst hmissing
      obtain ⟨missing, hstarts, hne, hnone⟩ := hexplains
      -- what is missing lies before the path, so the path has a part and a try is left for its parent
      have hshorter : missing.length < path.parts.length :=
        Nat.lt_of_le_of_ne hstarts.length_le fun heq => hne (hstarts.eq_of_length heq)
      have hparts : path.parts ≠ [] := List.ne_nil_of_length_pos (by omega)
      have hlength : path.parent.parts.length < tries := by
        rw [Path.parent, List.length_dropLast]
        omega
      rw [exec_makeDirectories_again hhere (by omega) hparts]
      have htarget : path.parent.parts <+: path.parts := List.dropLast_prefix path.parts
      obtain ⟨ending, volume, hparent, hgrows, ⟨rfl, hleads⟩ | ⟨error, shown, rfl, hwhy⟩⟩ :=
        ih hpath.parent (Path.hasNull_parent hnull) hlength
      · rw [exec_bind_ok hparent]
        obtain ⟨ending, volume', hagain, hgrows', hend⟩ :=
          tryAgain_cases hpath hnull { host with volume := volume } htree hgrows hleads hstarts hne
            hnone
        refine ⟨ending, volume', hagain, hgrows', hend.imp_right ?_⟩
        rintro ⟨error, shown, rfl, hlong⟩
        exact ⟨error, shown, rfl, .inr hlong⟩
      · refine ⟨_, volume, exec_bind_error hparent _, hgrows.mono htarget,
          .inr ⟨error, shown, rfl, hwhy.imp ?_ ?_⟩⟩
        · rintro ⟨hsame, place, content, hplace, hfile⟩
          exact ⟨hsame, place, content, hplace.trans htarget, hfile⟩
        · rintro ⟨part, hpart, hlong⟩
          exact ⟨part, List.dropLast_subset _ hpart, hlong⟩
    · rw [exec_makeDirectories_settle hhere hmissing]
      rcases settle_cases hpath hnull hexplains hmissing with
          ⟨hsettle, hleads⟩ | ⟨error', shown, hsettle, hwhy⟩
      · exact ⟨.ok (), host.volume, hsettle, .refl _ _, .inl ⟨rfl, hleads⟩⟩
      · exact ⟨_, host.volume, hsettle, .refl _ _,
          .inr ⟨error', shown, rfl, hwhy.imp_left fun hblocked => ⟨rfl, hblocked⟩⟩⟩

end Action

end DscAudit

/-! ## Files that are found below a directory -/

namespace DscAudit

open DscAudit.Action

namespace Volume

variable {volume : Volume} {place : Place}

theorem mem_below {parts : List String} {node : Node} :
    (parts, node) ∈ volume.below place ↔ parts ≠ [] ∧ (place ++ parts, node) ∈ volume.entries := by
  simp only [below, List.mem_filterMap]
  constructor
  · rintro ⟨⟨passed, found⟩, hmem, hentry⟩
    split at hentry
    · rename_i hbelow
      obtain ⟨hstarts, hlength⟩ := Bool.and_eq_true_iff.mp hbelow
      obtain ⟨rest, rfl⟩ := List.isPrefixOf_iff_prefix.mp hstarts
      simp only [List.drop_left, Option.some.injEq, Prod.mk.injEq] at hentry
      obtain ⟨rfl, rfl⟩ := hentry
      refine ⟨fun hnil => ?_, hmem⟩
      simp [hnil] at hlength
    · cases hentry
  · rintro ⟨hparts, hmem⟩
    refine ⟨_, hmem, ?_⟩
    simpa using hparts

end Volume

namespace File

variable {host : Host} {root : Path} {place : Place}

theorem exec_below (hroot : host.volume.LeadsTo host.directory root place) :
    (below root).exec host =
      (.ok ((host.volume.below place).map fun entry => (⟨.relative, entry.1⟩, entry.2)), host) := by
  unfold below
  rw [exec_get_bind, hroot.lookup]
  rfl

/-- The file lies below the place, and no directory between the two is excluded. -/
structure IsBelow (volume : Volume) (place : Place) (excluded : List String) (file : Path) : Prop where
  relative : file.root = .relative
  ne_nil : file.parts ≠ []
  found : ∃ content, volume.find? (place ++ file.parts) = some (.file content)
  included : file.isExcluded excluded = false

/-- All files below a directory that are not excluded are found, and no others. -/
theorem exec_all (hvolume : host.volume.IsProper)
    (hroot : host.volume.LeadsTo host.directory root place) (excluded : List String) :
    ∃ files, (all root excluded).exec host = (.ok files, host) ∧
      ∀ file, file ∈ files ↔ IsBelow host.volume place excluded file := by
  have hentry : ∀ {parts : List String} {node : Node}, parts ≠ [] →
      ((place ++ parts, node) ∈ host.volume.entries ↔
        host.volume.find? (place ++ parts) = some node) := by
    intro parts node hparts
    exact Volume.mem_iff_find?_eq_some hvolume.distinct (by simp [hparts])
  unfold all
  rw [exec_bind_ok (exec_below hroot)]
  refine ⟨_, rfl, fun file => ?_⟩
  simp only [List.mem_mergeSort, List.mem_filterMap, List.mem_map]
  constructor
  · rintro ⟨_, ⟨⟨parts, node⟩, hmem, rfl⟩, hfile⟩
    obtain ⟨hparts, hmem⟩ := Volume.mem_below.mp hmem
    cases node with
    | directory => cases hfile
    | file content =>
      dsimp only at hfile
      split at hfile
      · cases hfile
      · rename_i hexcluded
        cases hfile
        exact ⟨rfl, hparts, ⟨content, (hentry hparts).mp hmem⟩, by simpa using hexcluded⟩
  · rintro ⟨hrelative, hparts, ⟨content, hfound⟩, hexcluded⟩
    obtain ⟨root, parts⟩ := file
    cases hrelative
    have hmem := Volume.mem_below.mpr ⟨hparts, (hentry hparts).mpr hfound⟩
    refine ⟨_, ⟨(parts, .file content), hmem, rfl⟩, ?_⟩
    simp [hexcluded]

theorem exec_withSuffix (hvolume : host.volume.IsProper)
    (hroot : host.volume.LeadsTo host.directory root place) (excluded suffixes : List String) :
    ∃ files, (withSuffix root excluded suffixes).exec host = (.ok files, host) ∧
      ∀ file, file ∈ files ↔
        IsBelow host.volume place excluded file ∧
          hasSuffix (suffixes.map Text.lowerString) file = true := by
  obtain ⟨files, hall, hfiles⟩ := exec_all hvolume hroot excluded
  unfold withSuffix
  dsimp only
  rw [exec_bind_ok hall]
  refine ⟨_, rfl, fun file => ?_⟩
  rw [List.mem_filter, hfiles]

theorem IsBelow.eq_of_parts {volume volume' : Volume} {place' : Place} {excluded excluded' : List String}
    {file other : Path} (hfile : IsBelow volume place excluded file)
    (hother : IsBelow volume' place' excluded' other) (hparts : file.parts = other.parts) :
    file = other := by
  have hroot := hfile.relative.trans hother.relative.symm
  cases file
  cases other
  simp_all

/-- The suffix of a path is that of its last part. -/
theorem hasSuffix_eq_of_append (suffixes : List String) {file other : Path}
    {before before' : Place} (hfile : file.parts ≠ []) (hother : other.parts ≠ [])
    (hplace : before ++ file.parts = before' ++ other.parts) :
    hasSuffix suffixes file = hasSuffix suffixes other := by
  have hlast : file.parts.getLast? = other.parts.getLast? := by
    have hends := congrArg List.getLast? hplace
    rwa [List.getLast?_append_of_ne_nil _ hfile, List.getLast?_append_of_ne_nil _ hother] at hends
  unfold hasSuffix Path.suffix Path.name
  rw [hlast]

/-- A file that was found is where its path leads to. -/
theorem IsBelow.locate {volume : Volume} {directory : Path} {excluded : List String} {file : Path}
    (hfile : IsBelow volume place excluded file) (hvolume : volume.IsProper)
    (hroot : volume.LeadsTo directory root place) :
    volume.locate directory (root.join file) = .ok (place ++ file.parts) := by
  obtain ⟨content, hfound⟩ := hfile.found
  rw [Volume.locate_join volume directory root hfile.relative, hroot.locate]
  exact hvolume.walk_eq_ok hfound hfile.ne_nil

/-! ## Names in one directory -/

theorem mem_children (hvolume : host.volume.IsProper) {name : String} {node : Node} :
    (name, node) ∈ host.volume.children place ↔ host.volume.find? (place ++ [name]) = some node := by
  rw [← Volume.mem_iff_find?_eq_some hvolume.distinct (by simp)]
  have hbelow : ([name], node) ∈ host.volume.below place ↔
      (place ++ [name], node) ∈ host.volume.entries := by
    rw [Volume.mem_below, and_iff_right (List.cons_ne_nil name [])]
  rw [← hbelow, Volume.children, List.mem_filterMap]
  constructor
  · rintro ⟨⟨parts, found⟩, hmem, hentry⟩
    dsimp only at hentry
    split at hentry
    · cases hentry
      exact hmem
    · cases hentry
  · exact fun hmem => ⟨_, hmem, rfl⟩

/-- The names in a directory are found in order, those of one kind and no others. -/
theorem exec_namesIn (hvolume : host.volume.IsProper)
    (hroot : host.volume.LeadsTo host.directory root place) (wanted : Node → Bool) :
    ∃ names, (namesIn root wanted).exec host = (.ok names, host) ∧
      names.Pairwise (fun a b => a ≤ b) ∧
      ∀ name, name ∈ names ↔
        ∃ node, host.volume.find? (place ++ [name]) = some node ∧ wanted node = true := by
  have hchildren : (children root).exec host = (.ok (host.volume.children place), host) := by
    unfold children
    rw [exec_get_bind, hroot.lookup]
    rfl
  unfold namesIn
  rw [exec_bind_ok hchildren]
  refine ⟨_, rfl, ?_, fun name => ?_⟩
  · exact Text.pairwise_sortBy (fun name => name) _
  · simp only [List.mem_mergeSort, List.mem_map, List.mem_filter, Prod.exists, exists_eq_right,
      mem_children hvolume, exists_and_right]

end File

end DscAudit
