import DscAudit.Proofs.CommandLine.Reply

/-!
# Writes stay in the directory for evidence

Whatever is asked for and whatever the host is like, a run leaves everything outside the directory for
evidence as it was, missing directories on the way to it apart, and removes nothing.  A value is written
as evidence to exactly one file there, or the volume stays as it was.
-/

namespace DscAudit

open DscAudit.Action

namespace Volume

variable {evidence : Place} {before between after : Volume}

/-- The second volume is the first one with files written in a directory, and directories made there and
on the way to it where nothing was. -/
def ChangesWithin (evidence : Place) (before after : Volume) : Prop :=
  ∀ place, after.find? place = before.find? place ∨
    (evidence <+: place ∧ before.find? place ≠ some .directory ∧
      ∃ content, after.find? place = some (.file content)) ∨
    ((place <+: evidence ∨ evidence <+: place) ∧ before.find? place = none ∧
      after.find? place = some .directory)

namespace ChangesWithin

theorem refl (evidence : Place) (volume : Volume) : volume.ChangesWithin evidence volume :=
  fun _ => .inl rfl

theorem trans (hfirst : before.ChangesWithin evidence between)
    (hsecond : between.ChangesWithin evidence after) : before.ChangesWithin evidence after := by
  intro place
  rcases hsecond place with hsame | ⟨hinside, hnone, hfile⟩ | ⟨hinside, hnone, hmade⟩
  · rw [hsame]
    exact hfirst place
  -- a file is never written over a directory, neither one that was there nor one just made
  · refine .inr (.inl ⟨hinside, fun hdirectory => ?_, hfile⟩)
    rcases hfirst place with hsame' | ⟨-, hne, -⟩ | ⟨-, hnone', -⟩
    · exact hnone (hsame'.trans hdirectory)
    · exact hne hdirectory
    · rw [hdirectory] at hnone'
      cases hnone'
  · rcases hfirst place with hsame' | ⟨-, -, content, hfile⟩ | ⟨-, -, hmade'⟩
    · exact .inr (.inr ⟨hinside, hsame' ▸ hnone, hmade⟩)
    · rw [hnone] at hfile
      cases hfile
    · rw [hnone] at hmade'
      cases hmade'

end ChangesWithin

end Volume

namespace Effect

variable {evidence : Place}

theorem changesWithin_on {effect : Effect} (heffect : effect.StaysIn evidence) (host : Host) :
    host.volume.ChangesWithin evidence (effect.on host).volume := by
  cases effect with
  | makeDirectory made =>
    simp only [on]
    split
    · exact .refl _ _
    · rename_i hnone
      rw [Option.not_isSome_iff_eq_none] at hnone
      intro place
      by_cases hplace : place = made
      · subst hplace
        refine .inr (.inr ⟨heffect, hnone, ?_⟩)
        exact Volume.find?_put_self (Volume.ne_nil_of_find?_eq_none hnone)
      · exact .inl (Volume.find?_put_of_ne hplace)
  | writeFile target content =>
    simp only [on]
    split
    · exact .refl _ _
    · rename_i hfile
      intro place
      by_cases hplace : place = target
      · subst hplace
        refine .inr (.inl ⟨heffect, hfile, content, Volume.find?_put_self fun hnil => hfile ?_⟩)
        rw [hnil, Volume.find?_nil]
      · exact .inl (Volume.find?_put_of_ne hplace)
  | _ => exact .refl _ _

theorem changesWithin_onAll {effects : List Effect} (heffects : ∀ effect ∈ effects, effect.StaysIn evidence)
    (host : Host) : host.volume.ChangesWithin evidence (onAll host effects).volume := by
  induction effects generalizing host with
  | nil => exact .refl _ _
  | cons effect effects ih =>
    have hfirst := changesWithin_on (heffects effect (by simp)) host
    exact hfirst.trans (ih (fun other hother => heffects other (by simp [hother])) _)

theorem volume_onAll_print (host : Host) (lines : List String) :
    (onAll host (lines.map print)).volume = host.volume := by
  induction lines generalizing host with
  | nil => rfl
  | cons line lines ih => exact ih _

end Effect

namespace CommandLine

/-- The work for an answer is all that changes the volume. -/
theorem Concludes.volume_eq {format : OutputFormat} {host : Host} {work : List Effect}
    {ending : Except Failure ExitCode × Host} (hending : Concludes format host work ending) :
    ending.2.volume = (Effect.onAll host work).volume := by
  rcases ending with ⟨failure | code, after⟩
  · rw [show after = Effect.onAll host work from hending]
  · obtain ⟨-, lines, -, hafter⟩ := hending
    rw [hafter, Effect.onAll_append, Effect.volume_onAll_print]

theorem volume_run {request : Request} {host : Host} {format : OutputFormat}
    (hformat : (formatOf request).exec host = (.ok format, host)) :
    ((run request).exec host).2.volume = ((answer request format).exec host).2.volume := by
  rw [exec_run hformat]
  rcases (answer request format).exec host with ⟨failure | code, after⟩ <;> rfl

/-- What a run changes on the volume. -/
theorem run_changesWithin (request : Request) (host : Host) :
    (∀ place, ((run request).exec host).2.volume.find? place = host.volume.find? place) ∨
    ∃ format context, (formatOf request).exec host = (.ok format, host) ∧
      (RunContext.load (request.runSettings format)).exec host = (.ok context, host) ∧
      host.volume.ChangesWithin context.evidence.parts ((run request).exec host).2.volume := by
  obtain ⟨format, hformat⟩ := exec_formatOf request host
  obtain ⟨work, hwork, hconcludes⟩ := exec_answer request format host
  rw [volume_run hformat, hconcludes.volume_eq]
  rcases hwork with rfl | ⟨context, hload, hwork⟩
  · exact .inl fun _ => rfl
  · refine .inr ⟨format, context, hformat, hload, ?_⟩
    exact Effect.changesWithin_onAll (fun effect heffect => (hwork effect heffect).2) host

/-- A host with an empty module in a directory. -/
def moduleHost (name : String) : Host := .holding ⟨[([name], .directory)]⟩ ⟨.slash, [name]⟩

theorem isTree_moduleHost (name : String) : (moduleHost name).volume.IsTree := by
  refine Volume.isTree_of_entries fun entry hentry => ?_
  rw [List.mem_singleton.mp hentry]
  rfl

def letters (length : Nat) : String := String.ofList (List.replicate length 'a')

theorem isTooLong_letters {length : Nat} (hlength : nameLimit < length) :
    isTooLong (letters length) = true := by
  have hletter : (Text.Utf8.encodeChar 'a').length = 1 := by decide
  simp [isTooLong, letters, Text.Utf8.encode, List.length_flatMap, hletter, hlength]

theorem letters_ne_doublePoint (length : Nat) : letters length ≠ ".." := by
  intro heq
  have hlist : List.replicate length 'a' = "..".toList := by
    rw [← heq, letters, String.toList_ofList]
  have hpoint : '.' ∈ List.replicate length 'a' := by
    rw [hlist]
    decide
  exact absurd (List.eq_of_mem_replicate hpoint) (by decide)

/-- Where a report goes whose name has some letters. -/
def namedReport (length : Nat) : Path := ⟨.relative, ["output", "dscmeta", letters length]⟩

/-- A report in a new module whose name is too long is not written, but directories are made for it. -/
theorem exec_writeJson_letters {length : Nat} (hlength : nameLimit < length) (payload : Value) :
    ∃ error shown volume,
      ((RunContext.ofModule "m").writeJson (namedReport length) payload).exec (moduleHost "m") =
        (.error (.defect (.file error shown)), { moduleHost "m" with volume := volume }) ∧
      volume.find? ["m", "output"] = some .directory := by
  have hpath : ((RunContext.ofModule "m").root.join (namedReport length)).hasNull = false := by
    simp [Path.hasNull, Path.join, RunContext.ofModule, Path.isAbsolute, namedReport, letters]
  have htarget : ((RunContext.ofModule "m").root.join (namedReport length)).resolve
      (moduleHost "m").directory = ⟨.slash, ["m", "output", "dscmeta", letters length]⟩ := by
    simp [Path.resolve, Path.collapse, Path.join, RunContext.ofModule, Path.isAbsolute, namedReport,
      letters_ne_doublePoint]
  have hfree : ¬ (moduleHost "m").volume.IsBlocked ["m", "output", "dscmeta"] := by
    rintro ⟨place, content, -, hfile⟩
    simp only [moduleHost, Host.holding, Volume.find?, List.find?] at hfile
    split at hfile
    · cases hfile
    · split at hfile <;> cases hfile
  have hshort : ¬ Place.HasLongName ["m", "output", "dscmeta"] := by
    rintro ⟨part, hpart, hlong⟩
    have hall : ∀ part ∈ ["m", "output", "dscmeta"], isTooLong part = false := by decide
    rw [hall part hpart] at hlong
    cases hlong
  obtain ⟨error, shown, volume, hexec, hmade⟩ :=
    RunContext.exec_writeJson_long_name payload (isTree_moduleHost "m") (by decide) hpath (by decide)
      htarget (List.prefix_append ["m", "output", "dscmeta"] [letters length])
      ⟨letters length, by simp, isTooLong_letters hlength⟩ hshort hfree
  exact ⟨error, shown, volume, hexec, hmade _ (List.prefix_append ["m", "output"] ["dscmeta"])⟩

end CommandLine

end DscAudit
