import DscAudit.File.Path
import DscAudit.Proofs.Text.Cutting
import Mathlib.Data.List.TakeDrop

/-!
# Paths and their texts

The text of a path writes the path again, as long as its parts are such as a text can have.
-/

namespace DscAudit.Path

/-- What a part of a path can be when the path is read from a text. -/
def IsPart (part : String) : Prop := part ≠ "" ∧ part ≠ "." ∧ '/' ∉ part.toList

instance (part : String) : Decidable (IsPart part) :=
  inferInstanceAs (Decidable (part ≠ "" ∧ part ≠ "." ∧ '/' ∉ part.toList))

theorem rootOf_append (root : PathRoot) {c : Char} (hc : c ≠ '/') (s : List Char) :
    rootOf (root.text.toList ++ c :: s) = root := by
  cases root <;> simp [rootOf, PathRoot.text, hc]

theorem IsPart.exists_cons {part : String} (hpart : IsPart part) :
    ∃ c cs, part.toList = c :: cs ∧ c ≠ '/' := by
  obtain ⟨hne, -, hslash⟩ := hpart
  obtain ⟨c, cs, hchars⟩ := List.exists_cons_of_ne_nil (String.toList_eq_nil_iff.not.mpr hne)
  rw [hchars, List.mem_cons, not_or] at hslash
  exact ⟨c, cs, hchars, Ne.symm hslash.1⟩

theorem toString_of_ne_nil {path : Path} (hne : path.parts ≠ []) :
    path.toString = path.root.text ++ "/".intercalate path.parts := by
  have hparts : path.parts.isEmpty = false := by simpa using hne
  rw [Path.toString, hparts, Bool.and_false, if_neg Bool.false_ne_true]

/-- The slashes of a root stand between empty pieces. -/
theorem splitAt_append_root (root : PathRoot) (s : List Char) :
    ∃ empty, (∀ piece ∈ empty, piece = []) ∧
      Text.splitAt '/' (root.text.toList ++ s) = empty ++ Text.splitAt '/' s := by
  cases root with
  | relative => exact ⟨[], nofun, rfl⟩
  | slash => exact ⟨[[]], by simp, rfl⟩
  | twoSlashes => exact ⟨[[], []], by simp, rfl⟩

/-- The text of a path is read as the path. -/
theorem ofString_toString {path : Path} (hparts : ∀ part ∈ path.parts, IsPart part) :
    ofString path.toString = path := by
  obtain ⟨root, parts⟩ := path
  dsimp only at hparts
  cases parts with
  | nil => cases root <;> decide
  | cons first rest =>
    have htext : (Path.toString ⟨root, first :: rest⟩).toList =
        root.text.toList ++ ['/'].intercalate ((first :: rest).map String.toList) := by
      rw [toString_of_ne_nil (List.cons_ne_nil _ _), String.toList_append, String.toList_intercalate]
      rfl
    have hroot : rootOf (Path.toString ⟨root, first :: rest⟩).toList = root := by
      obtain ⟨c, cs, hchars, hc⟩ := (hparts first List.mem_cons_self).exists_cons
      obtain ⟨behind, hbehind⟩ : ∃ behind,
          ['/'].intercalate ((first :: rest).map String.toList) = c :: behind := by
        rw [List.map_cons, hchars]
        cases rest <;> simp [List.intercalate_cons_cons]
      rw [htext, hbehind, rootOf_append root hc]
    have hsplit : Text.splitAt '/' (['/'].intercalate ((first :: rest).map String.toList)) =
        (first :: rest).map String.toList :=
      Text.splitAt_intercalate (by simp) (List.forall_mem_map.mpr fun part hpart => (hparts part hpart).2.2)
    have hkept : (first :: rest).filter (fun piece => piece ≠ "" && piece ≠ ".") = first :: rest := by
      rw [List.filter_eq_self]
      intro part hpart
      simp [(hparts part hpart).1, (hparts part hpart).2.1]
    obtain ⟨empty, hempty, hpieces⟩ := splitAt_append_root root
      (['/'].intercalate ((first :: rest).map String.toList))
    have hnone : (empty.map String.ofList).filter (fun piece => piece ≠ "" && piece ≠ ".") = [] := by
      rw [List.filter_eq_nil_iff, List.forall_mem_map]
      intro piece hpiece
      simp [hempty piece hpiece]
    unfold ofString
    rw [hroot, htext, hpieces, hsplit]
    dsimp only
    rw [List.map_append, List.filter_append, hnone, List.nil_append, List.map_map]
    simp only [Function.comp_def, String.ofList_toList, List.map_id']
    rw [hkept]

theorem hasNull_ofString {text : String} (htext : '\x00' ∉ text.toList) :
    (ofString text).hasNull = false := by
  simp only [hasNull, ofString, List.any_eq_false, List.mem_filter, List.mem_map]
  rintro part ⟨⟨piece, hpiece, rfl⟩, -⟩
  simpa using fun hnull => htext (Text.mem_of_mem_splitAt hpiece hnull)

/-- The components of a path below another one start with those of the other one. -/
theorem components_join (base : Path) {file : Path} (hfile : file.root = .relative) :
    (base.join file).components = base.components ++ file.parts := by
  have hrelative : file.isAbsolute = false := by simp [isAbsolute, hfile]
  unfold join
  rw [hrelative]
  unfold components
  cases base.root <;> rfl

theorem exists_relativeTo?_join {base root file : Path} (hbase : base.isWithin root = true)
    (hfile : file.root = .relative) : ∃ path, (base.join file).relativeTo? root = some path := by
  rw [← Option.isSome_iff_exists, Option.isSome_iff_ne_none, ne_eq, relativeTo?_eq_none_iff,
    Bool.not_eq_false, isWithin, components_join base hfile, List.isPrefixOf_iff_prefix]
  exact (List.isPrefixOf_iff_prefix.mp hbase).trans (List.prefix_append _ _)

end DscAudit.Path
