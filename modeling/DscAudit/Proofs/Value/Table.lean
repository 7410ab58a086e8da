import DscAudit.Value.Basic
import Mathlib.Data.List.Induction
import Mathlib.Data.List.Perm.Basic

/-!
# Values and their tables

A property that passes from the parts of a value to the value holds of every value.  A table whose keys
are all different is what its entries make it in any order.
-/

namespace DscAudit

/-- A property of values that every value has if its parts have it. -/
@[elab_as_elim]
theorem Value.inductionOn {P : Value → Prop} (null : P .null) (bool : ∀ b, P (.bool b))
    (int : ∀ n, P (.int n)) (float : ∀ x, P (.float x)) (text : ∀ s, P (.text s))
    (list : ∀ items, (∀ item ∈ items, P item) → P (.list items))
    (table : ∀ entries, (∀ entry ∈ entries, P entry.2) → P (.table entries)) : ∀ v, P v := by
  have hnone : ∀ item ∈ ([] : List Value), P item := nofun
  have hmore : ∀ item items, P item → (∀ other ∈ items, P other) → ∀ other ∈ item :: items, P other :=
    fun _ _ hitem hitems => List.forall_mem_cons.mpr ⟨hitem, hitems⟩
  have hnoEntry : ∀ entry ∈ ([] : List (String × Value)), P entry.2 := nofun
  have hmoreEntries : ∀ (entry : String × Value) entries, P entry.2 →
      (∀ other ∈ entries, P other.2) → ∀ other ∈ entry :: entries, P other.2 :=
    fun _ _ hentry hentries => List.forall_mem_cons.mpr ⟨hentry, hentries⟩
  exact @Value.rec P (fun items => ∀ item ∈ items, P item)
    (fun entries => ∀ entry ∈ entries, P entry.2) (fun entry => P entry.2) null bool int float text
    list table hnone hmore hnoEntry hmoreEntries fun _ _ hvalue => hvalue

namespace Entries

variable {α : Type}

/-- Entries in the order of their keys. -/
def byKey (entries : List (String × α)) : List (String × α) :=
  entries.mergeSort fun a b => decide (a.1 ≤ b.1)

theorem byKey_perm (entries : List (String × α)) : (byKey entries).Perm entries :=
  List.mergeSort_perm _ _

theorem map_byKey {β : Type} (f : α → β) (entries : List (String × α)) :
    (byKey entries).map (fun entry => (entry.1, f entry.2)) =
      byKey (entries.map fun entry => (entry.1, f entry.2)) :=
  List.map_mergeSort fun _ _ _ _ => rfl

theorem insert_of_not_mem {key : String} {entries : Entries α}
    (hkey : key ∉ entries.map (·.1)) (value : α) : entries.insert key value = entries ++ [(key, value)] := by
  induction entries with
  | nil => rfl
  | cons entry entries ih =>
    rw [List.map_cons, List.mem_cons, not_or] at hkey
    rw [insert, if_neg (Ne.symm hkey.1), ih hkey.2, List.cons_append]

/-- Entries whose keys are all different stay as they are. -/
theorem ofList_of_nodup {entries : List (String × α)} (hnodup : (entries.map (·.1)).Nodup) :
    ofList entries = entries := by
  have hfold : ∀ rest before : Entries α, ((before ++ rest).map (·.1)).Nodup →
      rest.foldl (fun table entry => table.insert entry.1 entry.2) before = before ++ rest := by
    intro rest
    induction rest with
    | nil => simp
    | cons entry rest ih =>
      intro before hnodup
      have hnew : entry.1 ∉ before.map (·.1) := by
        rw [List.map_append, List.map_cons, List.nodup_append] at hnodup
        exact fun hmem => hnodup.2.2 entry.1 hmem entry.1 List.mem_cons_self rfl
      rw [List.foldl_cons, insert_of_not_mem hnew, ih]
      · rw [List.append_assoc]
        rfl
      · rw [List.append_assoc]
        exact hnodup
  exact hfold entries [] hnodup

theorem get?_of_mem {key : String} {value : α} {entries : Entries α}
    (hnodup : (entries.map (·.1)).Nodup) (hmem : (key, value) ∈ entries) :
    entries.get? key = some value := by
  induction entries with
  | nil => cases hmem
  | cons entry entries ih =>
    rw [List.map_cons, List.nodup_cons] at hnodup
    rcases List.mem_cons.mp hmem with rfl | hmem
    · exact if_pos rfl
    · have hne : entry.1 ≠ key := by
        rintro rfl
        exact hnodup.1 (List.mem_map.mpr ⟨_, hmem, rfl⟩)
      rw [get?, if_neg hne, ih hnodup.2 hmem]

theorem mem_of_get? {key : String} {value : α} {entries : Entries α}
    (hget : entries.get? key = some value) : (key, value) ∈ entries := by
  induction entries with
  | nil => cases hget
  | cons entry entries ih =>
    rw [get?] at hget
    split at hget
    · rename_i hkey
      obtain rfl := Option.some.inj hget
      exact hkey ▸ List.mem_cons_self
    · exact List.mem_cons_of_mem _ (ih hget)

theorem get?_eq_some_iff_mem {key : String} {value : α} {entries : Entries α}
    (hnodup : (entries.map (·.1)).Nodup) :
    entries.get? key = some value ↔ (key, value) ∈ entries :=
  ⟨mem_of_get?, get?_of_mem hnodup⟩

/-- The order of entries with different keys does not matter. -/
theorem get?_eq_of_perm {entries entries' : Entries α} (hperm : entries.Perm entries')
    (hnodup : (entries.map (·.1)).Nodup) (key : String) : entries.get? key = entries'.get? key := by
  have hnodup' := (hperm.map (·.1)).nodup_iff.mp hnodup
  ext value
  rw [get?_eq_some_iff_mem hnodup, get?_eq_some_iff_mem hnodup', hperm.mem_iff]

/-- An entry of entries whose keys are all different is in the table that their order makes. -/
theorem get?_ofList_byKey {key : String} {value : α} {entries : List (String × α)}
    (hnodup : (entries.map (·.1)).Nodup) (hmem : (key, value) ∈ entries) :
    (ofList (byKey entries)).get? key = some value := by
  have hperm := byKey_perm entries
  have hsorted : ((byKey entries).map (·.1)).Nodup := (hperm.map _).nodup_iff.mpr hnodup
  rw [ofList_of_nodup hsorted]
  exact get?_of_mem hsorted (hperm.mem_iff.mpr hmem)

end Entries

end DscAudit

/-!
## Entries that come up more than once

Of entries with one key the last one counts, and the key keeps the place where it first came up.
-/

namespace DscAudit.Entries

variable {α : Type}

theorem append_singleton_eq_append_cons_iff {items front behind : List α} {last item : α} :
    items ++ [last] = front ++ item :: behind ↔
      (behind = [] ∧ items = front ∧ last = item) ∨
        ∃ between, behind = between ++ [last] ∧ items = front ++ item :: between := by
  constructor
  · intro heq
    rcases List.eq_nil_or_concat' behind with rfl | ⟨between, other, rfl⟩
    · obtain ⟨rfl, hlast⟩ := List.append_inj' heq rfl
      exact .inl ⟨rfl, rfl, List.singleton_inj.mp hlast⟩
    · rw [← List.cons_append, ← List.append_assoc] at heq
      obtain ⟨rfl, hlast⟩ := List.append_inj' heq rfl
      obtain rfl := List.singleton_inj.mp hlast
      exact .inr ⟨between, rfl, rfl⟩
  · rintro (⟨rfl, rfl, rfl⟩ | ⟨between, rfl, rfl⟩)
    · rfl
    · simp

theorem ofList_append_singleton (entries : List (String × α)) (entry : String × α) :
    ofList (entries ++ [entry]) = (ofList entries).insert entry.1 entry.2 := by
  simp [ofList]

/-- What stands under a key is what the last entry with the key has. -/
theorem get?_ofList_eq_some_iff {entries : List (String × α)} {key : String} {value : α} :
    (ofList entries).get? key = some value ↔
      ∃ front behind, entries = front ++ (key, value) :: behind ∧ key ∉ behind.map (·.1) := by
  induction entries using List.reverseRecOn with
  | nil => simp [ofList, get?]
  | append_singleton entries entry ih =>
    simp only [append_singleton_eq_append_cons_iff, ofList_append_singleton]
    by_cases hkey : entry.1 = key
    · subst hkey
      rw [get?_insert_self, Option.some.injEq]
      constructor
      · rintro rfl
        exact ⟨entries, [], .inl ⟨rfl, rfl, rfl⟩, by simp⟩
      · rintro ⟨front, behind, ⟨-, -, hlast⟩ | ⟨between, rfl, -⟩, hbehind⟩
        · exact congrArg Prod.snd hlast
        · simp at hbehind
    · rw [get?_insert_of_ne (Ne.symm hkey), ih]
      constructor
      · rintro ⟨front, behind, rfl, hbehind⟩
        refine ⟨front, behind ++ [entry], .inr ⟨behind, rfl, rfl⟩, ?_⟩
        simp [hbehind, Ne.symm hkey]
      · rintro ⟨front, behind, ⟨-, -, rfl⟩ | ⟨between, rfl, rfl⟩, hbehind⟩
        · exact absurd rfl hkey
        · exact ⟨front, between, rfl, fun hmem => hbehind (by simp [hmem])⟩

theorem map_fst_insert (key : String) (value : α) (entries : Entries α) :
    (entries.insert key value).map (·.1) =
      if key ∈ entries.map (·.1) then entries.map (·.1) else entries.map (·.1) ++ [key] := by
  induction entries with
  | nil => rfl
  | cons entry entries ih =>
    rw [insert]
    by_cases hkey : entry.1 = key
    · simp [hkey]
    · rw [if_neg hkey, List.map_cons, ih]
      simp only [List.map_cons, List.mem_cons, Ne.symm hkey, false_or]
      split <;> rfl

theorem mem_map_fst_ofList {entries : List (String × α)} {key : String} :
    key ∈ (ofList entries).map (·.1) ↔ key ∈ entries.map (·.1) := by
  induction entries using List.reverseRecOn generalizing key with
  | nil => rfl
  | append_singleton entries entry ih =>
    rw [ofList_append_singleton, map_fst_insert, List.map_append, List.mem_append]
    split
    · rename_i hknown
      rw [ih] at hknown ⊢
      exact ⟨.inl, fun hmem => hmem.elim id fun hlast => List.mem_singleton.mp hlast ▸ hknown⟩
    · rw [List.mem_append, ih]
      rfl

theorem nodup_ofList (entries : List (String × α)) : ((ofList entries).map (·.1)).Nodup := by
  induction entries using List.reverseRecOn with
  | nil => exact List.nodup_nil
  | append_singleton entries entry ih =>
    rw [ofList_append_singleton, map_fst_insert]
    split
    · exact ih
    · rename_i hnew
      exact List.nodup_append.mpr ⟨ih, by simp, by grind⟩

/-- Of the keys with a property, the one that came up last: behind the place where it first came up,
no other key with the property comes up for the first time. -/
def IsNewest (p : String → Prop) (keys : List String) (key : String) : Prop :=
  p key ∧ ∃ front behind, keys = front ++ key :: behind ∧ key ∉ front ∧
    ∀ other ∈ behind, p other → other = key ∨ other ∈ front

/-- Among entries with different keys, the newest key is the last one with the property. -/
theorem isNewest_iff {p : String → Prop} {entries : List (String × α)} {key : String} :
    IsNewest p (entries.map (·.1)) key ↔
      p key ∧ ∃ front behind, (ofList entries).map (·.1) = front ++ key :: behind ∧
        ∀ other ∈ behind, ¬ p other := by
  unfold IsNewest
  refine and_congr_right fun hp => ?_
  induction entries using List.reverseRecOn with
  | nil => simp [ofList]
  | append_singleton entries entry ih =>
    have hkeys : ∀ other, other ∈ (ofList entries).map (·.1) ↔ other ∈ entries.map (·.1) :=
      fun _ => mem_map_fst_ofList
    rw [List.map_append, List.map_singleton, ofList_append_singleton, map_fst_insert]
    generalize entries.map (·.1) = keys at ih hkeys ⊢
    generalize (ofList entries).map (·.1) = firsts at ih hkeys ⊢
    simp only [append_singleton_eq_append_cons_iff]
    by_cases hknown : entry.1 ∈ firsts
    · -- a key that is known already changes neither side
      rw [if_pos hknown, ← ih]
      rw [hkeys] at hknown
      constructor
      · rintro ⟨front, behind, ⟨-, rfl, rfl⟩ | ⟨between, rfl, rfl⟩, hfront, hbehind⟩
        · exact absurd hknown hfront
        · exact ⟨front, between, rfl, hfront, fun other hother => hbehind other (by simp [hother])⟩
      · rintro ⟨front, behind, rfl, hfront, hbehind⟩
        refine ⟨front, behind ++ [entry.1], .inr ⟨behind, rfl, rfl⟩, hfront, ?_⟩
        grind
    · -- a new key is the newest one if it has the property, and does not matter otherwise
      rw [if_neg hknown]
      have hnew := mt (hkeys _).mpr hknown
      simp only [append_singleton_eq_append_cons_iff]
      constructor
      · rintro ⟨front, behind, ⟨-, rfl, rfl⟩ | ⟨between, rfl, rfl⟩, hfront, hbehind⟩
        · exact ⟨firsts, [], .inl ⟨rfl, rfl, rfl⟩, by simp⟩
        · obtain ⟨front', behind', rfl, hbehind'⟩ := ih.mp
            ⟨front, between, rfl, hfront, fun other hother => hbehind other (by simp [hother])⟩
          refine ⟨front', behind' ++ [entry.1], .inr ⟨behind', rfl, rfl⟩, ?_⟩
          grind
      · rintro ⟨front, behind, ⟨-, rfl, rfl⟩ | ⟨between, rfl, rfl⟩, hbehind⟩
        · exact ⟨keys, [], .inl ⟨rfl, rfl, rfl⟩, hnew, by simp⟩
        · obtain ⟨front', behind', rfl, hfront', hbehind'⟩ := ih.mpr
            ⟨front, between, rfl, fun other hother => hbehind other (by simp [hother])⟩
          refine ⟨front', behind' ++ [entry.1], .inr ⟨behind', rfl, rfl⟩, hfront', ?_⟩
          grind

/-- What stands under a key is what the last entry with the key has, if there is one. -/
theorem get?_ofList_eq (entries : List (String × α)) (key : String) :
    (ofList entries).get? key =
      ((entries.filter fun entry => entry.1 = key).getLast?).map (·.2) := by
  induction entries using List.reverseRecOn with
  | nil => rfl
  | append_singleton entries entry ih =>
    rw [ofList_append_singleton, List.filter_append]
    by_cases hkey : entry.1 = key
    · rw [hkey, get?_insert_self, List.filter_cons_of_pos (by simpa using hkey), List.filter_nil,
        List.getLast?_concat]
      rfl
    · rw [get?_insert_of_ne (Ne.symm hkey), List.filter_cons_of_neg (by simpa using hkey),
        List.filter_nil, List.append_nil, ih]

end DscAudit.Entries
