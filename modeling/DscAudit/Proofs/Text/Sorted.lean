import Mathlib.Data.List.Nodup
import Mathlib.Data.String.Basic

/-!
# Sorting by texts

What is sorted by a text that belongs to each item has these texts in order, and if each item has a text
of its own, how the items were ordered before does not matter.
-/

namespace DscAudit.Text

variable {α : Type} (key : α → String)

theorem pairwise_sortBy (items : List α) :
    (items.mergeSort fun a b => decide (key a ≤ key b)).Pairwise fun a b => key a ≤ key b := by
  let le (a b : α) : Bool := decide (key a ≤ key b)
  have htrans (a b c : α) (hab : le a b = true) (hbc : le b c = true) : le a c = true := by
    rw [decide_eq_true_eq] at hab hbc ⊢
    exact le_trans hab hbc
  have htotal (a b : α) : (le a b || le b a) = true := by
    simpa [le] using le_total (key a) (key b)
  exact (List.pairwise_mergeSort htrans htotal items).imp of_decide_eq_true

variable {key}

theorem sortBy_eq_of_perm {items order : List α} (hperm : order.Perm items)
    (hkeys : (items.map key).Nodup) :
    (order.mergeSort fun a b => decide (key a ≤ key b)) =
      items.mergeSort fun a b => decide (key a ≤ key b) := by
  have hsorted : (order.mergeSort fun a b => decide (key a ≤ key b)).Perm
      (items.mergeSort fun a b => decide (key a ≤ key b)) :=
    (List.mergeSort_perm order _).trans (hperm.trans (List.mergeSort_perm items _).symm)
  refine hsorted.eq_of_pairwise ?_ (pairwise_sortBy key order) (pairwise_sortBy key items)
  intro a b ha hb hab hba
  have ha' : a ∈ items := hperm.mem_iff.mp ((List.mergeSort_perm order _).mem_iff.mp ha)
  have hb' : b ∈ items := (List.mergeSort_perm items _).mem_iff.mp hb
  exact List.inj_on_of_nodup_map hkeys ha' hb' (le_antisymm hab hba)

end DscAudit.Text
