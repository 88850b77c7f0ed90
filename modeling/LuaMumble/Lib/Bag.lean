import Mathlib.Data.List.Basic

/-!
A list that stands for a set. Items are put in front of it without a look if they are there, and
taken out one occurrence at a time. An item is in the set as long as it was put in more often
than it was taken out, so the list follows the set only as far as the occurrences are few enough.
-/

namespace LuaMumble.Lib.Bag

variable {K : Type*} [DecidableEq K]

/-- All the items are put in, one after the other. -/
def addAll (items list : List K) : List K :=
  items.foldl (fun list item => item :: list) list

/-- One occurrence of each of the items is taken out, one after the other. -/
def removeAll (items list : List K) : List K :=
  items.foldl List.erase list

variable (added removed list : List K) (item : K)

theorem count_addAll : (addAll added list).count item = list.count item + added.count item := by
  induction added generalizing list with
  | nil => rfl
  | cons other rest ih =>
      have hrest := ih (other :: list)
      rw [List.count_cons] at hrest
      rw [addAll, List.foldl_cons, List.count_cons]
      exact hrest.trans (by omega)

theorem count_removeAll :
    (removeAll removed list).count item = list.count item - removed.count item := by
  induction removed generalizing list with
  | nil => rfl
  | cons other rest ih =>
      have hrest := ih (list.erase other)
      rw [List.count_erase] at hrest
      rw [removeAll, List.foldl_cons, List.count_cons]
      refine hrest.trans ?_
      by_cases hother : other = item
      · simp only [hother, beq_self_eq_true, if_true]
        omega
      · simp [hother]

theorem mem_update :
    item ∈ removeAll removed (addAll added list) ↔
      removed.count item < list.count item + added.count item := by
  rw [← List.count_pos_iff, count_removeAll, count_addAll]
  omega

/-- The list follows the set at an item just when all its occurrences are taken out, if any is. -/
theorem mem_update_eq_iff :
    (item ∈ removeAll removed (addAll added list) ↔
        (item ∈ list ∨ item ∈ added) ∧ item ∉ removed) ↔
      (item ∈ removed → list.count item + added.count item ≤ removed.count item) := by
  have hin : (item ∈ list ∨ item ∈ added) ↔ 0 < list.count item + added.count item := by
    rw [← List.count_pos_iff, ← List.count_pos_iff]
    omega
  have hout : item ∈ removed ↔ 0 < removed.count item := List.count_pos_iff.symm
  rw [mem_update, hin, hout]
  omega

/-- The same where items are only shown under a condition, which may come to hold meanwhile. -/
theorem shown_update_iff {before after : Prop} (hmono : before → after) :
    (item ∈ removeAll removed (addAll added list) ∧ after ↔
        (item ∈ list ∧ before ∨ item ∈ added) ∧ item ∉ removed) ↔
      (item ∉ removed → (item ∈ added → after) ∧
        (item ∈ list → after → before ∨ item ∈ added)) ∧
      (item ∈ removed → after → list.count item + added.count item ≤ removed.count item) := by
  have hupdate := mem_update added removed list item
  by_cases hremoved : item ∈ removed
  · have hcounts : item ∈ removeAll removed (addAll added list) ↔
        ¬ (list.count item + added.count item ≤ removed.count item) := by
      rw [hupdate]
      omega
    simp only [hcounts, hremoved, not_true_eq_false, and_false, iff_false, false_imp_iff,
      true_and, true_imp_iff]
    rw [not_and', not_not]
  · have hnone : removed.count item = 0 := List.count_eq_zero.mpr hremoved
    have hin : item ∈ removeAll removed (addAll added list) ↔ item ∈ list ∨ item ∈ added := by
      rw [hupdate, hnone, ← List.count_pos_iff, ← List.count_pos_iff]
      omega
    simp only [hin, hremoved, not_false_eq_true, and_true, true_imp_iff, false_imp_iff]
    constructor
    · intro hshown
      refine ⟨fun hadded => (hshown.mpr (.inr hadded)).2, ?_⟩
      intro hlist hafter
      exact (hshown.mp ⟨.inl hlist, hafter⟩).imp And.right id
    · rintro ⟨hadd, hlisted⟩
      constructor
      · rintro ⟨hlist | hadded, hafter⟩
        · exact (hlisted hlist hafter).imp (And.intro hlist) id
        · exact .inr hadded
      · rintro (⟨hlist, hbefore⟩ | hadded)
        · exact ⟨.inl hlist, hmono hbefore⟩
        · exact ⟨.inr hadded, hadd hadded⟩

end LuaMumble.Lib.Bag
