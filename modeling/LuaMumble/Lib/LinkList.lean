import Mathlib.Data.List.Basic
import Mathlib.Data.List.Nodup

/-!
Linked lists of nodes with an index and some data. A node is added in front of the
others and taken out by its index. Nothing keeps two nodes apart: the same index, and
the same data, may occur many times. The lemmas say what adding and removing a node
does to the indices under which each data item is listed.
-/

namespace LuaMumble.Lib.LinkList

variable {K D : Type*}

/-- The list without its first node of that index. -/
def remove [DecidableEq K] (index : K) (nodes : List (K × D)) : List (K × D) :=
  nodes.eraseP (fun node => node.1 = index)

/-- Distinct indices stay distinct. -/
theorem nodup_remove [DecidableEq K] {index : K} {nodes : List (K × D)}
    (h : (nodes.map Prod.fst).Nodup) : ((remove index nodes).map Prod.fst).Nodup :=
  h.sublist (List.eraseP_sublist.map Prod.fst)

variable [DecidableEq D]

/-- The indices of the nodes with that data, in the order of the list. -/
def indices (nodes : List (K × D)) (data : D) : List K :=
  (nodes.filter fun node => node.2 = data).map Prod.fst

theorem mem_indices {nodes : List (K × D)} {data : D} {index : K} :
    index ∈ indices nodes data ↔ (index, data) ∈ nodes := by
  simp [indices]

@[simp] theorem indices_cons_self (index : K) (data : D) (nodes : List (K × D)) :
    indices ((index, data) :: nodes) data = index :: indices nodes data := by
  simp [indices]

theorem indices_cons_of_ne (index : K) {data other : D} (hne : other ≠ data)
    (nodes : List (K × D)) : indices ((index, data) :: nodes) other = indices nodes other := by
  simp [indices, Ne.symm hne]

/-- Under distinct indices, one index lists one data item. -/
theorem data_unique {index : K} {nodes : List (K × D)} {data other : D}
    (h : (nodes.map Prod.fst).Nodup) (hdata : index ∈ indices nodes data)
    (hother : index ∈ indices nodes other) : other = data := by
  have heq := List.inj_on_of_nodup_map h (mem_indices.mp hother) (mem_indices.mp hdata) rfl
  exact congrArg Prod.snd heq

variable [DecidableEq K]

/-- Removing a node leaves alone the data that is not listed under its index. -/
theorem indices_remove_of_notMem {index : K} {nodes : List (K × D)} {other : D}
    (hother : index ∉ indices nodes other) :
    indices (remove index nodes) other = indices nodes other := by
  induction nodes with
  | nil => rfl
  | cons node rest ih =>
      obtain ⟨i, d⟩ := node
      by_cases hdata : other = d
      · subst hdata
        rw [indices_cons_self, List.mem_cons, not_or] at hother
        have hkeep : remove index ((i, other) :: rest) = (i, other) :: remove index rest :=
          List.eraseP_cons_of_neg (by simpa using Ne.symm hother.1)
        rw [hkeep, indices_cons_self, indices_cons_self, ih hother.2]
      · rw [indices_cons_of_ne i hdata] at hother ⊢
        by_cases hindex : i = index
        · have htaken : remove index ((i, d) :: rest) = rest :=
            List.eraseP_cons_of_pos (by simpa using hindex)
          rw [htaken]
        · have hkeep : remove index ((i, d) :: rest) = (i, d) :: remove index rest :=
            List.eraseP_cons_of_neg (by simpa using hindex)
          rw [hkeep, indices_cons_of_ne i hdata, ih hother]

/-- Where only that data is listed under the index, removing takes one occurrence of
the index from it. -/
theorem indices_remove_self [BEq K] [LawfulBEq K] {index : K} {nodes : List (K × D)} {data : D}
    (honly : ∀ other, index ∈ indices nodes other → other = data) :
    indices (remove index nodes) data = (indices nodes data).erase index := by
  induction nodes with
  | nil => rfl
  | cons node rest ih =>
      obtain ⟨i, d⟩ := node
      have hrest : ∀ other, index ∈ indices rest other → other = data := by
        intro other hmem
        exact honly other (mem_indices.mpr (List.mem_cons_of_mem _ (mem_indices.mp hmem)))
      by_cases hindex : i = index
      · subst hindex
        have hdata : d = data := honly d (by simp)
        subst hdata
        have htaken : remove i ((i, d) :: rest) = rest :=
          List.eraseP_cons_of_pos (by simp)
        rw [htaken, indices_cons_self, List.erase_cons_head]
      · have hkeep : remove index ((i, d) :: rest) = (i, d) :: remove index rest :=
          List.eraseP_cons_of_neg (by simpa using hindex)
        rw [hkeep]
        by_cases hdata : data = d
        · subst hdata
          rw [indices_cons_self, indices_cons_self, ih hrest,
            List.erase_cons_tail (by simpa using hindex)]
        · rw [indices_cons_of_ne i hdata, indices_cons_of_ne i hdata, ih hrest]

end LuaMumble.Lib.LinkList
