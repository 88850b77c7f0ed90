import Mathlib.Data.List.Basic
import Mathlib.Logic.Function.Basic

/-!
Ring buffers in a row of `size` cells. What is queued begins at the cell `tail`
and goes on at cell 0 when it comes to the end of the row. Copies into the ring
and out of it are made in two pieces, one on each side of that end; the lemmas
say that the pieces append to the queue and take from its front.
-/

namespace LuaMumble.Lib.RingBuffer

variable {α : Type*}

/-- The cells after a copy of `src` to the cells from `pos` on. -/
def copyIn (cells : Nat → α) (pos : Nat) (src : List α) : Nat → α := fun i =>
  if pos ≤ i then src.getD (i - pos) (cells i) else cells i

/-- A copy of the `n` cells from `pos` on. -/
def copyOut (cells : Nat → α) (pos n : Nat) : List α :=
  (List.range n).map fun i => cells (pos + i)

/-- What is queued: `used` cells, in order. -/
def contents (cells : Nat → α) (size tail used : Nat) : List α :=
  (List.range used).map fun i => cells ((tail + i) % size)

/-- The number of cells in front of the end of the row. -/
def upToEnd (size pos count : Nat) : Nat := min count (size - pos)

variable {cells : Nat → α} {size tail used : Nat}

@[simp] theorem contents_length : (contents cells size tail used).length = used := by
  simp [contents]

theorem copyIn_inside {pos i : Nat} {src : List α} (hi : i < src.length) :
    copyIn cells pos src (pos + i) = src[i] := by
  simp [copyIn, hi]

theorem copyIn_outside {pos i : Nat} {src : List α} (hi : i < pos ∨ pos + src.length ≤ i) :
    copyIn cells pos src i = cells i := by
  rw [copyIn]
  split
  · have hpast : src.length ≤ i - pos := by omega
    rw [List.getD_eq_getElem?_getD, List.getElem?_eq_none hpast, Option.getD_none]
  · rfl

/-- An index of the queue as a cell. -/
theorem wrapped {pos i : Nat} (hpos : pos < size) (hi : i ≤ size) :
    (pos + i) % size = if pos + i < size then pos + i else pos + i - size := by
  split
  · rename_i h
    exact Nat.mod_eq_of_lt h
  · rename_i h
    rw [Nat.mod_eq_sub_mod (by omega), Nat.mod_eq_of_lt (by omega)]

theorem contents_add (n m : Nat) :
    contents cells size tail (n + m) =
      contents cells size tail n ++ contents cells size ((tail + n) % size) m := by
  simp [contents, List.range_add, Nat.add_assoc, Function.comp_def]

theorem contents_succ (n : Nat) :
    contents cells size tail (n + 1) =
      contents cells size tail n ++ [cells ((tail + n) % size)] := by
  simp [contents, List.range_succ]

/-- What is queued first. -/
theorem contents_take {n : Nat} (hn : n ≤ used) :
    (contents cells size tail used).take n = contents cells size tail n := by
  obtain ⟨m, rfl⟩ := Nat.exists_eq_add_of_le hn
  rw [contents_add, List.take_left' contents_length]

/-- Cells that are less than `size` apart are different. -/
theorem wrapped_ne {i j : Nat} (hlt : i < j) (hnear : j < i + size) :
    (tail + i) % size ≠ (tail + j) % size := by
  intro heq
  have hdvd : size ∣ (tail + j) - (tail + i) :=
    Nat.dvd_of_mod_eq_zero (Nat.sub_mod_eq_zero_of_mod_eq heq.symm)
  have hzero := Nat.eq_zero_of_dvd_of_lt hdvd (by omega)
  omega

/-- A sample stored behind what is queued leaves it alone. -/
theorem contents_update_behind {k : Nat} (hused : used ≤ k) (hk : k < size) (sample : α) :
    contents (Function.update cells ((tail + k) % size) sample) size tail used =
      contents cells size tail used := by
  apply List.map_congr_left
  intro i hi
  have hlt := List.mem_range.mp hi
  exact Function.update_of_ne (wrapped_ne (by omega) (by omega)) _ _

/-- A sample stored directly behind what is queued is queued next. -/
theorem contents_update_next (hused : used < size) (sample : α) :
    contents (Function.update cells ((tail + used) % size) sample) size tail (used + 1) =
      contents cells size tail used ++ [sample] := by
  rw [contents_succ, contents_update_behind (Nat.le_refl _) hused, Function.update_self]

section Write

variable {head : Nat} {src : List α}

/-- The cells after the two copies. -/
private theorem copied (hhead : head < size) (hroom : src.length ≤ size) {j : Nat}
    (hj : j < src.length) :
    copyIn (copyIn cells head (src.take (upToEnd size head src.length))) 0
        (src.drop (upToEnd size head src.length)) ((head + j) % size) = src[j] := by
  rw [wrapped hhead (by omega)]
  split
  · rename_i hfront
    have hfirst : j < (src.take (upToEnd size head src.length)).length := by
      simp [upToEnd]
      omega
    rw [copyIn_outside (by simp [upToEnd]; omega), copyIn_inside hfirst, List.getElem_take]
  · rename_i hback
    have hfirst : upToEnd size head src.length = size - head := by
      rw [upToEnd]
      omega
    have hcell : head + j - size = 0 + (j - (size - head)) := by omega
    have hindex : size - head + (j - (size - head)) = j := by omega
    rw [hfirst, hcell, copyIn_inside (by simp; omega), List.getElem_drop]
    simp only [hindex]

/-- What is queued already lies beside the cells of the two copies. -/
private theorem kept (htail : tail < size) (hroom : used + src.length ≤ size)
    (hhead : head = (tail + used) % size) {i : Nat} (hi : i < used) :
    copyIn (copyIn cells head (src.take (upToEnd size head src.length))) 0
        (src.drop (upToEnd size head src.length)) ((tail + i) % size) =
      cells ((tail + i) % size) := by
  rw [wrapped htail (by omega)] at hhead ⊢
  rw [copyIn_outside, copyIn_outside]
  · simp only [List.length_take, upToEnd]
    split_ifs at hhead ⊢ <;> omega
  · simp only [List.length_drop, upToEnd]
    split_ifs at hhead ⊢ <;> omega

/-- Two copies into the ring append to the queue. -/
theorem contents_copyIn (htail : tail < size) (hroom : used + src.length ≤ size)
    (hhead : head = (tail + used) % size) :
    contents
        (copyIn (copyIn cells head (src.take (upToEnd size head src.length))) 0
          (src.drop (upToEnd size head src.length)))
        size tail (used + src.length) =
      contents cells size tail used ++ src := by
  have hlt : head < size := by
    rw [hhead]
    exact Nat.mod_lt _ (by omega)
  rw [contents_add, ← hhead]
  apply congrArg₂
  · apply List.map_congr_left
    intro i hi
    exact kept htail hroom hhead (List.mem_range.mp hi)
  · apply List.ext_getElem (by simp)
    intro j _ hj
    simp only [contents, List.getElem_map, List.getElem_range]
    exact copied hlt (by omega) hj

end Write

/-- Two copies out of the ring are what is queued first. -/
theorem copyOut_append (htail : tail < size) (hused : used ≤ size) :
    copyOut cells tail (upToEnd size tail used) ++
        copyOut cells 0 (used - upToEnd size tail used) =
      contents cells size tail used := by
  have hsplit : used = upToEnd size tail used + (used - upToEnd size tail used) := by
    rw [upToEnd]
    omega
  conv_rhs => rw [hsplit, contents_add]
  apply congrArg₂
  · apply List.map_congr_left
    intro i hi
    have hlt := List.mem_range.mp hi
    rw [upToEnd] at hlt
    rw [Nat.mod_eq_of_lt (by omega)]
  · apply List.map_congr_left
    intro i hi
    have hlt := List.mem_range.mp hi
    rw [upToEnd] at hlt ⊢
    have hend : tail + min used (size - tail) = size := by omega
    rw [hend, Nat.mod_self, Nat.mod_eq_of_lt (by omega)]

end LuaMumble.Lib.RingBuffer
