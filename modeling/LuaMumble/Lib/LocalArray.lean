import LuaMumble.Lib.TracedRead

/-!
Arrays on the stack that code fills through a pointer. Nothing keeps a store inside of the
array: memory goes on behind it, and how far the stores have gone is remembered. A store leaves
the bytes in front of it, so that what is laid out from the front to the back is there in the
end.
-/

namespace LuaMumble.Lib

open TracedRead

/-- The memory from the start of an array on, and where the stores to it have ended. -/
structure LocalArray where
  memory : Memory
  extent : Nat

namespace LocalArray

/-- An array that is not initialized. -/
def fresh (memory : Memory) : LocalArray := ⟨memory, 0⟩

def store (array : LocalArray) (start : Nat) (bytes : List UInt8) : LocalArray :=
  { memory := fun i =>
      if start ≤ i then bytes.getD (i - start) (array.memory i) else array.memory i
    extent := max array.extent (start + bytes.length) }

variable {array : LocalArray} {start : Nat} {bytes : List UInt8}

theorem store_before {i : Nat} (hi : i < start) :
    (array.store start bytes).memory i = array.memory i :=
  if_neg (by omega)

theorem store_inside {i : Nat} (hi : i < bytes.length) :
    (array.store start bytes).memory (start + i) = bytes[i] := by
  have hcopied : (array.store start bytes).memory (start + i) =
      bytes.getD (start + i - start) (array.memory (start + i)) :=
    if_pos (Nat.le_add_right start i)
  rw [hcopied, Nat.add_sub_cancel_left, List.getD_eq_getElem?_getD, List.getElem?_eq_getElem hi,
    Option.getD_some]

@[simp] theorem extent_fresh (memory : Memory) : (fresh memory).extent = 0 := rfl

/-- Where the stores end once bytes are stored behind all others. -/
theorem extent_store (hextent : array.extent ≤ start) :
    (array.store start bytes).extent = start + bytes.length :=
  Nat.max_eq_right (by omega)

theorem holds_store : Holds (array.store start bytes).memory start bytes := by
  rw [holds_iff]
  intro i hi
  exact store_inside hi

/-- A store leaves the bytes in front of it. -/
theorem holds_of_store {first : Nat} {xs : List UInt8} (hxs : Holds array.memory first xs)
    (hle : first + xs.length ≤ start) : Holds (array.store start bytes).memory first xs := by
  rw [holds_iff] at hxs ⊢
  intro i hi
  rw [store_before (by omega)]
  exact hxs i hi

/-- Bytes stored right behind others continue them. -/
theorem holds_store_append {first : Nat} {xs : List UInt8} (hxs : Holds array.memory first xs)
    (hstart : first + xs.length = start) :
    Holds (array.store start bytes).memory first (xs ++ bytes) := by
  rw [holds_append, hstart]
  exact ⟨holds_of_store hxs (Nat.le_of_eq hstart), holds_store⟩

end LocalArray

end LuaMumble.Lib
