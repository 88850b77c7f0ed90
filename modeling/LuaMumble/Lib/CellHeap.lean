import Mathlib.Data.List.Nodup
import Mathlib.Logic.Function.Basic

/-!
Singly linked cells on a heap, as a C program sees them. A pointer may be
`NULL`, the address of a block, or not yet be given a value; what the program
must not follow stops it. A chain is a finite list of cells that ends in `NULL`.
It has no cycle, since a heap holds one cell at an address.
-/

namespace LuaMumble.Lib

/-- The value of a pointer variable or of a pointer field. -/
inductive Pointer where
  | uninitialised
  | null
  | to (address : Nat)
  deriving DecidableEq

/-- Why a run does not come to its end: it used a pointer without a value, it
followed `NULL` or a pointer to a block that is not allocated, or it needs more
steps than it was given. -/
inductive Stop where
  | uninitialised
  | null
  | freed
  | unfinished
  deriving DecidableEq

structure HeapCell (I D : Type*) where
  index : I
  data : D
  next : Pointer

/-- The allocated cells by address. -/
abbrev CellHeap (I D : Type*) := Nat → Option (HeapCell I D)

namespace CellHeap

variable {I D : Type*}

/-- `p == NULL`. -/
def isNull : Pointer → Except Stop Bool
  | .uninitialised => .error .uninitialised
  | .null => .ok true
  | .to _ => .ok false

/-- The cell behind a pointer. -/
def load (heap : CellHeap I D) : Pointer → Except Stop (HeapCell I D)
  | .uninitialised => .error .uninitialised
  | .null => .error .null
  | .to address =>
      match heap address with
      | none => .error .freed
      | some cell => .ok cell

/-- An assignment to a field of the cell behind a pointer. -/
def store (heap : CellHeap I D) (p : Pointer) (assign : HeapCell I D → HeapCell I D) :
    Except Stop (CellHeap I D) :=
  match p with
  | .uninitialised => .error .uninitialised
  | .null => .error .null
  | .to address =>
      match heap address with
      | none => .error .freed
      | some cell => .ok (Function.update heap address (some (assign cell)))

/-- `free(p)`. -/
def free (heap : CellHeap I D) : Pointer → Except Stop (CellHeap I D)
  | .uninitialised => .error .uninitialised
  | .null => .ok heap
  | .to address =>
      match heap address with
      | none => .error .freed
      | some _ => .ok (Function.update heap address none)

/-- From the pointer on, the cells with these addresses, indices and data are
linked in this order up to `NULL`. -/
def Chain (heap : CellHeap I D) : Pointer → List (Nat × I × D) → Prop
  | p, [] => p = .null
  | p, (address, index, data) :: rest =>
      p = .to address ∧ ∃ next, heap address = some ⟨index, data, next⟩ ∧ Chain heap next rest

/-- The addresses of a chain. -/
def addresses (cells : List (Nat × I × D)) : List Nat :=
  cells.map Prod.fst

@[simp] theorem addresses_cons (cell : Nat × I × D) (rest : List (Nat × I × D)) :
    addresses (cell :: rest) = cell.1 :: addresses rest := rfl

variable {heap : CellHeap I D} {p : Pointer} {cells rest : List (Nat × I × D)} {address : Nat}
  {index : I} {data : D} {next : Pointer}

theorem load_to (h : heap address = some ⟨index, data, next⟩) :
    load heap (.to address) = .ok ⟨index, data, next⟩ := by
  simp only [load, h]

theorem store_to (h : heap address = some ⟨index, data, next⟩)
    (assign : HeapCell I D → HeapCell I D) :
    store heap (.to address) assign =
      .ok (Function.update heap address (some (assign ⟨index, data, next⟩))) := by
  simp only [store, h]

theorem free_to (h : heap address = some ⟨index, data, next⟩) :
    free heap (.to address) = .ok (Function.update heap address none) := by
  simp only [free, h]

/-- A pointer leads to one chain at most. -/
theorem Chain.unique {other : List (Nat × I × D)} (h : Chain heap p cells)
    (hother : Chain heap p other) : cells = other := by
  induction cells generalizing p other with
  | nil =>
      cases other with
      | nil => rfl
      | cons cell rest =>
          have hnull : p = .null := h
          rw [hnull] at hother
          cases hother.1
  | cons cell rest ih =>
      obtain ⟨a, i, d⟩ := cell
      obtain ⟨hp, next, hcell, hrest⟩ := h
      cases other with
      | nil =>
          rw [hp] at hother
          cases hother
      | cons cell' rest' =>
          obtain ⟨a', i', d'⟩ := cell'
          obtain ⟨hp', next', hcell', hrest'⟩ := hother
          obtain rfl : a = a' := by
            rw [hp] at hp'
            cases hp'
            rfl
          rw [hcell] at hcell'
          cases hcell'
          rw [ih hrest hrest']

theorem Chain.drop_to {front : List (Nat × I × D)}
    (h : Chain heap p (front ++ (address, index, data) :: rest)) :
    Chain heap (.to address) ((address, index, data) :: rest) := by
  induction front generalizing p with
  | nil =>
      obtain ⟨-, hcell⟩ := h
      exact ⟨rfl, hcell⟩
  | cons cell front ih =>
      obtain ⟨-, next, -, hrest⟩ := h
      exact ih hrest

/-- A chain has no cycle. -/
theorem Chain.nodup (h : Chain heap p cells) : (addresses cells).Nodup := by
  induction cells generalizing p with
  | nil => exact List.nodup_nil
  | cons cell rest ih =>
      obtain ⟨a, i, d⟩ := cell
      have hrest : ∃ next, Chain heap next rest := by
        obtain ⟨-, next, -, hrest⟩ := h
        exact ⟨next, hrest⟩
      obtain ⟨next, hrest⟩ := hrest
      rw [addresses_cons, List.nodup_cons]
      refine ⟨?_, ih hrest⟩
      intro hmem
      -- met again, the cell would lead to a chain and to a shorter part of it
      obtain ⟨⟨b, j, e⟩, hcell, hb⟩ := List.mem_map.mp hmem
      obtain ⟨front, back, hsplit⟩ := List.append_of_mem hcell
      have hagain : Chain heap (.to b) ((b, j, e) :: back) := by
        rw [hsplit] at hrest
        exact hrest.drop_to
      have hfirst : Chain heap (.to b) ((a, i, d) :: rest) := by
        obtain ⟨-, hnode⟩ := h
        exact ⟨by rw [show b = a from hb], hnode⟩
      have hsame := congrArg List.length (hfirst.unique hagain)
      rw [hsplit] at hsame
      simp at hsame
      omega

/-- A chain is not changed by what happens at other addresses. -/
theorem Chain.update (cell : Option (HeapCell I D)) (hother : address ∉ addresses cells)
    (h : Chain heap p cells) : Chain (Function.update heap address cell) p cells := by
  induction cells generalizing p with
  | nil => exact h
  | cons first rest ih =>
      obtain ⟨a, i, d⟩ := first
      obtain ⟨hp, next, hcell, hrest⟩ := h
      rw [addresses_cons, List.mem_cons, not_or] at hother
      refine ⟨hp, next, ?_, ih hother.2 hrest⟩
      rw [Function.update_of_ne (Ne.symm hother.1)]
      exact hcell

theorem Chain.allocated (h : Chain heap p cells) (hmem : address ∈ addresses cells) :
    ∃ cell, heap address = some cell := by
  obtain ⟨⟨a, i, d⟩, hcell, rfl⟩ := List.mem_map.mp hmem
  obtain ⟨front, back, rfl⟩ := List.append_of_mem hcell
  obtain ⟨-, next, hnode, -⟩ := h.drop_to
  exact ⟨_, hnode⟩

/-- A cell at a fresh address that points to a chain makes it longer by one. -/
theorem Chain.push (h : Chain heap p cells) (hfresh : heap address = none) :
    Chain (Function.update heap address (some ⟨index, data, p⟩)) (.to address)
      ((address, index, data) :: cells) := by
  have hother : address ∉ addresses cells := by
    intro hmem
    obtain ⟨cell, hcell⟩ := h.allocated hmem
    rw [hfresh] at hcell
    cases hcell
  exact ⟨rfl, p, Function.update_self .., h.update _ hother⟩

/-- Without its first cell, which is freed, the rest is a chain. -/
theorem Chain.pop (h : Chain heap (.to address) ((address, index, data) :: rest))
    (hnext : heap address = some ⟨index, data, next⟩) :
    Chain (Function.update heap address none) next rest := by
  have hother := (List.nodup_cons.mp h.nodup).1
  obtain ⟨-, next', hcell, hrest⟩ := h
  rw [hnext] at hcell
  cases hcell
  exact hrest.update none hother

/-- A cell in the middle is taken out when the one before it is made to point
behind it and the cell is freed. -/
theorem Chain.unlink {front : List (Nat × I × D)} {b : Nat} {j : I} {e : D}
    (h : Chain heap p (front ++ (b, j, e) :: (address, index, data) :: rest))
    (hnext : heap address = some ⟨index, data, next⟩) :
    Chain (Function.update (Function.update heap b (some ⟨j, e, next⟩)) address none) p
      (front ++ (b, j, e) :: rest) := by
  induction front generalizing p with
  | nil =>
      have hdistinct := h.nodup
      obtain ⟨hp, next', hcell, hrest⟩ := h
      obtain ⟨-, next'', hcell', hrest'⟩ := hrest
      rw [hnext] at hcell'
      cases hcell'
      simp only [List.nil_append, addresses_cons, List.nodup_cons, List.mem_cons,
        not_or] at hdistinct
      obtain ⟨⟨hne, hb⟩, ha, -⟩ := hdistinct
      refine ⟨hp, next, ?_, (hrest'.update _ hb).update _ ha⟩
      rw [Function.update_of_ne hne]
      exact Function.update_self ..
  | cons cell front ih =>
      have hdistinct := h.nodup
      obtain ⟨c, k, f⟩ := cell
      obtain ⟨hp, next', hcell, hrest⟩ := h
      simp only [List.cons_append, addresses_cons, List.nodup_cons] at hdistinct
      have hmem : c ∉ addresses (front ++ (b, j, e) :: (address, index, data) :: rest) :=
        hdistinct.1
      simp only [addresses, List.map_append, List.map_cons, List.mem_append, List.mem_cons,
        not_or] at hmem
      refine ⟨hp, next', ?_, ih hrest⟩
      rw [Function.update_of_ne hmem.2.2.1, Function.update_of_ne hmem.2.1]
      exact hcell

end CellHeap

end LuaMumble.Lib
