import LuaMumble.Lib.CellHeap

/-!
The linked lists of `util.c`, which hold the clients, channels, users, links and
streams. The functions walk from a head pointer on the heap; a loop is given a
number of steps and stops unfinished when they do not suffice.
-/

namespace LuaMumble.Util

open Lib Lib.CellHeap

/-- A `void*`: `none` is `NULL`. -/
abbrev VoidPointer := Option Nat

abbrev LinkNode := HeapCell UInt32 VoidPointer

abbrev LinkHeap := CellHeap UInt32 VoidPointer

/-- `malloc(sizeof(LinkNode))`: the block it finds, if any, holds what was left
there, and no pointer that was assigned. -/
def malloc (heap : LinkHeap) (block : Option Nat) (left : UInt32 × VoidPointer) :
    LinkHeap × Pointer :=
  match block with
  | none => (heap, .null)
  | some address =>
      (Function.update heap address (some ⟨left.1, left.2, .uninitialised⟩), .to address)

/-- `list_add`: the heap after it and what `*head_ref` points to. -/
def listAdd (heap : LinkHeap) (head : Pointer) (block : Option Nat)
    (left : UInt32 × VoidPointer) (index : UInt32) (data : VoidPointer) :
    Except Stop (LinkHeap × Pointer) := do
  let (heap, newNode) := malloc heap block left
  let heap ← store heap newNode fun node => { node with index := index }
  let heap ← store heap newNode fun node => { node with data := data }
  let heap ← store heap newNode fun node => { node with next := head }
  return (heap, newNode)

/-- `temp != NULL && temp->index == index`, or the same with the data. -/
def matchesKey (heap : LinkHeap) (key : LinkNode → Bool) (temp : Pointer) : Except Stop Bool := do
  if ← isNull temp then
    return false
  let node ← load heap temp
  return key node

/-- `temp != NULL && temp->index != index`, or the same with the data. -/
def passesKey (heap : LinkHeap) (key : LinkNode → Bool) (temp : Pointer) : Except Stop Bool := do
  if ← isNull temp then
    return false
  let node ← load heap temp
  return !key node

/-- The search loop, which keeps the previous node; `temp` and `prev` after it. -/
def search (heap : LinkHeap) (key : LinkNode → Bool) :
    Nat → Pointer → Pointer → Except Stop (Pointer × Pointer)
  | 0, _, _ => .error .unfinished
  | steps + 1, temp, prev => do
      if ← passesKey heap key temp then
        let node ← load heap temp
        search heap key steps node.next temp
      else
        return (temp, prev)

/-- `list_remove`: the heap after it and what `*head_ref` points to. -/
def listRemove (steps : Nat) (heap : LinkHeap) (head : Pointer) (index : UInt32) :
    Except Stop (LinkHeap × Pointer) := do
  if ← matchesKey heap (fun node => node.index == index) head then
    let node ← load heap head
    let heap ← free heap head
    return (heap, node.next)
  let (temp, prev) ← search heap (fun node => node.index == index) steps head .null
  if ← isNull temp then
    return (heap, head)
  let node ← load heap temp
  let heap ← store heap prev fun cell => { cell with next := node.next }
  let heap ← store heap temp fun cell => { cell with next := .null }
  let heap ← free heap temp
  return (heap, head)

/-- `list_remove_data`: here `prev` has no value before the loop, and the node
that is taken out keeps its pointer until it is freed. -/
def listRemoveData (steps : Nat) (heap : LinkHeap) (head : Pointer) (data : VoidPointer) :
    Except Stop (LinkHeap × Pointer) := do
  if ← matchesKey heap (fun node => node.data == data) head then
    let node ← load heap head
    let heap ← free heap head
    return (heap, node.next)
  let (temp, prev) ← search heap (fun node => node.data == data) steps head .uninitialised
  if ← isNull temp then
    return (heap, head)
  let node ← load heap temp
  let heap ← store heap prev fun cell => { cell with next := node.next }
  let heap ← free heap temp
  return (heap, head)

/-- The loop of `list_clear`, which reads `next` before the node is freed. -/
def clearFrom : Nat → LinkHeap → Pointer → Except Stop LinkHeap
  | 0, _, _ => .error .unfinished
  | steps + 1, heap, current => do
      if ← isNull current then
        return heap
      let node ← load heap current
      let heap ← free heap current
      clearFrom steps heap node.next

def listClear (steps : Nat) (heap : LinkHeap) (head : Pointer) :
    Except Stop (LinkHeap × Pointer) := do
  let heap ← clearFrom steps heap head
  return (heap, .null)

/-- The loop of `list_count`. -/
def countFrom (heap : LinkHeap) : Nat → Pointer → Nat → Except Stop Nat
  | 0, _, _ => .error .unfinished
  | steps + 1, current, count => do
      if ← isNull current then
        return count
      let node ← load heap current
      countFrom heap steps node.next (count + 1)

def listCount (steps : Nat) (heap : LinkHeap) (head : Pointer) : Except Stop Nat :=
  countFrom heap steps head 0

def listGet (heap : LinkHeap) : Nat → Pointer → UInt32 → Except Stop VoidPointer
  | 0, _, _ => .error .unfinished
  | steps + 1, current, index => do
      if ← isNull current then
        return none
      let node ← load heap current
      if node.index == index then
        return node.data
      listGet heap steps node.next index

/-- A node of a chain: its address, index and data. -/
abbrev Cell := Nat × UInt32 × VoidPointer

/-- What the search looks at, for a cell of the chain. -/
def cellMatches (key : LinkNode → Bool) (cell : Cell) : Bool :=
  key ⟨cell.2.1, cell.2.2, .null⟩

/-- The key of a node does not depend on its pointer. -/
def Local (key : LinkNode → Bool) : Prop :=
  ∀ index data next, key ⟨index, data, next⟩ = key ⟨index, data, .null⟩

variable {heap : LinkHeap} {head p : Pointer} {cells rest front : List Cell} {steps : Nat}
  {key : LinkNode → Bool} {address : Nat} {index : UInt32} {data : VoidPointer} {next : Pointer}

/-- A loop along a chain, with more steps than there are nodes: it comes to `NULL`, or to a
node with one step less for the rest. -/
theorem loop_induction {motive : Pointer → List Cell → Nat → Prop}
    (null : ∀ steps, motive .null [] (steps + 1))
    (node : ∀ address index data next rest steps, heap address = some ⟨index, data, next⟩ →
      motive next rest steps → motive (.to address) ((address, index, data) :: rest) (steps + 1))
    (h : Chain heap p cells) (hsteps : cells.length < steps) : motive p cells steps := by
  induction cells generalizing p steps with
  | nil =>
      obtain ⟨steps, rfl⟩ := Nat.exists_eq_add_of_lt hsteps
      obtain rfl : p = .null := h
      exact null _
  | cons cell rest ih =>
      obtain ⟨a, i, d⟩ := cell
      obtain ⟨rfl, next, hcell, hrest⟩ := h
      cases steps with
      | zero => cases hsteps
      | succ steps =>
          exact node a i d next rest steps hcell (ih hrest (Nat.lt_of_succ_lt_succ hsteps))

theorem matchesKey_to (hlocal : Local key) (hcell : heap address = some ⟨index, data, next⟩) :
    matchesKey heap key (.to address) = .ok (cellMatches key (address, index, data)) := by
  simp only [matchesKey, isNull, load_to hcell]
  exact congrArg Except.ok (hlocal index data next)

theorem passesKey_to (hlocal : Local key) (hcell : heap address = some ⟨index, data, next⟩) :
    passesKey heap key (.to address) = .ok (!cellMatches key (address, index, data)) := by
  simp only [passesKey, isNull, load_to hcell]
  exact congrArg (fun b => Except.ok !b) (hlocal index data next)

/-- The loop goes on behind a node that does not match. -/
theorem search_next (hlocal : Local key) (hcell : heap address = some ⟨index, data, next⟩)
    (hkey : cellMatches key (address, index, data) = false) (prev : Pointer) :
    search heap key (steps + 1) (.to address) prev = search heap key steps next (.to address) := by
  rw [search, passesKey_to hlocal hcell, hkey, load_to hcell]
  rfl

/-- Where no node matches, the search comes to `NULL`. -/
theorem search_absent (hlocal : Local key) (h : Chain heap p cells)
    (hkey : ∀ cell ∈ cells, cellMatches key cell = false) (hsteps : cells.length < steps)
    (prev : Pointer) : ∃ last, search heap key steps p prev = .ok (.null, last) := by
  revert hkey prev
  refine loop_induction (motive := fun p cells steps =>
    (∀ cell ∈ cells, cellMatches key cell = false) →
      ∀ prev, ∃ last, search heap key steps p prev = .ok (.null, last)) ?_ ?_ h hsteps
  · intro steps _ prev
    exact ⟨prev, rfl⟩
  · intro a i d next rest steps hcell ih hkey prev
    rw [search_next hlocal hcell (hkey _ List.mem_cons_self)]
    exact ih (fun cell hmem => hkey cell (List.mem_cons_of_mem _ hmem)) _

/-- The search stops at the first node that matches; `prev` is the one before. -/
theorem search_found (hlocal : Local key)
    (h : Chain heap p (front ++ (address, index, data) :: rest))
    (hfront : ∀ cell ∈ front, cellMatches key cell = false)
    (hkey : cellMatches key (address, index, data) = true) (hsteps : front.length < steps)
    (prev : Pointer) :
    search heap key steps p prev =
      .ok (.to address, (front.getLast?.map fun cell => .to cell.1).getD prev) := by
  induction front generalizing p prev steps with
  | nil =>
      obtain ⟨rfl, next, hcell, -⟩ := h
      cases steps with
      | zero => cases hsteps
      | succ steps =>
          rw [search, passesKey_to hlocal hcell, hkey]
          rfl
  | cons cell front ih =>
      obtain ⟨a, i, d⟩ := cell
      obtain ⟨rfl, next, hcell, hrest⟩ := h
      cases steps with
      | zero => cases hsteps
      | succ steps =>
          rw [search_next hlocal hcell (hfront _ List.mem_cons_self),
            ih hrest (fun cell hmem => hfront cell (List.mem_cons_of_mem _ hmem))
              (Nat.lt_of_succ_lt_succ hsteps)]
          cases front with
          | nil => rfl
          | cons cell' front' =>
              rw [List.getLast?_cons_cons, List.getLast?_eq_some_getLast (List.cons_ne_nil _ _)]
              rfl

/-- The first cell that matches is out of the list and freed, the others are
kept in order, and nothing else on the heap is changed. -/
structure Removes (key : LinkNode → Bool) (heap heap' : LinkHeap) (head head' : Pointer)
    (cells : List Cell) : Prop where
  chain : Chain heap' head' (cells.eraseP (cellMatches key))
  acyclic : (addresses (cells.eraseP (cellMatches key))).Nodup
  freed : ∀ cell ∈ cells.find? (cellMatches key), heap' cell.1 = none
  others : ∀ other ∉ addresses cells, heap' other = heap other
  absent : cells.find? (cellMatches key) = none → heap' = heap ∧ head' = head

theorem removes_absent (h : Chain heap head cells)
    (hkey : ∀ cell ∈ cells, cellMatches key cell = false) :
    Removes key heap heap head head cells := by
  have herase : cells.eraseP (cellMatches key) = cells := by
    apply List.eraseP_of_forall_not
    intro cell hcell
    simp [hkey cell hcell]
  have hfind : cells.find? (cellMatches key) = none := by
    rw [List.find?_eq_none]
    intro cell hcell
    simp [hkey cell hcell]
  exact {
    chain := by rw [herase]; exact h
    acyclic := by rw [herase]; exact h.nodup
    freed := by simp [hfind]
    others := fun _ _ => rfl
    absent := fun _ => ⟨rfl, rfl⟩ }

/-- A cell was found: it is freed, and what is left is a chain. -/
theorem removes_found {heap' : LinkHeap} {head' : Pointer} {kept : List Cell}
    (herase : cells.eraseP (cellMatches key) = kept)
    (hfind : cells.find? (cellMatches key) = some (address, index, data))
    (hchain : Chain heap' head' kept) (hfreed : heap' address = none)
    (hothers : ∀ other ∉ addresses cells, heap' other = heap other) :
    Removes key heap heap' head head' cells := by
  constructor
  · rw [herase]
    exact hchain
  · rw [herase]
    exact hchain.nodup
  · rw [hfind]
    rintro cell hsome
    cases hsome
    exact hfreed
  · exact hothers
  · intro hnone
    rw [hfind] at hnone
    cases hnone

theorem removes_head (h : Chain heap head ((address, index, data) :: rest))
    (hcell : heap address = some ⟨index, data, next⟩)
    (hkey : cellMatches key (address, index, data) = true) :
    Removes key heap (Function.update heap address none) head next
      ((address, index, data) :: rest) := by
  have hchain : Chain (Function.update heap address none) next rest := by
    obtain rfl : head = .to address := h.1
    exact h.pop hcell
  apply removes_found (List.eraseP_cons_of_pos hkey) (List.find?_cons_of_pos hkey) hchain
    (Function.update_self ..)
  intro other hother
  rw [addresses_cons, List.mem_cons, not_or] at hother
  exact Function.update_of_ne hother.1 _ _

theorem removes_behind {b : Nat} {j : UInt32} {e : VoidPointer}
    (h : Chain heap head (front ++ (b, j, e) :: (address, index, data) :: rest))
    (hcell : heap address = some ⟨index, data, next⟩)
    (hfront : ∀ cell ∈ front ++ [(b, j, e)], cellMatches key cell = false)
    (hkey : cellMatches key (address, index, data) = true) :
    Removes key heap
      (Function.update (Function.update heap b (some ⟨j, e, next⟩)) address none) head head
      (front ++ (b, j, e) :: (address, index, data) :: rest) := by
  have hsplit : front ++ (b, j, e) :: (address, index, data) :: rest =
      (front ++ [(b, j, e)]) ++ (address, index, data) :: rest := by simp
  have hnot : ∀ cell ∈ front ++ [(b, j, e)], ¬cellMatches key cell = true := by
    intro cell hmem
    simp [hfront cell hmem]
  have herase : (front ++ (b, j, e) :: (address, index, data) :: rest).eraseP
      (cellMatches key) = front ++ (b, j, e) :: rest := by
    rw [hsplit, List.eraseP_append_right _ hnot, List.eraseP_cons_of_pos hkey]
    simp
  have hfind : (front ++ (b, j, e) :: (address, index, data) :: rest).find?
      (cellMatches key) = some (address, index, data) := by
    rw [hsplit, List.find?_append, List.find?_eq_none.mpr hnot, Option.none_or,
      List.find?_cons_of_pos hkey]
  apply removes_found herase hfind (h.unlink hcell) (Function.update_self ..)
  intro other hother
  simp only [addresses, List.map_append, List.map_cons, List.mem_append, List.mem_cons,
    not_or] at hother
  rw [Function.update_of_ne hother.2.2.1, Function.update_of_ne hother.2.1]

/-- The four cases of the two removers: nothing matches, the head does, or a
node behind another one. -/
theorem removal_cases (key : LinkNode → Bool) (cells : List Cell) :
    (∀ cell ∈ cells, cellMatches key cell = false) ∨
      (∃ cell rest, cells = cell :: rest ∧ cellMatches key cell = true) ∨
      ∃ front before cell rest, cells = front ++ before :: cell :: rest ∧
        (∀ other ∈ front ++ [before], cellMatches key other = false) ∧
        cellMatches key cell = true := by
  rcases hfind : cells.find? (cellMatches key) with _ | cell
  · left
    intro cell hcell
    simpa using List.find?_eq_none.mp hfind cell hcell
  · right
    obtain ⟨hkey, front, rest, rfl, hfront⟩ := List.find?_eq_some_iff_append.mp hfind
    rcases List.eq_nil_or_concat front with rfl | ⟨init, before, rfl⟩
    · exact Or.inl ⟨cell, rest, rfl, hkey⟩
    · right
      refine ⟨init, before, cell, rest, by simp, ?_, hkey⟩
      intro other hother
      simpa using hfront other (by simpa using hother)

theorem matchesKey_absent (hlocal : Local key) (h : Chain heap p cells)
    (hkey : ∀ cell ∈ cells.head?, cellMatches key cell = false) :
    matchesKey heap key p = .ok false := by
  cases cells with
  | nil =>
      obtain rfl : p = .null := h
      rfl
  | cons cell rest =>
      obtain ⟨a, i, d⟩ := cell
      obtain ⟨rfl, next, hcell, -⟩ := h
      rw [matchesKey_to hlocal hcell, hkey _ rfl]

/-- Where the first match has a node before it, the search ends at both. -/
theorem search_behind {b : Nat} {j : UInt32} {e : VoidPointer} (hlocal : Local key)
    (h : Chain heap head (front ++ (b, j, e) :: (address, index, data) :: rest))
    (hfront : ∀ cell ∈ front ++ [(b, j, e)], cellMatches key cell = false)
    (hkey : cellMatches key (address, index, data) = true)
    (hsteps : (front ++ (b, j, e) :: (address, index, data) :: rest).length < steps)
    (prev : Pointer) : search heap key steps head prev = .ok (.to address, .to b) := by
  have hsplit : front ++ (b, j, e) :: (address, index, data) :: rest =
      (front ++ [(b, j, e)]) ++ (address, index, data) :: rest := by simp
  have hlength : (front ++ [(b, j, e)]).length < steps := by
    simp only [List.length_append, List.length_cons, List.length_nil] at hsteps ⊢
    omega
  rw [hsplit] at h
  rw [search_found hlocal h hfront hkey hlength]
  simp

/-- Two neighbours of a chain lie at different addresses, the first points to
the second. -/
theorem neighbours {b : Nat} {j : UInt32} {e : VoidPointer}
    (h : Chain heap head (front ++ (b, j, e) :: (address, index, data) :: rest)) :
    address ≠ b ∧ heap b = some ⟨j, e, .to address⟩ ∧
      ∃ next, heap address = some ⟨index, data, next⟩ := by
  have hchain := h.drop_to
  have hdistinct := (List.nodup_cons.mp hchain.nodup).1
  obtain ⟨-, next, hb, rfl, next', hcell, -⟩ := hchain
  refine ⟨?_, hb, next', hcell⟩
  rintro rfl
  exact hdistinct List.mem_cons_self

theorem matchesKey_behind {b : Nat} {j : UInt32} {e : VoidPointer} (hlocal : Local key)
    (h : Chain heap head (front ++ (b, j, e) :: rest))
    (hfront : ∀ cell ∈ front ++ [(b, j, e)], cellMatches key cell = false) :
    matchesKey heap key head = .ok false := by
  apply matchesKey_absent hlocal h
  intro cell hcell
  apply hfront
  cases front with
  | nil => exact List.mem_of_mem_head? hcell
  | cons first front =>
      cases hcell
      exact List.mem_cons_self

/-- Both removers free the first node and return the second. -/
theorem takeHead_eq (hcell : heap address = some ⟨index, data, next⟩) :
    (do
      let node ← load heap (.to address)
      let heap ← free heap (.to address)
      return (heap, node.next)) = (.ok (Function.update heap address none, next) :
        Except Stop (LinkHeap × Pointer)) := by
  rw [load_to hcell]
  change (free heap (.to address) >>= _) = _
  rw [free_to hcell]
  rfl

theorem listRemove_spec (h : Chain heap head cells) (index : UInt32)
    (hsteps : cells.length < steps) :
    ∃ heap' head', listRemove steps heap head index = .ok (heap', head') ∧
      Removes (fun node => node.index == index) heap heap' head head' cells := by
  have hlocal : Local fun node => node.index == index := fun _ _ _ => rfl
  rcases removal_cases (fun node => node.index == index) cells with
    habsent | ⟨⟨a, i, d⟩, rest, rfl, hkey⟩ | ⟨front, ⟨b, j, e⟩, ⟨a, i, d⟩, rest, rfl, hfront, hkey⟩
  · obtain ⟨last, hsearch⟩ := search_absent hlocal h habsent hsteps .null
    have hhead := matchesKey_absent hlocal h fun cell hcell =>
      habsent cell (List.mem_of_mem_head? hcell)
    refine ⟨heap, head, ?_, removes_absent h habsent⟩
    rw [listRemove, hhead]
    change (search heap _ steps head .null >>= _) = _
    rw [hsearch]
    rfl
  · obtain ⟨rfl, next, hcell, hrest⟩ := id h
    refine ⟨_, next, ?_, removes_head h hcell hkey⟩
    rw [listRemove, matchesKey_to hlocal hcell, hkey]
    exact takeHead_eq hcell
  · obtain ⟨hne, hb, next, hcell⟩ := neighbours h
    have hafter : Function.update heap b (some ⟨j, e, next⟩) a = some ⟨i, d, next⟩ := by
      rw [Function.update_of_ne hne, hcell]
    refine ⟨_, head, ?_, removes_behind h hcell hfront hkey⟩
    rw [listRemove, matchesKey_behind hlocal h hfront]
    change (search heap _ steps head .null >>= _) = _
    rw [search_behind hlocal h hfront hkey hsteps]
    change (load heap (.to a) >>= _) = _
    rw [load_to hcell]
    change (store heap (.to b) _ >>= _) = _
    rw [store_to hb]
    change (store _ (.to a) _ >>= _) = _
    rw [store_to hafter]
    change (free _ (.to a) >>= _) = _
    rw [free_to (Function.update_self ..), Function.update_idem]
    rfl

/-- `prev` has been assigned wherever it is followed. -/
theorem listRemoveData_spec (h : Chain heap head cells) (data : VoidPointer)
    (hsteps : cells.length < steps) :
    ∃ heap' head', listRemoveData steps heap head data = .ok (heap', head') ∧
      Removes (fun node => node.data == data) heap heap' head head' cells := by
  have hlocal : Local fun node => node.data == data := fun _ _ _ => rfl
  rcases removal_cases (fun node => node.data == data) cells with
    habsent | ⟨⟨a, i, d⟩, rest, rfl, hkey⟩ | ⟨front, ⟨b, j, e⟩, ⟨a, i, d⟩, rest, rfl, hfront, hkey⟩
  · obtain ⟨last, hsearch⟩ := search_absent hlocal h habsent hsteps .uninitialised
    have hhead := matchesKey_absent hlocal h fun cell hcell =>
      habsent cell (List.mem_of_mem_head? hcell)
    refine ⟨heap, head, ?_, removes_absent h habsent⟩
    rw [listRemoveData, hhead]
    change (search heap _ steps head .uninitialised >>= _) = _
    rw [hsearch]
    rfl
  · obtain ⟨rfl, next, hcell, hrest⟩ := id h
    refine ⟨_, next, ?_, removes_head h hcell hkey⟩
    rw [listRemoveData, matchesKey_to hlocal hcell, hkey]
    exact takeHead_eq hcell
  · obtain ⟨hne, hb, next, hcell⟩ := neighbours h
    have hafter : Function.update heap b (some ⟨j, e, next⟩) a = some ⟨i, d, next⟩ := by
      rw [Function.update_of_ne hne, hcell]
    refine ⟨_, head, ?_, removes_behind h hcell hfront hkey⟩
    rw [listRemoveData, matchesKey_behind hlocal h hfront]
    change (search heap _ steps head .uninitialised >>= _) = _
    rw [search_behind hlocal h hfront hkey hsteps]
    change (load heap (.to a) >>= _) = _
    rw [load_to hcell]
    change (store heap (.to b) _ >>= _) = _
    rw [store_to hb]
    change (free _ (.to a) >>= _) = _
    rw [free_to hafter]
    rfl

/-- A block that `malloc` found becomes the first node; no other cell changes. -/
theorem listAdd_spec (h : Chain heap head cells) (hfresh : heap address = none)
    (left : UInt32 × VoidPointer) (index : UInt32) (data : VoidPointer) :
    listAdd heap head (some address) left index data =
        .ok (Function.update heap address (some ⟨index, data, head⟩), .to address) ∧
      Chain (Function.update heap address (some ⟨index, data, head⟩)) (.to address)
        ((address, index, data) :: cells) := by
  refine ⟨?_, h.push hfresh⟩
  rw [listAdd, malloc]
  change (store _ (.to address) _ >>= _) = _
  rw [store_to (Function.update_self ..), Function.update_idem]
  change (store _ (.to address) _ >>= _) = _
  rw [store_to (Function.update_self ..), Function.update_idem]
  change (store _ (.to address) _ >>= _) = _
  rw [store_to (Function.update_self ..), Function.update_idem]
  rfl

/-- Without a block `list_add` stops at a `NULL` pointer. -/
theorem listAdd_without_block (heap : LinkHeap) (head : Pointer) (left : UInt32 × VoidPointer)
    (index : UInt32) (data : VoidPointer) :
    listAdd heap head none left index data = .error .null := rfl

theorem listGet_spec (h : Chain heap p cells) (index : UInt32) (hsteps : cells.length < steps) :
    listGet heap steps p index =
      .ok ((cells.find? fun cell => cell.2.1 == index).bind fun cell => cell.2.2) := by
  refine loop_induction (motive := fun p cells steps => listGet heap steps p index =
    .ok ((cells.find? fun cell => cell.2.1 == index).bind fun cell => cell.2.2)) ?_ ?_ h hsteps
  · intro steps
    rfl
  · intro a i d next rest steps hcell ih
    rw [listGet]
    change (load heap (.to a) >>= _) = _
    rw [load_to hcell]
    change (if (i == index) = true then Except.ok d else listGet heap steps next index) = _
    rw [ih, List.find?_cons]
    by_cases hi : i == index
    · simp only [hi]
      rfl
    · simp only [hi]
      rfl

theorem countFrom_spec (h : Chain heap p cells) (hsteps : cells.length < steps) (count : Nat) :
    countFrom heap steps p count = .ok (count + cells.length) := by
  revert count
  refine loop_induction (motive := fun p cells steps =>
    ∀ count, countFrom heap steps p count = .ok (count + cells.length)) ?_ ?_ h hsteps
  · intro steps count
    rfl
  · intro a i d next rest steps hcell ih count
    rw [countFrom]
    change (load heap (.to a) >>= _) = _
    rw [load_to hcell]
    change countFrom heap steps next (count + 1) = _
    rw [ih, List.length_cons, Nat.add_assoc, Nat.add_comm 1]

/-- The loop of `list_clear` frees the nodes of the list and no others. -/
theorem clearFrom_spec (h : Chain heap p cells) (hsteps : cells.length < steps) :
    ∃ heap', clearFrom steps heap p = .ok heap' ∧
      ∀ other, heap' other = if other ∈ addresses cells then none else heap other := by
  induction cells generalizing heap p steps with
  | nil =>
      obtain ⟨steps, rfl⟩ := Nat.exists_eq_add_of_lt hsteps
      obtain rfl : p = .null := h
      exact ⟨heap, rfl, fun _ => rfl⟩
  | cons cell rest ih =>
      obtain ⟨a, i, d⟩ := cell
      obtain ⟨rfl, next, hcell, hrest⟩ := id h
      cases steps with
      | zero => cases hsteps
      | succ steps =>
          obtain ⟨heap', hrun, hafter⟩ := ih (h.pop hcell) (Nat.lt_of_succ_lt_succ hsteps)
          refine ⟨heap', ?_, ?_⟩
          · rw [clearFrom]
            change (load heap (.to a) >>= _) = _
            rw [load_to hcell]
            change (free heap (.to a) >>= _) = _
            rw [free_to hcell]
            exact hrun
          · intro other
            rw [hafter, addresses_cons]
            by_cases hother : other = a
            · simp [hother]
            · simp [hother]

/-- What the functions make of a list of these cells, each of them in finitely
many steps and without following a pointer that is freed or has no value. -/
structure ListOperations (steps : Nat) (heap : LinkHeap) (head : Pointer) (cells : List Cell) :
    Prop where
  add : ∀ address left index data, heap address = none →
    ∃ heap', listAdd heap head (some address) left index data = .ok (heap', .to address) ∧
      Chain heap' (.to address) ((address, index, data) :: cells) ∧
      (addresses ((address, index, data) :: cells)).Nodup ∧
      ∀ other, other ≠ address → heap' other = heap other
  remove : ∀ index, ∃ heap' head', listRemove steps heap head index = .ok (heap', head') ∧
    Removes (fun node => node.index == index) heap heap' head head' cells
  removeData : ∀ data,
    ∃ heap' head', listRemoveData steps heap head data = .ok (heap', head') ∧
      Removes (fun node => node.data == data) heap heap' head head' cells
  get : ∀ index, listGet heap steps head index =
    .ok ((cells.find? fun cell => cell.2.1 == index).bind fun cell => cell.2.2)
  count : listCount steps heap head = .ok cells.length
  clear : ∃ heap', listClear steps heap head = .ok (heap', .null) ∧
    ∀ other, heap' other = if other ∈ addresses cells then none else heap other

theorem list_operations (h : Chain heap head cells) (hsteps : cells.length < steps) :
    ListOperations steps heap head cells := by
  constructor
  · intro address left index data hfresh
    obtain ⟨hadd, hchain⟩ := listAdd_spec h hfresh left index data
    exact ⟨_, hadd, hchain, hchain.nodup, fun other hother => Function.update_of_ne hother _ _⟩
  · intro index
    exact listRemove_spec h index hsteps
  · intro data
    exact listRemoveData_spec h data hsteps
  · intro index
    exact listGet_spec h index hsteps
  · rw [listCount, countFrom_spec h hsteps, Nat.zero_add]
  · obtain ⟨heap', hclear, hafter⟩ := clearFrom_spec h hsteps
    refine ⟨heap', ?_, hafter⟩
    rw [listClear, hclear]
    rfl

/-- A list of two nodes that share their index. -/
def twoNodes : LinkHeap
  | 1 => some ⟨7, some 40, .to 2⟩
  | 2 => some ⟨7, none, .null⟩
  | _ => none

theorem list_operations_two_nodes :
    ListOperations 3 twoNodes (.to 1) [(1, 7, some 40), (2, 7, none)] :=
  list_operations ⟨rfl, _, rfl, rfl, _, rfl, rfl⟩ (by decide)

end LuaMumble.Util
