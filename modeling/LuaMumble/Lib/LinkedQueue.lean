import Mathlib.Data.List.Nodup
import Mathlib.Logic.Function.Basic

/-!
A queue of linked nodes with a pointer to each end, as programs keep it on the heap. An
operation has no result where it follows a pointer to a node that is not allocated. A queue
represents the list of its cells, from the front; the lemmas say what each operation makes of
that list.
-/

namespace LuaMumble.Lib

structure QueueNode (A : Type*) where
  data : A
  next : Option Nat

/-- The allocated nodes by address, and the two ends of the queue. -/
structure LinkedQueue (A : Type*) where
  nodes : Nat → Option (QueueNode A)
  front : Option Nat
  rear : Option Nat

namespace LinkedQueue

variable {A : Type*}

def empty : LinkedQueue A :=
  { nodes := fun _ => none
    front := none
    rear := none }

/-- Append a node, allocated at `address`, behind the rear. -/
def push (queue : LinkedQueue A) (address : Nat) (data : A) : Option (LinkedQueue A) :=
  let nodes := Function.update queue.nodes address (some ⟨data, none⟩)
  match queue.rear with
  | none => some { nodes := nodes, front := some address, rear := some address }
  | some rear =>
      (nodes rear).map fun node =>
        { nodes := Function.update nodes rear (some { node with next := some address })
          front := queue.front
          rear := some address }

/-- Take the front node out; it stays allocated. -/
def pop (queue : LinkedQueue A) : Option (Option Nat × LinkedQueue A) :=
  match queue.front with
  | none => some (none, queue)
  | some front =>
      (queue.nodes front).map fun node =>
        (some front,
          { queue with
            front := node.next
            rear := if node.next = none then none else queue.rear })

def free (queue : LinkedQueue A) (address : Nat) : LinkedQueue A :=
  { queue with nodes := Function.update queue.nodes address none }

/-- From the pointer on, the nodes are linked in the order of the cells. -/
def Links (nodes : Nat → Option (QueueNode A)) : Option Nat → List (Nat × A) → Prop
  | p, [] => p = none
  | p, (address, data) :: rest =>
      p = some address ∧ ∃ next, nodes address = some ⟨data, next⟩ ∧ Links nodes next rest

/-- The cells of the queue: an address and the data there. -/
structure Represents (queue : LinkedQueue A) (cells : List (Nat × A)) : Prop where
  links : Links queue.nodes queue.front cells
  rear : queue.rear = cells.getLast?.map Prod.fst
  distinct : (cells.map Prod.fst).Nodup

variable {nodes : Nat → Option (QueueNode A)} {queue : LinkedQueue A} {cells : List (Nat × A)}

theorem represents_empty : Represents (empty : LinkedQueue A) [] :=
  ⟨rfl, rfl, List.nodup_nil⟩

theorem links_update {address : Nat} (node : Option (QueueNode A))
    (hother : address ∉ cells.map Prod.fst) (p : Option Nat) :
    Links (Function.update nodes address node) p cells ↔ Links nodes p cells := by
  induction cells generalizing p with
  | nil => rfl
  | cons cell rest ih =>
      obtain ⟨a, x⟩ := cell
      simp only [List.map_cons, List.mem_cons, not_or] at hother
      obtain ⟨hne, hrest⟩ := hother
      simp only [Links, Function.update_of_ne (Ne.symm hne), ih hrest]

theorem Links.allocated {p : Option Nat} (h : Links nodes p cells) {a : Nat} {x : A}
    (hmem : (a, x) ∈ cells) : ∃ next, nodes a = some ⟨x, next⟩ := by
  induction cells generalizing p with
  | nil => cases hmem
  | cons cell rest ih =>
      obtain ⟨b, y⟩ := cell
      obtain ⟨-, next, hnode, hrest⟩ := h
      rcases List.mem_cons.mp hmem with heq | hmem
      · cases heq
        exact ⟨next, hnode⟩
      · exact ih hrest hmem

/-- A new node behind the last one, which is made to point to it. -/
theorem Links.snoc {p : Option Nat} {r : Nat} {y : A} (h : Links nodes p (cells ++ [(r, y)]))
    (hdistinct : ((cells ++ [(r, y)]).map Prod.fst).Nodup) {address : Nat} {x : A}
    (hnode : nodes address = some ⟨x, none⟩)
    (hfresh : address ∉ (cells ++ [(r, y)]).map Prod.fst) :
    Links (Function.update nodes r (some ⟨y, some address⟩)) p
      (cells ++ [(r, y)] ++ [(address, x)]) := by
  induction cells generalizing p with
  | nil =>
      simp only [List.nil_append, List.map_cons, List.map_nil, List.mem_singleton] at hfresh
      obtain ⟨hp, -⟩ := h
      refine ⟨hp, some address, Function.update_self .., rfl, none, ?_, rfl⟩
      rw [Function.update_of_ne hfresh]
      exact hnode
  | cons cell rest ih =>
      obtain ⟨b, z⟩ := cell
      obtain ⟨hp, next, hnext, hrest⟩ := h
      simp only [List.cons_append, List.map_cons, List.nodup_cons] at hdistinct
      simp only [List.cons_append, List.map_cons, List.mem_cons, not_or] at hfresh
      have hne : b ≠ r := by
        rintro rfl
        exact hdistinct.1 (by simp)
      refine ⟨hp, next, ?_, ih hrest hdistinct.2 hfresh.2⟩
      rw [Function.update_of_ne hne]
      exact hnext

/-- Both ends are `NULL` together. -/
theorem Represents.front_none_iff (h : Represents queue cells) :
    queue.front = none ↔ queue.rear = none := by
  rw [h.rear]
  cases cells with
  | nil => exact iff_of_true h.links rfl
  | cons cell rest => exact iff_of_false (by simp [h.links.1]) (by simp)

theorem Represents.front_eq (h : Represents queue cells) :
    queue.front = cells.head?.map Prod.fst := by
  cases cells with
  | nil => exact h.links
  | cons cell rest => exact h.links.1

/-- The new node is the last cell, and the nodes of others stay. -/
theorem Represents.push (h : Represents queue cells) {address : Nat}
    (hfresh : queue.nodes address = none) (data : A) :
    ∃ queue', queue.push address data = some queue' ∧
      Represents queue' (cells ++ [(address, data)]) ∧
      ∀ other, other ≠ address → other ∉ cells.map Prod.fst →
        queue'.nodes other = queue.nodes other := by
  have hnew : address ∉ cells.map Prod.fst := by
    intro hmem
    obtain ⟨⟨a, x⟩, hcell, rfl⟩ := List.mem_map.mp hmem
    obtain ⟨next, hnode⟩ := h.links.allocated hcell
    rw [hfresh] at hnode
    cases hnode
  have hlinks := (links_update (some ⟨data, none⟩) hnew queue.front).mpr h.links
  have hdistinct : ((cells ++ [(address, data)]).map Prod.fst).Nodup := by
    rw [List.map_append, List.nodup_append]
    refine ⟨h.distinct, List.nodup_singleton _, ?_⟩
    rintro a ha b hb rfl
    rw [List.mem_singleton.mp hb] at ha
    exact hnew ha
  rcases List.eq_nil_or_concat cells with rfl | ⟨front, ⟨r, y⟩, rfl⟩
  · have hrear : queue.rear = none := h.rear
    refine ⟨_, by simp only [LinkedQueue.push, hrear]; rfl, ⟨?_, rfl, hdistinct⟩, ?_⟩
    · exact ⟨rfl, none, Function.update_self .., rfl⟩
    · intro other hother _
      exact Function.update_of_ne hother _ _
  · simp only [List.concat_eq_append] at *
    have hrear : queue.rear = some r := by rw [h.rear]; simp
    obtain ⟨next, hnode⟩ := hlinks.allocated (a := r) (x := y) (by simp)
    have hpush : queue.push address data = some
        { nodes := Function.update (Function.update queue.nodes address (some ⟨data, none⟩)) r
            (some ⟨y, some address⟩)
          front := queue.front
          rear := some address } := by
      simp only [LinkedQueue.push, hrear, hnode, Option.map_some]
    refine ⟨_, hpush, ⟨?_, by simp, hdistinct⟩, ?_⟩
    · exact hlinks.snoc h.distinct (Function.update_self ..) hnew
    · intro other hother hcells
      have hne : other ≠ r := by
        rintro rfl
        exact hcells (by simp)
      exact (Function.update_of_ne hne _ _).trans (Function.update_of_ne hother _ _)

theorem Represents.pop {a : Nat} {x : A} (h : Represents queue ((a, x) :: cells)) :
    ∃ queue', queue.pop = some (some a, queue') ∧ Represents queue' cells ∧
      queue'.nodes = queue.nodes := by
  obtain ⟨hfront, next, hnode, hrest⟩ := h.links
  have hpop : queue.pop = some (some a,
      { queue with front := next, rear := if next = none then none else queue.rear }) := by
    simp only [LinkedQueue.pop, hfront, hnode, Option.map_some]
  refine ⟨_, hpop, ⟨hrest, ?_, (List.nodup_cons.mp h.distinct).2⟩, rfl⟩
  cases cells with
  | nil =>
      have hnone : next = none := hrest
      simp [hnone]
  | cons cell rest =>
      have hsome : next ≠ none := by simp [hrest.1]
      rw [if_neg hsome, h.rear, List.getLast?_cons_cons]

theorem Represents.free (h : Represents queue cells) {address : Nat}
    (hother : address ∉ cells.map Prod.fst) : Represents (queue.free address) cells :=
  ⟨(links_update none hother queue.front).mpr h.links, h.rear, h.distinct⟩

section Clearing

/-- A pointer leads to one list of cells at most. -/
theorem Links.unique {p : Option Nat} {other : List (Nat × A)} (h : Links nodes p cells)
    (hother : Links nodes p other) : cells = other := by
  induction cells generalizing p other with
  | nil =>
      cases other with
      | nil => rfl
      | cons cell rest =>
          have hnone : p = none := h
          rw [hnone] at hother
          cases hother.1
  | cons cell rest ih =>
      obtain ⟨a, x⟩ := cell
      obtain ⟨hp, next, hnode, hrest⟩ := h
      cases other with
      | nil =>
          have hnone : p = none := hother
          rw [hnone] at hp
          cases hp
      | cons cell' rest' =>
          obtain ⟨a', x'⟩ := cell'
          obtain ⟨hp', next', hnode', hrest'⟩ := hother
          obtain rfl : a = a' := Option.some.inj (hp.symm.trans hp')
          obtain ⟨rfl, rfl⟩ := QueueNode.mk.inj (Option.some.inj (hnode.symm.trans hnode'))
          rw [ih hrest hrest']

/-- Every node that is allocated is one of the queue. -/
def Tight (queue : LinkedQueue A) : Prop :=
  ∀ cells, queue.Represents cells → ∀ address, address ∉ cells.map Prod.fst →
    queue.nodes address = none

theorem tight_empty : Tight (empty : LinkedQueue A) :=
  fun _ _ _ _ => rfl

theorem Represents.tight (h : Represents queue cells)
    (hother : ∀ address, address ∉ cells.map Prod.fst → queue.nodes address = none) :
    queue.Tight := by
  intro cells' h' address haddress
  obtain rfl := h.links.unique h'.links
  exact hother address haddress

theorem Represents.tight_push (h : Represents queue cells) (htight : queue.Tight) {address : Nat}
    (hfresh : queue.nodes address = none) {data : A} {queue' : LinkedQueue A}
    (hpush : queue.push address data = some queue') : queue'.Tight := by
  obtain ⟨queue'', hpush', hrepresents, hothers⟩ := h.push hfresh data
  obtain rfl := Option.some.inj (hpush.symm.trans hpush')
  apply hrepresents.tight
  intro other hother
  simp only [List.map_append, List.map_cons, List.map_nil, List.mem_append, List.mem_singleton,
    not_or] at hother
  rw [hothers other hother.2 hother.1]
  exact htight cells h other hother.1

theorem Represents.tight_pop {a : Nat} {x : A} (h : Represents queue ((a, x) :: cells))
    (htight : queue.Tight) {queue' : LinkedQueue A}
    (hpop : queue.pop = some (some a, queue')) : (queue'.free a).Tight := by
  obtain ⟨queue'', hpop', hrepresents, hnodes⟩ := h.pop
  obtain rfl := congrArg Prod.snd (Option.some.inj (hpop.symm.trans hpop'))
  have hdistinct : a ∉ cells.map Prod.fst := (List.nodup_cons.mp h.distinct).1
  apply (hrepresents.free hdistinct).tight
  intro other hother
  by_cases heq : other = a
  · rw [heq]
    exact Function.update_self ..
  · have hkept : (queue'.free a).nodes other = queue'.nodes other :=
      Function.update_of_ne heq ..
    rw [hkept, hnodes]
    apply htight _ h other
    simpa [heq] using hother

/-- Go through the queue and free each node, with the data found there. -/
def walk : (Nat → Option (QueueNode A)) → Nat → Option Nat →
    Option (List A × (Nat → Option (QueueNode A)))
  | nodes, _, none => some ([], nodes)
  | _, 0, some _ => none
  | nodes, fuel + 1, some address =>
      (nodes address).bind fun node =>
        (walk (Function.update nodes address none) fuel node.next).map fun (data, nodes) =>
          (node.data :: data, nodes)

theorem walk_links {p : Option Nat} {fuel : Nat} (h : Links nodes p cells)
    (hdistinct : (cells.map Prod.fst).Nodup) (hfuel : cells.length ≤ fuel) :
    ∃ nodes', walk nodes fuel p = some (cells.map Prod.snd, nodes') ∧
      ∀ address, nodes' address =
        if address ∈ cells.map Prod.fst then none else nodes address := by
  induction cells generalizing nodes p fuel with
  | nil =>
      obtain rfl : p = none := h
      exact ⟨nodes, by cases fuel <;> rfl, by simp⟩
  | cons cell rest ih =>
      obtain ⟨a, x⟩ := cell
      obtain ⟨rfl, next, hnode, hrest⟩ := h
      obtain ⟨hnot, hdistinct⟩ : a ∉ rest.map Prod.fst ∧ (rest.map Prod.fst).Nodup :=
        List.nodup_cons.mp hdistinct
      cases fuel with
      | zero => simp at hfuel
      | succ fuel =>
          obtain ⟨nodes', hwalk, hnodes⟩ := ih ((links_update none hnot next).mpr hrest) hdistinct
            (Nat.le_of_succ_le_succ hfuel)
          refine ⟨nodes', ?_, ?_⟩
          · simp only [walk, hnode, Option.bind_some, hwalk, Option.map_some, List.map_cons]
          · intro address
            rw [hnodes]
            by_cases heq : address = a
            · simp [heq]
            · simp only [List.map_cons, List.mem_cons, heq, Function.update_of_ne heq, false_or]

/-- A tight queue that was gone through has left nothing. -/
theorem Represents.walk (h : Represents queue cells) (htight : queue.Tight) (fuel : Nat)
    (hfuel : cells.length ≤ fuel) :
    LinkedQueue.walk queue.nodes fuel queue.front = some (cells.map Prod.snd, fun _ => none) := by
  obtain ⟨nodes', hwalk, hnodes⟩ := walk_links h.links h.distinct hfuel
  have hnone : nodes' = fun _ => none := by
    funext address
    rw [hnodes]
    split
    · rfl
    · next hnot => exact htight cells h address hnot
  rw [hwalk, hnone]

end Clearing

end LinkedQueue

end LuaMumble.Lib
