import Mathlib.Data.List.Basic
import Mathlib.Data.List.Nodup

/-!
Linked lists as their nodes lie in memory. A node has an address of its own, and no address
is given twice, so a pointer to a node that was taken out points nowhere. A loop along such
a list saves the pointer to the next node before it does something with the node it is at,
and what it does may change the list. The loop comes to its end if the saved node always
stays in the list; then it has been at the nodes that were in the list from the beginning and
still were when it came to them.
-/

namespace LuaMumble.Lib

variable {K D S : Type*}

/-- A node with its address, and the index and the data it was given. -/
structure Node (K D : Type*) where
  address : Nat
  index : K
  data : D

/-- The nodes of a list, from the head on, and how many addresses were given so far. -/
structure NodeList (K D : Type*) where
  nodes : List (Node K D)
  allocated : Nat
  below : ∀ node ∈ nodes, node.address < allocated
  distinct : (nodes.map Node.address).Nodup

namespace NodeList

def empty : NodeList K D :=
  { nodes := []
    allocated := 0
    below := List.forall_mem_nil _
    distinct := List.nodup_nil }

/-- A new node in front of the others. -/
def add (list : NodeList K D) (index : K) (data : D) : NodeList K D :=
  { nodes := ⟨list.allocated, index, data⟩ :: list.nodes
    allocated := list.allocated + 1
    below := by
      intro node hnode
      rcases List.mem_cons.mp hnode with rfl | hnode
      · exact Nat.lt_succ_self _
      · exact Nat.lt_succ_of_lt (list.below node hnode)
    distinct := by
      rw [List.map_cons, List.nodup_cons]
      refine ⟨?_, list.distinct⟩
      intro hmem
      obtain ⟨node, hnode, haddress⟩ := List.mem_map.mp hmem
      exact absurd haddress (Nat.ne_of_lt (list.below node hnode)) }

/-- The list without its first node of that index. -/
def remove [DecidableEq K] (list : NodeList K D) (index : K) : NodeList K D :=
  { nodes := list.nodes.eraseP fun node => node.index = index
    allocated := list.allocated
    below := fun node hnode => list.below node (List.eraseP_sublist.subset hnode)
    distinct := list.distinct.sublist (List.eraseP_sublist.map _) }

@[simp] theorem empty_nodes : (empty : NodeList K D).nodes = [] := rfl

@[simp] theorem add_nodes (list : NodeList K D) (index : K) (data : D) :
    (list.add index data).nodes = ⟨list.allocated, index, data⟩ :: list.nodes := rfl

@[simp] theorem remove_nodes [DecidableEq K] (list : NodeList K D) (index : K) :
    (list.remove index).nodes = list.nodes.eraseP fun node => node.index = index := rfl

/-- Where indices are distinct, removing takes out the node of that index only. -/
theorem mem_remove_iff [DecidableEq K] {list : NodeList K D} {index : K} {node : Node K D}
    (hdistinct : (list.nodes.map Node.index).Nodup) :
    node ∈ (list.remove index).nodes ↔ node ∈ list.nodes ∧ node.index ≠ index := by
  rw [remove_nodes]
  generalize list.nodes = nodes at hdistinct ⊢
  induction nodes with
  | nil => simp
  | cons other nodes ih =>
      rw [List.map_cons, List.nodup_cons] at hdistinct
      by_cases hindex : other.index = index
      · rw [List.eraseP_cons_of_pos (by simpa using hindex), List.mem_cons]
        have hrest : node ∈ nodes → node.index ≠ index := fun hnode heq =>
          hdistinct.1 (List.mem_map.mpr ⟨node, hnode, heq.trans hindex.symm⟩)
        constructor
        · exact fun hnode => ⟨.inr hnode, hrest hnode⟩
        · rintro ⟨rfl | hnode, hne⟩
          · exact absurd hindex hne
          · exact hnode
      · rw [List.eraseP_cons_of_neg (by simpa using hindex), List.mem_cons, List.mem_cons,
          ih hdistinct.2]
        constructor
        · rintro (rfl | ⟨hnode, hne⟩)
          · exact ⟨.inl rfl, hindex⟩
          · exact ⟨.inr hnode, hne⟩
        · rintro ⟨rfl | hnode, hne⟩
          · exact .inl rfl
          · exact .inr ⟨hnode, hne⟩

/-- There is a node at that address. -/
def linked (list : NodeList K D) (address : Nat) : Bool :=
  list.nodes.any fun node => node.address = address

theorem linked_iff {list : NodeList K D} {address : Nat} :
    list.linked address = true ↔ ∃ node ∈ list.nodes, node.address = address := by
  simp [linked]

theorem linked_of_mem {list : NodeList K D} {node : Node K D} (hnode : node ∈ list.nodes) :
    list.linked node.address = true :=
  linked_iff.mpr ⟨node, hnode, rfl⟩

theorem mem_unique {list : NodeList K D} {node other : Node K D} (hnode : node ∈ list.nodes)
    (hother : other ∈ list.nodes) (haddress : other.address = node.address) : other = node :=
  List.inj_on_of_nodup_map list.distinct hother hnode haddress

/-- The pointer to the node behind the one at that address. -/
def next (list : NodeList K D) (address : Nat) : Option Nat :=
  match list.nodes.dropWhile fun node => node.address ≠ address with
  | _ :: node :: _ => some node.address
  | _ => none

/-- The pointer to the first of the nodes. -/
def first (nodes : List (Node K D)) : Option Nat := nodes.head?.map Node.address

theorem dropWhile_of_append {front rest : List (Node K D)} {node : Node K D}
    (hfront : ∀ other ∈ front, other.address ≠ node.address) :
    (front ++ node :: rest).dropWhile (fun other => other.address ≠ node.address) =
      node :: rest := by
  induction front with
  | nil => simp
  | cons other front ih =>
      have hother : other.address ≠ node.address := hfront other (List.mem_cons_self ..)
      rw [List.cons_append, List.dropWhile_cons_of_pos (by simpa using hother)]
      exact ih fun o ho => hfront o (List.mem_cons_of_mem _ ho)

section Split

variable {list : NodeList K D} {front rest : List (Node K D)} {node : Node K D}

theorem distinct_of_split (hsplit : list.nodes = front ++ node :: rest) :
    (∀ other ∈ front, other.address ≠ node.address) ∧
      ∀ other ∈ rest, other.address ≠ node.address := by
  have hdistinct := list.distinct
  rw [hsplit, List.map_append, List.map_cons, List.nodup_append, List.nodup_cons] at hdistinct
  obtain ⟨-, ⟨hrest, -⟩, hfront⟩ := hdistinct
  constructor
  · intro other hother
    exact hfront _ (List.mem_map_of_mem hother) _ (List.mem_cons_self ..)
  · intro other hother haddress
    exact hrest (haddress ▸ List.mem_map_of_mem hother)

theorem next_eq (hsplit : list.nodes = front ++ node :: rest) :
    list.next node.address = first rest := by
  rw [next, hsplit, dropWhile_of_append (distinct_of_split hsplit).1]
  cases rest <;> rfl

theorem find_eq (hnode : node ∈ list.nodes) :
    list.nodes.find? (fun other => other.address = node.address) = some node := by
  cases hfind : list.nodes.find? (fun other => other.address = node.address) with
  | none =>
      have hnone := List.find?_eq_none.mp hfind node hnode
      simp at hnone
  | some other =>
      have haddress : other.address = node.address := by
        simpa using List.find?_some hfind
      rw [mem_unique hnode (List.mem_of_find?_eq_some hfind) haddress]

end Split

/-- Nodes were taken out, and new ones put in front of the others. -/
def Evolves (list list' : NodeList K D) : Prop :=
  list.allocated ≤ list'.allocated ∧
    ∃ fresh kept, list'.nodes = fresh ++ kept ∧ kept.Sublist list.nodes ∧
      ∀ node ∈ fresh, list.allocated ≤ node.address

namespace Evolves

theorem refl (list : NodeList K D) : Evolves list list :=
  ⟨Nat.le_refl _, [], list.nodes, rfl, List.Sublist.refl _, List.forall_mem_nil _⟩

theorem trans {list list' list'' : NodeList K D} (h : Evolves list list')
    (h' : Evolves list' list'') : Evolves list list'' := by
  obtain ⟨hle, fresh, kept, hnodes, hkept, hfresh⟩ := h
  obtain ⟨hle', fresh', kept', hnodes', hkept', hfresh'⟩ := h'
  rw [hnodes] at hkept'
  obtain ⟨new, old, rfl, hnew, hold⟩ := List.sublist_append_iff.mp hkept'
  refine ⟨Nat.le_trans hle hle', fresh' ++ new, old, ?_, hold.trans hkept, ?_⟩
  · rw [hnodes', List.append_assoc]
  · intro node hnode
    rcases List.mem_append.mp hnode with hnode | hnode
    · exact Nat.le_trans hle (hfresh' node hnode)
    · exact hfresh node (hnew.subset hnode)

theorem add (list : NodeList K D) (index : K) (data : D) : Evolves list (list.add index data) :=
  ⟨Nat.le_succ _, [⟨list.allocated, index, data⟩], list.nodes, rfl, List.Sublist.refl _, by simp⟩

theorem remove [DecidableEq K] (list : NodeList K D) (index : K) :
    Evolves list (list.remove index) :=
  ⟨Nat.le_refl _, [], _, rfl, List.eraseP_sublist, List.forall_mem_nil _⟩

/-- A node that is in the list afterwards and is not new was there before. -/
theorem linked_before {list list' : NodeList K D} (h : Evolves list list') {address : Nat}
    (hold : address < list.allocated) (hlinked : list'.linked address = true) :
    list.linked address = true := by
  obtain ⟨-, fresh, kept, hnodes, hkept, hfresh⟩ := h
  obtain ⟨node, hnode, rfl⟩ := linked_iff.mp hlinked
  rw [hnodes] at hnode
  rcases List.mem_append.mp hnode with hnode | hnode
  · exact absurd (hfresh node hnode) (Nat.not_le_of_lt hold)
  · exact linked_of_mem (hkept.subset hnode)

/-- A node is left just when there is a node at its address. -/
theorem linked_iff_mem {list list' : NodeList K D} (h : Evolves list list') {node : Node K D}
    (hnode : node ∈ list.nodes) : list'.linked node.address = true ↔ node ∈ list'.nodes := by
  constructor
  · intro hlinked
    obtain ⟨-, fresh, kept, hnodes, hkept, hfresh⟩ := h
    obtain ⟨other, hother, haddress⟩ := linked_iff.mp hlinked
    have hmem := hother
    rw [hnodes] at hmem
    rcases List.mem_append.mp hmem with hnew | hold
    · have hlt := list.below node hnode
      have hle := hfresh other hnew
      omega
    · rwa [← mem_unique hnode (hkept.subset hold) haddress]
  · exact linked_of_mem

end Evolves

/-- Those of the nodes that are in the list. -/
def present (list : NodeList K D) (nodes : List (Node K D)) : List (Node K D) :=
  nodes.filter fun node => list.linked node.address

/-- A part of a list is what is left of the list, where addresses are distinct. -/
theorem filter_of_sublist {nodes kept : List (Node K D)} (hkept : kept.Sublist nodes)
    (hdistinct : (nodes.map Node.address).Nodup) :
    nodes.filter (fun node => kept.any fun other => other.address = node.address) = kept := by
  induction hkept with
  | slnil => rfl
  | @cons kept nodes node hsub ih =>
      rw [List.map_cons, List.nodup_cons] at hdistinct
      have hnode : (kept.any fun other => other.address = node.address) = false := by
        rw [List.any_eq_false]
        intro other hother
        have hmem := List.mem_map_of_mem (f := Node.address) (hsub.subset hother)
        simp only [decide_eq_true_eq]
        intro haddress
        exact hdistinct.1 (haddress ▸ hmem)
      rw [List.filter_cons_of_neg (by simp [hnode])]
      exact ih hdistinct.2
  | @cons_cons kept nodes node hsub ih =>
      rw [List.map_cons, List.nodup_cons] at hdistinct
      rw [List.filter_cons_of_pos (by simp)]
      refine congrArg _ (Eq.trans ?_ (ih hdistinct.2))
      apply List.filter_congr
      intro other hother
      have hne : node.address ≠ other.address := by
        intro haddress
        exact hdistinct.1 (haddress ▸ List.mem_map_of_mem hother)
      simp [hne]

/-- The nodes at the end of a list that are left are at its end afterwards. -/
theorem Evolves.present_suffix {list list' : NodeList K D} (h : Evolves list list')
    {rest : List (Node K D)} (hrest : rest <:+ list.nodes) :
    list'.present rest <:+ list'.nodes := by
  obtain ⟨-, fresh, kept, hnodes, hkept, hfresh⟩ := h
  obtain ⟨front, hfront⟩ := hrest
  rw [← hfront] at hkept
  obtain ⟨keptFront, keptRest, rfl, hsubFront, hsubRest⟩ := List.sublist_append_iff.mp hkept
  have hdistinct := list.distinct
  rw [← hfront, List.map_append, List.nodup_append] at hdistinct
  obtain ⟨-, hrest, hapart⟩ := hdistinct
  have hkeptRest : list'.present rest = keptRest := by
    rw [← filter_of_sublist hsubRest hrest]
    apply List.filter_congr
    intro node hnode
    have hnew : (fresh.any fun other => other.address = node.address) = false := by
      rw [List.any_eq_false]
      intro other hother
      have hlt := list.below node (hfront ▸ List.mem_append_right _ hnode)
      have hle := hfresh other hother
      simp only [decide_eq_true_eq]
      omega
    have hbefore : (keptFront.any fun other => other.address = node.address) = false := by
      rw [List.any_eq_false]
      intro other hother
      simp only [decide_eq_true_eq]
      exact hapart _ (List.mem_map_of_mem (hsubFront.subset hother)) _
        (List.mem_map_of_mem hnode)
    simp only [linked, hnodes, List.any_append, hnew, hbefore, Bool.false_or]
  rw [hkeptRest, hnodes]
  exact ⟨fresh ++ keptFront, by simp⟩

section Walk

/-- What a loop along a list comes to. -/
inductive Outcome (S : Type*) where
  | finished (s : S)
  | dangling
  | running

/-- What comes next, where the loop was finished. -/
def Outcome.andThen : Outcome S → (S → Outcome S) → Outcome S
  | .finished s, f => f s
  | .dangling, _ => .dangling
  | .running, _ => .running

/-- A loop along a list that is part of a state: it reads the node that the pointer points
to, saves the pointer to the next one, visits the node and goes on. It gives the nodes it
was at. -/
def walk (list : S → NodeList K D) (visit : Node K D → S → S) :
    Nat → Option Nat → S → List (Node K D) × Outcome S
  | _, none, s => ([], .finished s)
  | 0, some _, _ => ([], .running)
  | fuel + 1, some current, s =>
      match (list s).nodes.find? fun node => node.address = current with
      | none => ([], .dangling)
      | some node =>
          let rest := walk list visit fuel ((list s).next current) (visit node s)
          (node :: rest.1, rest.2)

/-- Visits to those of the nodes, one after the other, that are still in the list. -/
def sweep (list : S → NodeList K D) (visit : Node K D → S → S) :
    List (Node K D) → S → List (Node K D) × S
  | [], s => ([], s)
  | node :: nodes, s =>
      if (list s).linked node.address then
        let rest := sweep list visit nodes (visit node s)
        (node :: rest.1, rest.2)
      else sweep list visit nodes s

/-- Each visit leaves the node that comes next in the list. -/
def NextStays (list : S → NodeList K D) (visit : Node K D → S → S) : List (Node K D) → S → Prop
  | [], _ => True
  | node :: nodes, s =>
      if (list s).linked node.address then
        (∀ next, ((list s).present nodes).head? = some next →
          (list (visit node s)).linked next.address = true) ∧
        NextStays list visit nodes (visit node s)
      else NextStays list visit nodes s

/-- At each turn with a node to come, `Ok` holds of the node, the next one and the state. -/
def AtTurns (list : S → NodeList K D) (visit : Node K D → S → S)
    (Ok : Node K D → Node K D → S → Prop) : List (Node K D) → S → Prop
  | [], _ => True
  | node :: nodes, s =>
      if (list s).linked node.address then
        (∀ next, ((list s).present nodes).head? = some next → Ok node next s) ∧
        AtTurns list visit Ok nodes (visit node s)
      else AtTurns list visit Ok nodes s

variable {list : S → NodeList K D} {visit : Node K D → S → S}

theorem present_cons_of_linked {list : NodeList K D} {node : Node K D}
    (hlinked : list.linked node.address = true) (nodes : List (Node K D)) :
    list.present (node :: nodes) = node :: list.present nodes :=
  List.filter_cons_of_pos hlinked

theorem present_cons_of_not_linked {list : NodeList K D} {node : Node K D}
    (hlinked : ¬ list.linked node.address = true) (nodes : List (Node K D)) :
    list.present (node :: nodes) = list.present nodes :=
  List.filter_cons_of_neg hlinked

theorem present_nodes (list : NodeList K D) : list.present list.nodes = list.nodes :=
  List.filter_eq_self.mpr fun _ hnode => linked_of_mem hnode

/-- Nothing that was taken out comes back. -/
theorem Evolves.present_present {list list' : NodeList K D} (h : Evolves list list')
    {nodes : List (Node K D)} (hold : ∀ node ∈ nodes, node.address < list.allocated) :
    list'.present (list.present nodes) = list'.present nodes := by
  rw [present, present, List.filter_filter]
  apply List.filter_congr
  intro node hnode
  cases hlinked : list'.linked node.address with
  | false => rfl
  | true => simp [h.linked_before (hold node hnode) hlinked]

/-- The nodes that are still to come stay the end of the list. -/
theorem Evolves.suffix_rest {list list' : NodeList K D} (h : Evolves list list')
    {node : Node K D} {nodes : List (Node K D)}
    (hold : ∀ other ∈ nodes, other.address < list.allocated)
    (hpending : node :: list.present nodes <:+ list.nodes) :
    list'.present nodes <:+ list'.nodes := by
  rw [← h.present_present hold]
  apply h.present_suffix
  exact (List.suffix_cons node _).trans hpending

/-- If the next node stays, the pointer to it is the one to the first that is to come. -/
theorem Evolves.first_present {list list' : NodeList K D} (h : Evolves list list')
    {nodes : List (Node K D)} (hold : ∀ node ∈ nodes, node.address < list.allocated)
    (hstays : ∀ next, (list.present nodes).head? = some next →
      list'.linked next.address = true) :
    first (list'.present nodes) = first (list.present nodes) := by
  rw [← h.present_present hold]
  cases hpresent : list.present nodes with
  | nil => rfl
  | cons next others =>
      have hlinked : list'.linked next.address = true := by
        apply hstays
        rw [hpresent]
        rfl
      rw [present_cons_of_linked hlinked]
      rfl

theorem walk_not_linked {fuel : Nat} (hfuel : 0 < fuel) {s : S} {current : Nat}
    (hgone : ¬ (list s).linked current = true) :
    (walk list visit fuel (some current) s).2 = .dangling := by
  obtain ⟨fuel, rfl⟩ := Nat.exists_eq_succ_of_ne_zero (Nat.ne_of_gt hfuel)
  have hfind : (list s).nodes.find? (fun node => node.address = current) = none := by
    rw [List.find?_eq_none]
    intro node hnode haddress
    exact hgone (linked_iff.mpr ⟨node, hnode, by simpa using haddress⟩)
  simp [walk, hfind]

/-- One turn of the loop. -/
theorem walk_turn (visit : Node K D → S → S) (fuel : Nat) {s : S} {front rest : List (Node K D)}
    {node : Node K D} (hsplit : (list s).nodes = front ++ node :: rest) :
    walk list visit (fuel + 1) (some node.address) s =
      (node :: (walk list visit fuel (first rest) (visit node s)).1,
        (walk list visit fuel (first rest) (visit node s)).2) := by
  have hmem : node ∈ (list s).nodes := by
    rw [hsplit]
    exact List.mem_append_right _ (List.mem_cons_self ..)
  simp only [walk, find_eq hmem, next_eq hsplit]

/-- A loop that comes to its end keeps what each visit keeps. -/
theorem walk_invariant {P : S → Prop} (hstep : ∀ node s, P s → P (visit node s)) {fuel : Nat}
    {current : Option Nat} {s : S} (hs : P s) {final : S}
    (hwalk : (walk list visit fuel current s).2 = .finished final) : P final := by
  induction fuel generalizing current s with
  | zero =>
      cases current with
      | none =>
          cases hwalk
          exact hs
      | some current => cases hwalk
  | succ fuel ih =>
      cases current with
      | none =>
          cases hwalk
          exact hs
      | some current =>
          simp only [walk] at hwalk
          split at hwalk
          · cases hwalk
          · exact ih (hstep _ _ hs) hwalk

/-- The rule for a loop with a saved pointer: it is a sweep over the nodes that the list had
at the beginning, as long as each visit leaves the next node in the list. -/
theorem walk_pending (hvisit : ∀ node s, Evolves (list s) (list (visit node s)))
    (nodes : List (Node K D)) (s : S) {fuel : Nat} (hfuel : nodes.length ≤ fuel)
    (hpending : (list s).present nodes <:+ (list s).nodes)
    (hold : ∀ node ∈ nodes, node.address < (list s).allocated) :
    (NextStays list visit nodes s → walk list visit fuel (first ((list s).present nodes)) s =
      ((sweep list visit nodes s).1, .finished (sweep list visit nodes s).2)) ∧
    (¬ NextStays list visit nodes s →
      (walk list visit fuel (first ((list s).present nodes)) s).2 = .dangling) := by
  induction nodes generalizing s fuel with
  | nil =>
      refine ⟨fun _ => ?_, fun h => absurd trivial h⟩
      simp [present, first, walk, sweep]
  | cons node nodes ih =>
      have holdRest : ∀ other ∈ nodes, other.address < (list s).allocated :=
        fun other hother => hold other (List.mem_cons_of_mem _ hother)
      by_cases hlinked : (list s).linked node.address = true
      · rw [present_cons_of_linked hlinked] at hpending ⊢
        have hevolves := hvisit node s
        have hpendingRest := hevolves.suffix_rest holdRest hpending
        obtain ⟨front, hsplit⟩ := hpending
        obtain ⟨fuel, rfl⟩ : ∃ n, fuel = n + 1 := Nat.exists_eq_succ_of_ne_zero (by
          rw [List.length_cons] at hfuel
          omega)
        have hrest := ih (visit node s) (Nat.le_of_succ_le_succ hfuel) hpendingRest
          (fun other hother => Nat.lt_of_lt_of_le (holdRest other hother) hevolves.1)
        have hturn := walk_turn visit fuel hsplit.symm
        simp only [sweep, NextStays, if_pos hlinked]
        by_cases hstays : ∀ next, ((list s).present nodes).head? = some next →
            (list (visit node s)).linked next.address = true
        · rw [← hevolves.first_present holdRest hstays] at hturn
          constructor
          · rintro ⟨-, hothers⟩
            rw [hrest.1 hothers] at hturn
            exact hturn
          · intro hnot
            have hdangling := hrest.2 fun hothers => hnot ⟨hstays, hothers⟩
            exact (congrArg Prod.snd hturn).trans hdangling
        · constructor
          · rintro ⟨hstay, -⟩
            exact absurd hstay hstays
          · intro _
            simp only [not_forall] at hstays
            obtain ⟨next, hnext, hgone⟩ := hstays
            have hfirst : first ((list s).present nodes) = some next.address :=
              congrArg (Option.map Node.address) hnext
            have hpos : 0 < fuel := by
              have hmem : next ∈ nodes := (List.mem_filter.mp (List.mem_of_head? hnext)).1
              exact Nat.lt_of_lt_of_le (List.length_pos_of_mem hmem) (Nat.le_of_succ_le_succ hfuel)
            rw [hfirst] at hturn
            exact (congrArg Prod.snd hturn).trans (walk_not_linked hpos hgone)
      · rw [present_cons_of_not_linked hlinked] at hpending ⊢
        simp only [sweep, NextStays, if_neg hlinked]
        exact ih s (Nat.le_of_succ_le hfuel) hpending holdRest

/-- The rule for a loop along the whole list. -/
theorem walk_eq_sweep (hvisit : ∀ node s, Evolves (list s) (list (visit node s))) (s : S)
    {fuel : Nat} (hfuel : (list s).nodes.length ≤ fuel) :
    (NextStays list visit (list s).nodes s → walk list visit fuel (first (list s).nodes) s =
      ((sweep list visit (list s).nodes s).1, .finished (sweep list visit (list s).nodes s).2)) ∧
    (¬ NextStays list visit (list s).nodes s →
      (walk list visit fuel (first (list s).nodes) s).2 = .dangling) := by
  have hwalk := walk_pending hvisit (list s).nodes s hfuel
  rw [present_nodes] at hwalk
  exact hwalk (List.suffix_refl _) (list s).below

theorem atTurns_of_forall {Ok : Node K D → Node K D → S → Prop}
    (h : ∀ node next s, Ok node next s) (nodes : List (Node K D)) (s : S) :
    AtTurns list visit Ok nodes s := by
  induction nodes generalizing s with
  | nil => exact trivial
  | cons node nodes ih =>
      simp only [AtTurns]
      split
      · exact ⟨fun next _ => h node next s, ih _⟩
      · exact ih s

/-- The rule for what makes the next node stay: a condition on each turn that says it of one
visit, in states with an invariant that visits keep, says it of the loop. -/
theorem nextStays_iff_atTurns {P : S → Prop} {Ok : Node K D → Node K D → S → Prop}
    (hvisit : ∀ node s, Evolves (list s) (list (visit node s)))
    (hstep : ∀ node s, P s → P (visit node s))
    (hok : ∀ node next s, P s → node ∈ (list s).nodes → next ∈ (list s).nodes →
      next.address ≠ node.address →
        (Ok node next s ↔ (list (visit node s)).linked next.address = true))
    (nodes : List (Node K D)) (s : S) (hs : P s)
    (hpending : (list s).present nodes <:+ (list s).nodes)
    (hold : ∀ node ∈ nodes, node.address < (list s).allocated) :
    NextStays list visit nodes s ↔ AtTurns list visit Ok nodes s := by
  induction nodes generalizing s with
  | nil => exact Iff.rfl
  | cons node nodes ih =>
      have holdRest : ∀ other ∈ nodes, other.address < (list s).allocated :=
        fun other hother => hold other (List.mem_cons_of_mem _ hother)
      by_cases hlinked : (list s).linked node.address = true
      · rw [present_cons_of_linked hlinked] at hpending
        have hevolves := hvisit node s
        have hpendingRest := hevolves.suffix_rest holdRest hpending
        obtain ⟨front, hsplit⟩ := hpending
        have hmem : node ∈ (list s).nodes := by
          rw [← hsplit]
          exact List.mem_append_right _ (List.mem_cons_self ..)
        simp only [NextStays, AtTurns, if_pos hlinked]
        apply and_congr
        · apply forall_congr'
          intro next
          apply imp_congr_right
          intro hnext
          have hpresent : next ∈ (list s).present nodes := List.mem_of_head? hnext
          have hnextMem : next ∈ (list s).nodes := by
            rw [← hsplit]
            exact List.mem_append_right _ (List.mem_cons_of_mem _ hpresent)
          have hapart := (distinct_of_split hsplit.symm).2 next hpresent
          exact (hok node next s hs hmem hnextMem hapart).symm
        · apply ih (visit node s) (hstep node s hs) hpendingRest
          intro other hother
          exact Nat.lt_of_lt_of_le (holdRest other hother) hevolves.1
      · rw [present_cons_of_not_linked hlinked] at hpending
        simp only [NextStays, AtTurns, if_neg hlinked]
        exact ih s hs hpending holdRest

theorem sweep_append (front rest : List (Node K D)) (s : S) :
    sweep list visit (front ++ rest) s =
      ((sweep list visit front s).1 ++ (sweep list visit rest (sweep list visit front s).2).1,
        (sweep list visit rest (sweep list visit front s).2).2) := by
  induction front generalizing s with
  | nil => rfl
  | cons node front ih =>
      simp only [List.cons_append, sweep]
      split
      · rw [ih]
        rfl
      · exact ih s

/-- A sweep keeps what each visit keeps. -/
theorem sweep_invariant {P : S → Prop} (hstep : ∀ node s, P s → P (visit node s))
    (nodes : List (Node K D)) {s : S} (hs : P s) : P (sweep list visit nodes s).2 := by
  induction nodes generalizing s with
  | nil => exact hs
  | cons node nodes ih =>
      simp only [sweep]
      split
      · exact ih (hstep node s hs)
      · exact ih hs

theorem sweep_evolves (hvisit : ∀ node s, Evolves (list s) (list (visit node s)))
    (nodes : List (Node K D)) (s : S) : Evolves (list s) (list (sweep list visit nodes s).2) := by
  have hstep (node : Node K D) (s' : S) (h : Evolves (list s) (list s')) :
      Evolves (list s) (list (visit node s')) := h.trans (hvisit node s')
  exact sweep_invariant hstep nodes (Evolves.refl _)

variable (list visit) in
/-- A loop that takes each node out by its index takes out all of them: the node it is at is
the first one. -/
theorem walk_removing [DecidableEq K]
    (hremove : ∀ node s, list (visit node s) = (list s).remove node.index) (s : S) {fuel : Nat}
    (hfuel : (list s).nodes.length ≤ fuel) :
    walk list visit fuel (first (list s).nodes) s =
        ((list s).nodes, .finished ((list s).nodes.foldl (fun s node => visit node s) s)) ∧
      (list ((list s).nodes.foldl (fun s node => visit node s) s)).nodes = [] := by
  induction hnodes : (list s).nodes generalizing s fuel with
  | nil => simp [first, walk, hnodes]
  | cons node rest ih =>
      rw [hnodes, List.length_cons] at hfuel
      obtain ⟨fuel, rfl⟩ := Nat.exists_eq_succ_of_ne_zero (Nat.ne_of_gt (Nat.zero_lt_of_lt hfuel))
      have hrest : (list (visit node s)).nodes = rest := by
        rw [hremove, remove_nodes, hnodes, List.eraseP_cons_of_pos (by simp)]
      have hsplit : (list s).nodes = [] ++ node :: rest := hnodes
      have hturn := walk_turn visit fuel hsplit
      have hfuelRest : (list (visit node s)).nodes.length ≤ fuel :=
        hrest.symm ▸ Nat.le_of_succ_le_succ hfuel
      have hgo := ih (visit node s) hfuelRest hrest
      rw [hgo.1] at hturn
      exact ⟨hturn, hgo.2⟩

end Walk

end NodeList

end LuaMumble.Lib
