import Mathlib.Data.List.Basic

/-!
A queue that can be rewound. It remembers what has been read, so that it can be
read again, until the memory is needed for something else. It lives in a row of
cells with two heads: what has been read lies in front of the read head, and
what is still to be read between the read head and the write head. The cells
behind the write head hold anything.
-/

namespace LuaMumble.Lib

structure RewindQueue (α : Type*) where
  consumed : List α
  pending : List α
  deriving DecidableEq

namespace RewindQueue

variable {α : Type*}

def empty : RewindQueue α := ⟨[], []⟩

def write (q : RewindQueue α) (xs : List α) : RewindQueue α :=
  { q with pending := q.pending ++ xs }

/-- The first `n` of the elements to be read, or nothing if there are fewer. -/
def read (q : RewindQueue α) (n : Nat) : Option (List α) × RewindQueue α :=
  if n ≤ q.pending.length then
    (some (q.pending.take n), ⟨q.consumed ++ q.pending.take n, q.pending.drop n⟩)
  else (none, q)

def pack (q : RewindQueue α) : RewindQueue α := ⟨[], q.pending⟩

def flip (q : RewindQueue α) : RewindQueue α := ⟨[], q.consumed ++ q.pending⟩

/-- The cells hold the queue in front of the write head. -/
structure Represents (q : RewindQueue α) (cells : List α) (readHead writeHead : Nat) : Prop where
  readHead_eq : readHead = q.consumed.length
  writeHead_eq : writeHead = q.consumed.length + q.pending.length
  isPrefix : q.consumed ++ q.pending <+: cells

@[simp] theorem write_nil (q : RewindQueue α) : q.write [] = q := by
  simp [write]

theorem write_append (q : RewindQueue α) (xs ys : List α) :
    q.write (xs ++ ys) = (q.write xs).write ys := by
  simp [write]

theorem read_of_le {q : RewindQueue α} {n : Nat} (hn : n ≤ q.pending.length) :
    (q.read n).2 = ⟨q.consumed ++ q.pending.take n, q.pending.drop n⟩ := by
  rw [read, if_pos hn]

/-- Two reads in a row are one. -/
theorem read_read {q : RewindQueue α} {n m : Nat} (h : n + m ≤ q.pending.length) :
    ((q.read n).2.read m).2 = (q.read (n + m)).2 := by
  have hn : n ≤ q.pending.length := Nat.le_trans (Nat.le_add_right n m) h
  have hm : m ≤ (q.pending.drop n).length := by
    rw [List.length_drop]
    omega
  rw [read_of_le hn, read_of_le h, read_of_le hm]
  simp only [List.append_assoc, ← List.take_add, List.drop_drop]

namespace Represents

variable {q : RewindQueue α} {cells : List α} {readHead writeHead : Nat}

theorem empty (cells : List α) : (RewindQueue.empty : RewindQueue α).Represents cells 0 0 :=
  ⟨rfl, rfl, List.nil_prefix⟩

theorem readHead_le (h : q.Represents cells readHead writeHead) : readHead ≤ writeHead := by
  rw [h.readHead_eq, h.writeHead_eq]
  exact Nat.le_add_right _ _

theorem writeHead_le (h : q.Represents cells readHead writeHead) : writeHead ≤ cells.length := by
  rw [h.writeHead_eq, ← List.length_append]
  exact h.isPrefix.length_le

theorem pending_length (h : q.Represents cells readHead writeHead) :
    q.pending.length = writeHead - readHead := by
  rw [h.readHead_eq, h.writeHead_eq, Nat.add_sub_cancel_left]

theorem take_readHead (h : q.Represents cells readHead writeHead) :
    cells.take readHead = q.consumed := by
  obtain ⟨rest, rfl⟩ := h.isPrefix
  rw [h.readHead_eq, List.append_assoc, List.take_left]

theorem take_writeHead (h : q.Represents cells readHead writeHead) :
    cells.take writeHead = q.consumed ++ q.pending := by
  obtain ⟨rest, rfl⟩ := h.isPrefix
  rw [h.writeHead_eq, ← List.length_append, List.take_left]

/-- What lies from the read head on, as far as the write head. -/
theorem drop_readHead (h : q.Represents cells readHead writeHead) {n : Nat}
    (hn : n ≤ q.pending.length) : (cells.drop readHead).take n = q.pending.take n := by
  obtain ⟨rest, rfl⟩ := h.isPrefix
  rw [h.readHead_eq, List.append_assoc, List.drop_left, List.take_append_of_le_length hn]

/-- Heads in order, inside the cells, are those of a queue. -/
theorem of_le (hread : readHead ≤ writeHead) (hwrite : writeHead ≤ cells.length) :
    (⟨cells.take readHead, (cells.drop readHead).take (writeHead - readHead)⟩ :
      RewindQueue α).Represents cells readHead writeHead := by
  refine ⟨?_, ?_, ?_⟩
  · rw [List.length_take_of_le (Nat.le_trans hread hwrite)]
  · rw [List.length_take_of_le (Nat.le_trans hread hwrite), List.length_take, List.length_drop]
    omega
  · have hjoin : cells.take readHead ++ (cells.drop readHead).take (writeHead - readHead) =
        cells.take writeHead := by
      rw [← List.take_add, Nat.add_sub_cancel' hread]
    rw [hjoin]
    exact List.take_prefix _ _

theorem exists_of_le (hread : readHead ≤ writeHead) (hwrite : writeHead ≤ cells.length) :
    ∃ q : RewindQueue α, q.Represents cells readHead writeHead :=
  ⟨_, of_le hread hwrite⟩

theorem write (h : q.Represents cells readHead writeHead) {cells' xs : List α}
    (heq : cells'.take (writeHead + xs.length) = cells.take writeHead ++ xs) :
    (q.write xs).Represents cells' readHead (writeHead + xs.length) := by
  refine ⟨h.readHead_eq, ?_, ?_⟩
  · rw [h.writeHead_eq, RewindQueue.write, List.length_append, Nat.add_assoc]
  · rw [RewindQueue.write, ← List.append_assoc, ← h.take_writeHead, ← heq]
    exact List.take_prefix _ _

theorem read (h : q.Represents cells readHead writeHead) {n : Nat} (hn : n ≤ q.pending.length) :
    (q.read n).2.Represents cells (readHead + n) writeHead := by
  rw [RewindQueue.read, if_pos hn]
  refine ⟨?_, ?_, ?_⟩
  · rw [h.readHead_eq, List.length_append, List.length_take_of_le hn]
  · rw [h.writeHead_eq, List.length_append, List.length_take_of_le hn, List.length_drop]
    omega
  · rw [List.append_assoc, List.take_append_drop]
    exact h.isPrefix

/-- The remaining elements are moved to the front. -/
theorem pack (h : q.Represents cells readHead writeHead) {cells' : List α}
    (heq : cells'.take (writeHead - readHead) =
      (cells.drop readHead).take (writeHead - readHead)) :
    q.pack.Represents cells' 0 (writeHead - readHead) := by
  rw [← h.pending_length] at heq ⊢
  rw [h.drop_readHead (Nat.le_refl _), List.take_length] at heq
  refine ⟨rfl, (Nat.zero_add _).symm, ?_⟩
  rw [RewindQueue.pack, List.nil_append, ← heq]
  exact List.take_prefix _ _

theorem flip (h : q.Represents cells readHead writeHead) :
    q.flip.Represents cells 0 writeHead := by
  refine ⟨rfl, ?_, ?_⟩
  · rw [h.writeHead_eq, RewindQueue.flip, List.length_nil, List.length_append, Nat.zero_add]
  · rw [RewindQueue.flip, List.nil_append]
    exact h.isPrefix

end Represents

end RewindQueue

end LuaMumble.Lib
