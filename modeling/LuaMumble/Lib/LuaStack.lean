import Mathlib.Data.List.Basic

/-!
The stack of a Lua C function. A stack is the list of its values from the top
down. An index counts slots from the bottom of the frame when it is positive and
from the top when it is negative. An operation has no result where Lua leaves
its behaviour undefined; those that take slots away also take a floor, the
number of slots at the bottom that do not belong to the caller, and have no
result where they would reach below it.
-/

namespace LuaMumble.Lib.LuaStack

variable {V : Type*}

/-- How far below the top the slot at an index is. -/
def slot (stack : List V) (idx : Int) : Option Nat :=
  if 0 < idx ∧ idx ≤ stack.length then some (stack.length - idx.toNat)
  else if idx < 0 ∧ -idx ≤ stack.length then some ((-idx).toNat - 1)
  else none

def get (stack : List V) (idx : Int) : Option V :=
  (slot stack idx).bind fun i => stack[i]?

/-- `lua_pushvalue` -/
def pushValue (stack : List V) (idx : Int) : Option (List V) :=
  (get stack idx).map fun v => v :: stack

/-- `lua_pop` -/
def pop (floor : Nat) (stack : List V) (n : Nat) : Option (List V) :=
  if n + floor ≤ stack.length then some (stack.drop n) else none

/-- `lua_remove` -/
def remove (floor : Nat) (stack : List V) (idx : Int) : Option (List V) :=
  match slot stack idx with
  | some i => if i + floor < stack.length then some (stack.eraseIdx i) else none
  | none => none

/-- `lua_insert`: the top value moves into the slot, and those from there on
move up. -/
def insert (stack : List V) (idx : Int) : Option (List V) :=
  match stack, slot stack idx with
  | v :: rest, some i => some (rest.take i ++ v :: rest.drop i)
  | _, _ => none

/-- `lua_pushvalue` at the indices after `idx`, `n` of them. -/
def pushValues (stack : List V) (idx : Int) : Nat → Option (List V)
  | 0 => some stack
  | n + 1 => (pushValues stack idx n).bind fun stack => pushValue stack (idx + (n + 1 : Nat))

/-- `lua_remove` at one index, `n` times. -/
def removes (floor : Nat) (stack : List V) (idx : Int) : Nat → Option (List V)
  | 0 => some stack
  | n + 1 => (remove floor stack idx).bind fun stack => removes floor stack idx n

variable {floor : Nat} {xs rest : List V} {v : V}

/-- The slot above `rest`, counted from the bottom. -/
theorem slot_append (xs rest : List V) (v : V) :
    slot (xs ++ v :: rest) (rest.length + 1) = some xs.length := by
  have hlength : (xs ++ v :: rest).length = xs.length + (rest.length + 1) := by simp
  unfold slot
  rw [hlength, if_pos (by omega)]
  congr 1
  omega

theorem get_append (xs rest : List V) (v : V) :
    get (xs ++ v :: rest) (rest.length + 1) = some v := by
  rw [get, slot_append]
  simp

theorem get_top (v : V) (rest : List V) : get (v :: rest) (-1) = some v := by
  have hlength : ((v :: rest).length : Int) = rest.length + 1 := by
    rw [List.length_cons]
    omega
  have hslot : slot (v :: rest) (-1) = some 0 := by
    rw [slot, hlength, if_neg (by omega), if_pos (by omega)]
    rfl
  simp [get, hslot]

theorem slot_second (u v : V) (rest : List V) : slot (u :: v :: rest) (-2) = some 1 := by
  have hlength : ((u :: v :: rest).length : Int) = rest.length + 2 := by
    rw [List.length_cons, List.length_cons]
    omega
  rw [slot, hlength, if_neg (by omega), if_pos (by omega)]
  rfl

theorem get_second (u v : V) (rest : List V) : get (u :: v :: rest) (-2) = some v := by
  simp [get, slot_second]

theorem pushValue_second (u v : V) (rest : List V) :
    pushValue (u :: v :: rest) (-2) = some (v :: u :: v :: rest) := by
  simp [pushValue, get_second]

theorem pop_append (xs : List V) (h : floor ≤ rest.length) :
    pop floor (xs ++ rest) xs.length = some rest := by
  have hlength : xs.length + floor ≤ (xs ++ rest).length := by
    rw [List.length_append]
    omega
  rw [pop, if_pos hlength, List.drop_left]

theorem pop_one (v : V) (h : floor ≤ rest.length) : pop floor (v :: rest) 1 = some rest :=
  pop_append [v] h

theorem pop_two (u v : V) (h : floor ≤ rest.length) : pop floor (u :: v :: rest) 2 = some rest :=
  pop_append [u, v] h

/-- There is nothing to remove in the slot above the top. -/
theorem remove_past_top (floor : Nat) (rest : List V) :
    remove floor rest (rest.length + 1) = none := by
  have hslot : slot rest (rest.length + 1) = none := by
    rw [slot, if_neg (by omega), if_neg (by omega)]
  rw [remove, hslot]

theorem remove_append (h : floor ≤ rest.length) :
    remove floor (xs ++ v :: rest) (rest.length + 1) = some (xs ++ rest) := by
  have hfloor : xs.length + floor < (xs ++ v :: rest).length := by
    rw [List.length_append, List.length_cons]
    omega
  rw [remove, slot_append]
  simp only [hfloor, if_true]
  rw [List.eraseIdx_append_of_length_le (Nat.le_refl _), Nat.sub_self, List.eraseIdx_cons_zero]

theorem remove_second {u : V} (h : floor ≤ rest.length) :
    remove floor (u :: v :: rest) (-2) = some (u :: rest) := by
  have hfloor : 1 + floor < (u :: v :: rest).length := by
    simp only [List.length_cons]
    omega
  rw [remove, slot_second]
  simp only [hfloor, if_true]
  rfl

theorem insert_append (v : V) (xs rest : List V) :
    insert (v :: xs ++ rest) (rest.length + 1) = some (xs ++ v :: rest) := by
  have hslot : slot (v :: xs ++ rest) (rest.length + 1) = some xs.length := by
    have hlength : (v :: xs ++ rest).length = xs.length + (rest.length + 1) := by
      simp only [List.cons_append, List.length_cons, List.length_append]
      omega
    rw [slot, hlength, if_pos (by omega)]
    congr 1
    omega
  rw [List.cons_append] at hslot ⊢
  simp [insert, hslot]

/-- The values `args` that lie on `below` are copied in their order. -/
theorem pushValues_args (above args below : List V) {n : Nat} (hn : n ≤ args.length) :
    pushValues (above ++ args.reverse ++ below) below.length n =
      some ((args.take n).reverse ++ above ++ args.reverse ++ below) := by
  induction n with
  | zero => simp [pushValues]
  | succ n ih =>
      have hlt : n < args.length := hn
      have hargs : args = args.take n ++ args[n] :: args.drop (n + 1) := by
        rw [← List.drop_eq_getElem_cons hlt, List.take_append_drop]
      have hsplit : args.reverse ++ below =
          (args.drop (n + 1)).reverse ++ args[n] :: ((args.take n).reverse ++ below) := by
        have hreverse := congrArg List.reverse hargs
        rw [List.reverse_append, List.reverse_cons] at hreverse
        rw [hreverse]
        simp
      have hlength : ((args.take n).reverse ++ below).length = below.length + n := by
        rw [List.length_append, List.length_reverse, List.length_take_of_le (Nat.le_of_lt hlt)]
        omega
      have hget : get ((args.take n).reverse ++ above ++ args.reverse ++ below)
          (below.length + (n + 1 : Nat)) = some args[n] := by
        have hindex : (below.length : Int) + (n + 1 : Nat) =
            ((args.take n).reverse ++ below).length + 1 := by
          rw [hlength]
          omega
        rw [hindex, List.append_assoc _ args.reverse below, hsplit, ← List.append_assoc]
        exact get_append _ _ _
      rw [pushValues, ih (Nat.le_of_lt hlt), Option.bind_some, pushValue, hget, Option.map_some,
        List.take_succ_eq_append_getElem hlt, List.reverse_append, List.reverse_singleton]
      simp

/-- Removing as many values above `below` as there are arguments leaves what was
above them. -/
theorem removes_args (above args below : List V) (h : floor ≤ below.length) :
    removes floor (above ++ args.reverse ++ below) (below.length + 1) args.length =
      some (above ++ below) := by
  induction args with
  | nil => simp [removes]
  | cons arg args ih =>
      have hshape : above ++ (arg :: args).reverse ++ below =
          (above ++ args.reverse) ++ arg :: below := by simp
      rw [hshape, List.length_cons, removes, remove_append h, Option.bind_some]
      exact ih

end LuaMumble.Lib.LuaStack
