import Mathlib.Data.List.Perm.Basic
import Mathlib.Data.List.Nodup

/-!
Lua tables as code in C sees them: `lua_next` goes through the pairs in an order of its own, and
`lua_objlen` gives a border, which is a number whose key is there (or 0) with the next one not
there. A border says little about how many pairs there are, unless the table is a sequence.
-/

namespace LuaMumble.Lib

/-- A key. The other keys are told apart by a number, and they have the text that `lua_tostring`
gives for them; an integer that it does not write in full is among them. -/
inductive Key where
  | integer (n : Int)
  | string (s : String)
  | other (n : Nat) (text : Option String)
  deriving DecidableEq

/-- `lua_tostring` -/
def Key.tostring : Key → Option String
  | .integer n => some (toString n)
  | .string s => some s
  | .other _ text => text

/-- The pairs in the order of `lua_next`, and the border that `lua_objlen` gives. -/
structure LuaTable (V : Type) where
  entries : List (Key × V)
  length : Nat
  keys_nodup : (entries.map Prod.fst).Nodup
  key_length : length = 0 ∨ Key.integer length ∈ entries.map Prod.fst
  key_next : Key.integer (length + 1) ∉ entries.map Prod.fst

namespace LuaTable

variable {V : Type}

/-- The pairs of a sequence, with the integers from 1 on as keys. -/
def pairs (values : List V) : List (Key × V) :=
  values.mapIdx fun i value => (.integer (i + 1), value)

/-- The table has the values under the integers from 1 on, and nothing else. -/
def IsSequence (t : LuaTable V) (values : List V) : Prop := t.entries.Perm (pairs values)

theorem mem_keys_pairs (values : List V) (n : Int) :
    Key.integer n ∈ (pairs values).map Prod.fst ↔ 1 ≤ n ∧ n ≤ values.length := by
  simp only [pairs, List.mem_map, List.mem_mapIdx, Prod.exists]
  constructor
  · rintro ⟨key, value, ⟨i, hi, hpair⟩, rfl⟩
    have hn := Key.integer.inj (congrArg Prod.fst hpair)
    omega
  · rintro ⟨hone, hle⟩
    have hi : (n - 1).toNat < values.length := by omega
    refine ⟨.integer n, values[(n - 1).toNat], ⟨(n - 1).toNat, hi, ?_⟩, rfl⟩
    have hn : (((n - 1).toNat : Nat) : Int) + 1 = n := by omega
    rw [hn]

theorem map_snd_pairs (values : List V) : (pairs values).map Prod.snd = values := by
  apply List.ext_getElem
  · simp [pairs]
  · intro i hi hvalue
    simp [pairs]

variable {t : LuaTable V} {values : List V}

/-- A sequence has one border, its length. -/
theorem length_of_isSequence (h : t.IsSequence values) : t.length = values.length := by
  have hkey (n : Int) : Key.integer n ∈ t.entries.map Prod.fst ↔ 1 ≤ n ∧ n ≤ values.length := by
    rw [(h.map Prod.fst).mem_iff]
    exact mem_keys_pairs values n
  have hnext := t.key_next
  rw [hkey] at hnext
  rcases t.key_length with hzero | hlength
  · omega
  · rw [hkey] at hlength
    omega

theorem values_of_isSequence (h : t.IsSequence values) :
    (t.entries.map Prod.snd).Perm values := by
  have hvalues := h.map Prod.snd
  rwa [map_snd_pairs] at hvalues

end LuaTable

end LuaMumble.Lib
