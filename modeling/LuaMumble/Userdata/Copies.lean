import LuaMumble.Userdata.State
import Mathlib.Data.List.TakeWhile

/-!
Binary members of a message. The client keeps a copy that `strndup` made, and beside it the
length that the bytes had in the message; strings are built from the copy with that length. A
copy ends with the first NUL of the bytes, so what is read behind it may be anything.
-/

namespace LuaMumble.Userdata

open Lib
open LuaMumble.Lib.TracedRead hiding Entry
open LuaMumble.Thread (strndup)

/-- The memory at a copy: its bytes, and what lies behind them. -/
def memoryOf (block : List UInt8) (behind : Nat → UInt8) : Memory := fun i =>
  block.getD i (behind (i - block.length))

/-- `lua_pushlstring`: the bytes of the string. -/
def pushlstring (len : Nat) : Traced Empty (List UInt8) := slice 0 len

/-- The two digits that the loop of `bin_to_strhex` writes for a byte. -/
def hexDigits (byte : UInt8) : List UInt8 :=
  [hexStr.getD ((byte >>> 4) &&& 0x0F).toNat 0, hexStr.getD (byte &&& 0x0F).toNat 0]

/-- The loop of `bin_to_strhex` from an index on, with the number of bytes left. -/
def binToStrhexFrom : Nat → Nat → Traced Empty (List UInt8)
  | _, 0 => pure []
  | i, left + 1 => do
      let byte ← load i
      let rest ← binToStrhexFrom (i + 1) left
      pure (hexDigits byte ++ rest)

/-- The lower-case hex of bytes. -/
def hexOf (bytes : List UInt8) : List UInt8 := bytes.flatMap hexDigits

/-- `lua_pushstring`: the bytes up to the NUL, with the number of bytes after which one is found
at the latest. -/
def pushstringFrom : Nat → Nat → Traced Empty (List UInt8)
  | _, 0 => pure []
  | i, left + 1 => do
      let byte ← load i
      if byte = 0 then pure []
      else do
        let rest ← pushstringFrom (i + 1) left
        pure (byte :: rest)

/-- The read keeps to the bytes of the copy. -/
def InCopy (block : List UInt8) : TracedRead.Entry Empty → Prop
  | .read index => index < block.length
  | .slice start length => start + length ≤ block.length
  | .emit _ => True

section Reads

variable (block : List UInt8) (behind : Nat → UInt8) (mem : Memory)

theorem holds_memoryOf : Holds (memoryOf block behind) 0 block := by
  rw [holds_iff]
  intro i hi
  rw [Nat.zero_add, memoryOf, List.getD_eq_getElem block _ hi]

theorem value_binToStrhexFrom (i left : Nat) :
    (binToStrhexFrom i left).value mem = hexOf (bytesAt mem i left) := by
  induction left generalizing i with
  | zero => rfl
  | succ left ih =>
      rw [binToStrhexFrom, value_bind, value_bind, ih, bytesAt_succ]
      rfl

/-- The loop reads each of the bytes. -/
theorem always_binToStrhexFrom_iff (i left : Nat) :
    Always (InCopy block) (binToStrhexFrom i left) mem ↔ left = 0 ∨ i + left ≤ block.length := by
  induction left generalizing i with
  | zero => simp [binToStrhexFrom]
  | succ left ih =>
      rw [binToStrhexFrom, always_bind, always_bind, ih, always_load]
      simp only [InCopy, always_pure, and_true]
      omega

/-- The result of `bin_to_strhex` on a copy, as it is read. -/
theorem binToStrhex_eq_value (binsz : Nat) :
    binToStrhex (some block) behind binsz =
      some ((binToStrhexFrom 0 binsz).value (memoryOf block behind)) := by
  have hbytes (start : Nat) : bytesAt (memoryOf block behind) start binsz =
      (List.range binsz).map fun i => memoryOf block behind (start + i) := by
    induction binsz generalizing start with
    | zero => rfl
    | succ n ih =>
        rw [bytesAt_succ, ih, List.range_succ_eq_map, List.map_cons, List.map_map]
        congr 1
        apply List.map_congr_left
        intro i _
        simp only [Function.comp_apply, Nat.succ_eq_add_one]
        congr 1
        omega
  rw [value_binToStrhexFrom, hbytes, hexOf, List.flatMap_map]
  cases binsz with
  | zero => rfl
  | succ n => simp only [binToStrhex, memoryOf, hexDigits, Nat.zero_add]

/-- A string is read up to the NUL that ends it, and no further. -/
theorem pushstringFrom_of_holds {string : List UInt8} (hnul : 0 ∉ string) (i left : Nat)
    (hholds : Holds mem i (string ++ [0])) :
    (string.length < left → (pushstringFrom i left).value mem = string) ∧
      (i + string.length < block.length → Always (InCopy block) (pushstringFrom i left) mem) := by
  induction string generalizing i left with
  | nil =>
      have hend : mem i = 0 := by simpa using hholds
      cases left with
      | zero => simp [pushstringFrom]
      | succ left =>
          rw [pushstringFrom, value_bind, always_bind, value_load, always_load, if_pos hend]
          refine ⟨fun _ => rfl, ?_⟩
          intro hlt
          exact ⟨hlt, always_pure _⟩
  | cons byte rest ih =>
      rw [List.cons_append, holds_cons] at hholds
      rw [List.mem_cons, not_or] at hnul
      cases left with
      | zero => simp [pushstringFrom]
      | succ left =>
          obtain ⟨hvalue, hreads⟩ := ih hnul.2 (i + 1) left hholds.2
          have hbyte : mem i ≠ 0 := by
            rw [hholds.1]
            exact Ne.symm hnul.1
          rw [pushstringFrom, value_bind, always_bind, value_load, always_load, if_neg hbyte,
            value_bind, always_bind, List.length_cons]
          constructor
          · intro hlt
            rw [hvalue (by omega), hholds.1]
            rfl
          · intro hlt
            exact ⟨show i < block.length by omega, hreads (by omega), always_pure _⟩

end Reads

section Copies

/-- The block that `strndup` makes of bytes. -/
def copyOf (bytes : List UInt8) : List UInt8 := bytes.takeWhile (· != 0) ++ [0]

variable (bytes : List UInt8)

theorem safeStrndup_nil : safeStrndup [] = none := rfl

theorem safeStrndup_of_ne {bytes : List UInt8} (h : bytes ≠ []) :
    safeStrndup bytes = some (copyOf bytes) := by
  have hcopy := Thread.strndup_append bytes []
  rw [List.append_nil] at hcopy
  rw [safeStrndup, if_neg (by simpa using h), hcopy]
  rfl

theorem nul_notMem_takeWhile : (0 : UInt8) ∉ bytes.takeWhile (· != 0) := by
  intro hmem
  simpa using List.mem_takeWhile_imp hmem

theorem strdup_copyOf : strdup (copyOf bytes) = bytes.takeWhile (· != 0) := by
  rw [strdup, copyOf, List.takeWhile_append_of_pos, List.takeWhile_cons_of_neg (by simp),
    List.append_nil]
  intro byte hbyte
  simpa using List.mem_takeWhile_imp hbyte

/-- The string of a copy is read from it alone, and from all of it if the read may be that
long. -/
theorem pushstringFrom_copyOf (behind : Nat → UInt8) (left : Nat) :
    ((copyOf bytes).length ≤ left →
      (pushstringFrom 0 left).value (memoryOf (copyOf bytes) behind) = strdup (copyOf bytes)) ∧
    Always (InCopy (copyOf bytes)) (pushstringFrom 0 left) (memoryOf (copyOf bytes) behind) := by
  obtain ⟨hvalue, hreads⟩ := pushstringFrom_of_holds (copyOf bytes)
    (memoryOf (copyOf bytes) behind) (nul_notMem_takeWhile bytes) 0 left
    (holds_memoryOf (copyOf bytes) behind)
  have hlength : (copyOf bytes).length = (bytes.takeWhile (· != 0)).length + 1 := by
    rw [copyOf, List.length_append, List.length_singleton]
  refine ⟨?_, hreads (by omega)⟩
  intro hleft
  rw [strdup_copyOf]
  exact hvalue (by omega)

/-- The block, or nothing where the pointer is NULL. -/
def blockOf (bytes : List UInt8) : List UInt8 := (safeStrndup bytes).getD []

theorem blockOf_of_ne {bytes : List UInt8} (h : bytes ≠ []) : blockOf bytes = copyOf bytes := by
  rw [blockOf, safeStrndup_of_ne h]
  rfl

/-- The copy is as long as the bytes just when only the last of them may be a NUL. -/
theorem length_le_blockOf_iff : bytes.length ≤ (blockOf bytes).length ↔ 0 ∉ bytes.dropLast := by
  by_cases hbytes : bytes = []
  · simp [hbytes]
  · rw [blockOf_of_ne hbytes]
    exact Thread.length_le_copy_iff bytes

/-- It then begins with them. -/
theorem bytesAt_blockOf {bytes : List UInt8} (h : 0 ∉ bytes.dropLast) (behind : Nat → UInt8) :
    bytesAt (memoryOf (blockOf bytes) behind) 0 bytes.length = bytes := by
  by_cases hbytes : bytes = []
  · rw [hbytes]
    rfl
  · obtain ⟨rest, hrest⟩ := Thread.prefix_copy h
    have hholds := holds_memoryOf (blockOf bytes) behind
    rw [blockOf_of_ne hbytes, copyOf, ← hrest, holds_append] at hholds
    rw [blockOf_of_ne hbytes, copyOf, ← hrest]
    exact hholds.1

/-- The hex of the bytes is made from the copy, and from nothing behind it. -/
def HexIntact (behind : Nat → UInt8) : Prop :=
  binToStrhex (safeStrndup bytes) behind bytes.length = some (hexOf bytes) ∧
    Always (InCopy (blockOf bytes)) (binToStrhexFrom 0 bytes.length)
      (memoryOf (blockOf bytes) behind)

theorem hexIntact_iff (behind : Nat → UInt8) :
    HexIntact bytes behind ↔ 0 ∉ bytes.dropLast := by
  have hlength := length_le_blockOf_iff bytes
  rw [HexIntact, always_binToStrhexFrom_iff]
  constructor
  · rintro ⟨-, hreads⟩
    rw [← hlength]
    omega
  · intro h
    have hfits := hlength.mpr h
    refine ⟨?_, by omega⟩
    by_cases hbytes : bytes = []
    · rw [hbytes]
      rfl
    · have hvalue := binToStrhex_eq_value (copyOf bytes) behind bytes.length
      rw [value_binToStrhexFrom, ← blockOf_of_ne hbytes, bytesAt_blockOf h] at hvalue
      rw [safeStrndup_of_ne hbytes, ← blockOf_of_ne hbytes, hvalue]

/-- Whatever lies behind the copy. -/
theorem forall_hexIntact_iff : (∀ behind, HexIntact bytes behind) ↔ 0 ∉ bytes.dropLast := by
  constructor
  · intro h
    exact (hexIntact_iff bytes fun _ => 0).mp (h _)
  · intro hcopied behind
    exact (hexIntact_iff bytes behind).mpr hcopied

theorem pushstring_eq_string_iff {result : Option (List UInt8)} :
    LuaValue.pushstring result = .string bytes ↔ result = some bytes := by
  cases result with
  | none => simp [LuaValue.pushstring]
  | some string => simp [LuaValue.pushstring]

end Copies

end LuaMumble.Userdata
