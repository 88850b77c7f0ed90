import LuaMumble.Userdata.ChannelPath

/-!
The string of a path. The tokens of a lookup are found in the bytes of the Lua string itself, which
is shared with every other use of it in the script, and `strtok` writes to them.
-/

namespace LuaMumble.Userdata

open Lib
open LuaMumble.Lib.Machine (final)
open LuaMumble.Lib.Tokens (OneToken)

/-- `client_getChannel`, with the bytes of the path behind the call. -/
def clientGetChannel (s : State) (connecting : Bool) (clientL : Option (List LuaValue))
    (client : Nat) (path : Option (List UInt8)) : Output × Option (List UInt8) :=
  if connecting then
    match s.channelAt client 0 with
    | some root =>
        let (value, path) := channelCall s clientL root path
        (.pushed value, path)
    | none => (.nothing, path)
  else
    (.raised ⟨none, "attempt to call method 'getChannel' on connecting mumble.client"⟩, path)

/-- The lookups that there are: from a channel, and from a client. -/
inductive Lookup where
  | fromChannel (clientL : Option (List LuaValue)) (n : Nat)
  | fromClient (connecting : Bool) (clientL : Option (List LuaValue)) (client : Nat)

/-- A lookup of a path, with the bytes of the string behind it. -/
def Lookup.call (s : State) (path : List UInt8) : Lookup → Output × List UInt8
  | .fromChannel clientL n =>
      let (value, written) := channelCall s clientL n (some path)
      (.pushed value, written.getD path)
  | .fromClient connecting clientL client =>
      let (output, written) := clientGetChannel s connecting clientL client (some path)
      (output, written.getD path)

/-- The bytes of the string behind some lookups of it. -/
def Lookup.after (lookup : Lookup) (s : State) (path : List UInt8) : Nat → List UInt8
  | 0 => path
  | count + 1 => (lookup.call s (lookup.after s path count)).2

/-- The lookup leaves the string as it is, and gives the same every time. -/
structure Lookup.Pure (lookup : Lookup) (s : State) (path : List UInt8) : Prop where
  kept : (lookup.call s path).2 = path
  same : ∀ count, (lookup.call s (lookup.after s path count)).1 = (lookup.call s path).1

/-- The lookup comes to the tokens of the path. -/
def Lookup.Tokenizes (s : State) : Lookup → Prop
  | .fromChannel .. => True
  | .fromClient connecting _ client => connecting = true ∧ (s.channelAt client 0).isSome = true

section Strings

variable {s : State} {path : List UInt8}

/-- A string that one lookup leaves as it is stays so. -/
theorem pure_iff_kept (lookup : Lookup) :
    lookup.Pure s path ↔ (lookup.call s path).2 = path := by
  refine ⟨Lookup.Pure.kept, ?_⟩
  intro hkept
  have hafter : ∀ count, lookup.after s path count = path := by
    intro count
    induction count with
    | zero => rfl
    | succ count ih => rw [Lookup.after, ih, hkept]
  refine ⟨hkept, ?_⟩
  intro count
  rw [hafter]

theorem channelCall_keeps_iff (clientL : Option (List LuaValue)) (n : Nat) :
    (channelCall s clientL n (some path)).2 = some path ↔ OneToken isSeparator path := by
  have hloop := Tokens.loop_snd_eq_iff isSeparator (channelCallStep s)
    (by decide) path.length (n, ⟨[.string path, .userdata n], clientL⟩) path
  rw [← hloop]
  exact Option.some_inj

/-- A lookup that comes to the tokens writes what the loop over them writes. -/
theorem call_keeps_iff (lookup : Lookup) (h : lookup.Tokenizes s) :
    (lookup.call s path).2 = path ↔ OneToken isSeparator path := by
  cases lookup with
  | fromChannel clientL n =>
      rw [← channelCall_keeps_iff (s := s) clientL n]
      exact Option.some_inj.symm
  | fromClient connecting clientL client =>
      obtain ⟨rfl, hroot⟩ := h
      obtain ⟨root, hroot⟩ := Option.isSome_iff_exists.mp hroot
      rw [← channelCall_keeps_iff (s := s) clientL root]
      simp only [Lookup.call, clientGetChannel, if_true, hroot]
      exact Option.some_inj.symm

/-- Without the root, or before there is a connection, nothing is done with the path. -/
theorem call_keeps_of_not (lookup : Lookup) (h : ¬ lookup.Tokenizes s) :
    (lookup.call s path).2 = path := by
  cases lookup with
  | fromChannel clientL n => exact absurd trivial h
  | fromClient connecting clientL client =>
      simp only [Lookup.call, clientGetChannel]
      split_ifs with hconnecting
      · split
        · rename_i root hroot
          exact absurd ⟨hconnecting, by rw [hroot]; rfl⟩ h
        · rfl
      · rfl

end Strings

/-- In every state, a lookup leaves its string as it is and gives the same every time, if and only
if it does not come to the tokens of the path, or no separator stands behind the first token. -/
theorem lookup_pure_iff (s : State) (lookup : Lookup) (path : List UInt8) :
    lookup.Pure s path ↔ (lookup.Tokenizes s → OneToken isSeparator path) := by
  rw [pure_iff_kept]
  by_cases h : lookup.Tokenizes s
  · rw [call_keeps_iff lookup h]
    exact (imp_iff_right h).symm
  · exact iff_of_true (call_keeps_of_not lookup h) fun htokenizes => absurd htokenizes h

/-- The path `a/b` is `a` when it has been looked up. -/
theorem path_cut_short :
    let s := final (step quiet) start twoLevels
    (channelCall s none 0 (some [0x61, 0x2f, 0x62])).1 = .userdata 2 ∧
    (channelCall s none 0 (channelCall s none 0 (some [0x61, 0x2f, 0x62])).2).1 =
      .userdata 1 ∧
    ¬ (Lookup.fromChannel none 0).Pure s [0x61, 0x2f, 0x62] := by
  refine ⟨by decide, by decide, ?_⟩
  intro hpure
  exact absurd hpure.kept (by decide)

end LuaMumble.Userdata
