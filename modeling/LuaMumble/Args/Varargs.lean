import LuaMumble.Args.TableLength

/-!
The two forms of the methods that take a list of channels: the channels one after the other, or a
table of them. The loop over the arguments checks each of them, but takes what is on the top of the
stack, which is the last one every time.
-/

namespace LuaMumble.Args

open Lib

/-- The methods that take a list of channels. -/
inductive ChannelMethod where
  | listen (session : UInt32)
  | unlisten (session : UInt32)
  | link (channelId : UInt32)
  | unlink (channelId : UInt32)

namespace ChannelMethod

def call (arguments : List Argument) : ChannelMethod → Call
  | .listen session => userListen session true arguments
  | .unlisten session => userUnlisten session true arguments
  | .link channelId => channelLink channelId true arguments
  | .unlink channelId => channelUnlink channelId true arguments

def field : ChannelMethod → Field
  | .listen session => .listeningChannelAdd session
  | .unlisten session => .listeningChannelRemove session
  | .link channelId => .linksAdd channelId
  | .unlink channelId => .linksRemove channelId

/-- With the arguments, the method sends the numbers, in some order. -/
def Sends (m : ChannelMethod) (arguments : List Argument) (ids : List UInt32) : Prop :=
  ∃ elements, (m.call arguments).outcome = .sent m.field elements ∧
    elements.Perm (ids.map fun id => some (.id id))

end ChannelMethod

/-- The channels as arguments. -/
def channelArguments (ids : List UInt32) : List Argument := ids.map fun id => .value (.channel id)

section Forms

variable {m : ChannelMethod} {ids : List UInt32}

theorem call_eq (arguments : List Argument) :
    m.call arguments = repeatedField m.field .channel 2 1 .top true arguments := by
  cases m <;> rfl

/-- The loop stores the last channel once for each of them. -/
theorem argumentLoop_top (narg i : Nat) (last : UInt32) (rest : List UInt32)
    (hlast : ids.getLast? = some last) :
    argumentLoop .channel narg .top (channelArguments ids) i (channelArguments rest) =
      (List.replicate rest.length (.id last), none) := by
  have htop (i : Nat) : Taken.top.argument (channelArguments ids) i =
      some (.value (.channel last)) := by
    rw [Taken.argument, channelArguments, List.getLast?_map, hlast]
    rfl
  induction rest generalizing i with
  | nil => rfl
  | cons id rest ih =>
      have hrest := ih (i + 1)
      rw [channelArguments] at hrest
      simp only [channelArguments, List.map_cons, argumentLoop, Metatable.elementOf,
        Metatable.element] at hrest htop ⊢
      rw [htop]
      simp only [Option.bind_some, hrest, List.length_cons, List.replicate_succ]
      rfl

theorem sends_table {t : LuaTable Value} (ht : t.IsSequence (ids.map .channel))
    (rest : List Argument) : m.Sends (.table t :: rest) ids := by
  have hvalues := LuaTable.values_of_isSequence ht
  have hvalid : ∀ entry ∈ t.entries, (Metatable.channel.element entry.2).isSome = true := by
    intro entry hentry
    have hmem := hvalues.mem_iff.mp (List.mem_map_of_mem (f := Prod.snd) hentry)
    obtain ⟨id, -, hid⟩ := List.mem_map.mp hmem
    rw [← hid]
    rfl
  obtain ⟨hstop, hstored⟩ := tableLoop_of_valid 2 hvalid
  have hcount := tableLoop_length 2 hvalid
  have hlength : t.length = t.entries.length := by
    rw [LuaTable.length_of_isSequence ht, ← hvalues.length_eq, List.length_map]
  refine ⟨elementsOf t.length (tableLoop .channel 2 t.entries).1, ?_, ?_⟩
  · rw [call_eq, repeatedField, if_pos rfl]
    simp only [hstop, Option.getD_none]
  · have helements := hvalues.map Metatable.channel.element
    rw [List.map_map, List.map_map] at helements
    rw [hlength, ← hcount, elementsOf_length, hstored]
    exact helements

/-- Arguments that are no table are stored by the loop over them. -/
theorem call_arguments : m.call (channelArguments ids) =
    let (stored, stop) :=
      argumentLoop .channel 2 .top (channelArguments ids) 0 (channelArguments ids)
    ⟨ids.length * 1, stored, stop.getD (.sent m.field (elementsOf ids.length stored))⟩ := by
  have hlength : (channelArguments ids).length = ids.length := List.length_map ..
  rw [call_eq, ← hlength]
  cases ids with
  | nil => rfl
  | cons id rest => rfl

theorem sends_arguments_iff :
    m.Sends (channelArguments ids) ids ↔ ∀ id ∈ ids, ids.getLast? = some id := by
  cases hlast : ids.getLast? with
  | none =>
      obtain rfl := List.getLast?_eq_none_iff.mp hlast
      refine iff_of_true ⟨[], ?_, List.Perm.refl _⟩ (by simp)
      rw [call_arguments]
      rfl
  | some last =>
      have houtcome : (m.call (channelArguments ids)).outcome =
          .sent m.field (List.replicate ids.length (some (.id last))) := by
        have hstored := elementsOf_length (List.replicate ids.length (.id last))
        rw [List.length_replicate, List.map_replicate] at hstored
        rw [call_arguments, argumentLoop_top 2 0 last ids hlast]
        simp only [Option.getD_none, hstored]
      simp only [ChannelMethod.Sends, houtcome, Outcome.sent.injEq, true_and, exists_eq_left',
        List.replicate_perm, Option.some.injEq]
      rw [eq_comm, List.eq_replicate_iff, List.length_map, eq_self_iff_true, true_and]
      constructor
      · intro hall id hid
        have hsame := hall (some (.id id)) (List.mem_map.mpr ⟨id, hid, rfl⟩)
        exact (Element.id.inj (Option.some.inj hsame)).symm
      · intro hall element helement
        obtain ⟨id, hid, rfl⟩ := List.mem_map.mp helement
        rw [hall id hid]

end Forms

/-- For channels one after the other and for a table of them, a method sends the numbers of the
channels, if and only if all of them are the number of the last one. -/
theorem forms_agree_iff (m : ChannelMethod) (ids : List UInt32) (t : LuaTable Value)
    (rest : List Argument) (ht : t.IsSequence (ids.map .channel)) :
    (m.Sends (channelArguments ids) ids ∧ m.Sends (.table t :: rest) ids) ↔
      ∀ id ∈ ids, ids.getLast? = some id := by
  rw [and_iff_left (sends_table ht rest)]
  exact sends_arguments_iff

/-- A table with one channel twice. -/
def sameChannels : LuaTable Value where
  entries := [(.integer 1, .channel 7), (.integer 2, .channel 7)]
  length := 2
  keys_nodup := by decide
  key_length := .inr (by decide)
  key_next := by decide

theorem forms_agree_iff_same :
    (ChannelMethod.listen 5).Sends (channelArguments [7, 7]) [7, 7] ∧
      (ChannelMethod.listen 5).Sends [.table sameChannels] [7, 7] :=
  (forms_agree_iff (.listen 5) [7, 7] sameChannels [] (List.Perm.refl _)).mpr (by simp)

/-- Of two channels, the second one is sent twice. -/
theorem last_sent_twice :
    ((ChannelMethod.listen 5).call (channelArguments [7, 8])).outcome =
        .sent (.listeningChannelAdd 5) [some (.id 8), some (.id 8)] ∧
      ¬ (ChannelMethod.listen 5).Sends (channelArguments [7, 8]) [7, 8] := by
  refine ⟨rfl, ?_⟩
  rw [sends_arguments_iff]
  intro hsame
  have hlast := hsame 7 (List.mem_cons_self ..)
  cases hlast

end LuaMumble.Args
