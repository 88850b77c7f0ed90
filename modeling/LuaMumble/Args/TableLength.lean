import LuaMumble.Args.RepeatedField

/-!
The length of a table and the number of its pairs. The array is made for the length, and the
message has as many elements, but the loop goes through all pairs: where the two are not the
same, it stores behind the array, or leaves elements as they were.
-/

namespace LuaMumble.Args

open Lib
open LuaMumble.Thread (Refusal)

/-- The methods that take a table, with what else they are given. -/
inductive Method where
  | sendPluginData (client : MumbleClient) (dataid data : List UInt8)
  | registerVoiceTarget (client : MumbleClient) (id : UInt32)
  | requestTextureBlob (client : MumbleClient)
  | requestCommentBlob (client : MumbleClient)
  | requestDescriptionBlob (client : MumbleClient)
  | listen (session : UInt32)
  | unlisten (session : UInt32)
  | link (channelId : UInt32)
  | unlink (channelId : UInt32)

namespace Method

def call (size : TargetSize) (malloc : Bool) (arguments : List Argument) : Method → Call
  | .sendPluginData client dataid data =>
      clientSendPluginData client dataid data malloc arguments
  | .registerVoiceTarget client id => clientRegisterVoiceTarget size client id malloc arguments
  | .requestTextureBlob client => clientRequestTextureBlob client malloc arguments
  | .requestCommentBlob client => clientRequestCommentBlob client malloc arguments
  | .requestDescriptionBlob client => clientRequestDescriptionBlob client malloc arguments
  | .listen session => userListen session malloc arguments
  | .unlisten session => userUnlisten session malloc arguments
  | .link channelId => channelLink channelId malloc arguments
  | .unlink channelId => channelUnlink channelId malloc arguments

def field : Method → Field
  | .sendPluginData client dataid data => .receiversessions client.session dataid data
  | .registerVoiceTarget _ id => .targets id
  | .requestTextureBlob _ => .sessionTexture
  | .requestCommentBlob _ => .sessionComment
  | .requestDescriptionBlob _ => .channelDescription
  | .listen session => .listeningChannelAdd session
  | .unlisten session => .listeningChannelRemove session
  | .link channelId => .linksAdd channelId
  | .unlink channelId => .linksRemove channelId

def metatable : Method → Metatable
  | .sendPluginData .. | .requestTextureBlob _ | .requestCommentBlob _ => .user
  | .registerVoiceTarget .. => .voiceTarget
  | .requestDescriptionBlob _ | .listen _ | .unlisten _ | .link _ | .unlink _ => .channel

/-- The number of the first argument of the list. -/
def narg : Method → Nat
  | .sendPluginData .. => 4
  | .registerVoiceTarget .. => 3
  | _ => 2

/-- What there is room for in a block for one element. -/
def slots (size : TargetSize) : Method → Nat
  | .registerVoiceTarget .. => size.pointers
  | _ => 1

/-- The argument that the loop over the arguments takes. -/
def taken : Method → Taken
  | .listen _ | .unlisten _ | .link _ | .unlink _ => .top
  | _ => .checked

/-- The method gets past the check of its client. -/
def Connected : Method → Prop
  | .sendPluginData client .. | .registerVoiceTarget client _ | .requestTextureBlob client
  | .requestCommentBlob client | .requestDescriptionBlob client => client.connected = true
  | .listen _ | .unlisten _ | .link _ | .unlink _ => True

end Method

/-- No element is stored behind the array, and where the message is sent, its field has each value
of the table once and nothing else. -/
structure Call.SendsOnce (call : Call) (m : Method) (t : LuaTable Value) : Prop where
  fits : call.stored.length ≤ call.room
  once : ∀ field elements, call.outcome = .sent field elements → field = m.field ∧
    elements.Perm (t.entries.map fun entry => m.metatable.element entry.2)

section Loop

variable {metatable : Metatable} {narg : Nat} {entries : List (Key × Value)}

variable (narg) in
/-- The loop stores every value, in the order of the pairs. -/
theorem tableLoop_of_valid (hvalid : ∀ entry ∈ entries, (metatable.element entry.2).isSome = true) :
    (tableLoop metatable narg entries).2 = none ∧
      (tableLoop metatable narg entries).1.map some =
        entries.map fun entry => metatable.element entry.2 := by
  induction entries with
  | nil => exact ⟨rfl, rfl⟩
  | cons entry rest ih =>
      obtain ⟨key, value⟩ := entry
      have hvalue := hvalid (key, value) (List.mem_cons_self ..)
      obtain ⟨element, helement⟩ := Option.isSome_iff_exists.mp hvalue
      obtain ⟨hstop, hstored⟩ := ih fun entry hentry => hvalid entry (List.mem_cons_of_mem _ hentry)
      simp only [tableLoop, helement, List.map_cons, hstored, hstop, and_self]

variable (narg) in
theorem tableLoop_length (hvalid : ∀ entry ∈ entries, (metatable.element entry.2).isSome = true) :
    (tableLoop metatable narg entries).1.length = entries.length := by
  have hcount := congrArg List.length (tableLoop_of_valid narg hvalid).2
  rw [List.length_map, List.length_map] at hcount
  exact hcount

@[simp] theorem length_elementsOf (n : Nat) (stored : List Element) :
    (elementsOf n stored).length = n := by
  simp [elementsOf]

theorem elementsOf_length (stored : List Element) :
    elementsOf stored.length stored = stored.map some := by
  apply List.ext_getElem
  · simp
  · intro i hi hmap
    simp [elementsOf]

/-- The first elements are those that were stored, if there are as many. -/
theorem elementsOf_perm_iff (n : Nat) (stored : List Element) :
    (elementsOf n stored).Perm (stored.map some) ↔ n = stored.length := by
  constructor
  · intro hperm
    simpa using hperm.length_eq
  · rintro rfl
    rw [elementsOf_length]

end Loop

section Calls

variable {size : TargetSize} {m : Method} {t : LuaTable Value}

theorem slots_pos : 0 < m.slots size := by
  cases m with
  | registerVoiceTarget client id => exact size.pos
  | _ => exact Nat.one_pos

/-- A method with a table, behind the check of its client. -/
theorem call_of_connected (malloc : Bool) (rest : List Argument) (h : m.Connected) :
    m.call size malloc (.table t :: rest) =
      repeatedField m.field m.metatable m.narg (m.slots size) m.taken malloc
        (.table t :: rest) := by
  have hconnected (client : MumbleClient) (name : String) (call : Call)
      (hclient : client.connected = true) : ifConnected client name call = call := by
    simp [ifConnected, mumbleClientConnected, hclient]
  cases m with
  | sendPluginData client dataid data => exact hconnected client _ _ h
  | registerVoiceTarget client id => exact hconnected client _ _ h
  | requestTextureBlob client => exact hconnected client _ _ h
  | requestCommentBlob client => exact hconnected client _ _ h
  | requestDescriptionBlob client => exact hconnected client _ _ h
  | listen session => rfl
  | unlisten session => rfl
  | link channelId => rfl
  | unlink channelId => rfl

variable (size) in
theorem call_of_not_connected (malloc : Bool) (arguments : List Argument) (h : ¬ m.Connected) :
    ∃ refusal, m.call size malloc arguments = .refused refusal := by
  have hrefused (client : MumbleClient) (name : String) (call : Call)
      (hclient : client.connected ≠ true) :
      ∃ refusal, ifConnected client name call = .refused refusal := by
    rw [ifConnected, mumbleClientConnected, if_neg hclient]
    exact ⟨_, rfl⟩
  cases m with
  | sendPluginData client dataid data => exact hrefused client _ _ h
  | registerVoiceTarget client id => exact hrefused client _ _ h
  | requestTextureBlob client => exact hrefused client _ _ h
  | requestCommentBlob client => exact hrefused client _ _ h
  | requestDescriptionBlob client => exact hrefused client _ _ h
  | listen session => exact absurd trivial h
  | unlisten session => exact absurd trivial h
  | link channelId => exact absurd trivial h
  | unlink channelId => exact absurd trivial h

/-- A call that is refused stores nothing and sends nothing. -/
theorem refused_sendsOnce (refusal : Refusal) : (Call.refused refusal).SendsOnce m t where
  fits := le_refl _
  once := by
    intro field elements houtcome
    cases houtcome

/-- A call with the array that the length asked for. -/
theorem sendsOnce_repeatedField_iff (rest : List Argument)
    (hvalid : ∀ entry ∈ t.entries, (m.metatable.element entry.2).isSome = true) :
    (repeatedField m.field m.metatable m.narg (m.slots size) m.taken true
      (.table t :: rest)).SendsOnce m t ↔ t.length = t.entries.length := by
  obtain ⟨hstop, hstored⟩ := tableLoop_of_valid m.narg hvalid
  have hcount := tableLoop_length m.narg hvalid
  rw [repeatedField, if_pos rfl]
  simp only [hstop, Option.getD_none]
  constructor
  · intro hsends
    have hperm := (hsends.once _ _ rfl).2
    rw [← hstored, elementsOf_perm_iff, hcount] at hperm
    exact hperm
  · intro hlength
    constructor
    · simp only [hcount, hlength]
      exact Nat.le_mul_of_pos_right _ slots_pos
    · intro field elements houtcome
      simp only [Outcome.sent.injEq] at houtcome
      obtain ⟨rfl, rfl⟩ := houtcome
      refine ⟨rfl, ?_⟩
      rw [← hstored, elementsOf_perm_iff, hcount]
      exact hlength

end Calls

/-- With a table of userdata of its kind, a method stores within its array and sends each value
once, if and only if the length of the table is the number of its pairs, or there is nothing
sent because the client is not connected or nothing is allocated. -/
theorem table_sent_once_iff (size : TargetSize) (m : Method) (malloc : Bool)
    (t : LuaTable Value) (rest : List Argument)
    (hvalid : ∀ entry ∈ t.entries, (m.metatable.element entry.2).isSome = true) :
    (m.call size malloc (.table t :: rest)).SendsOnce m t ↔
      (m.Connected → malloc = true → t.length = t.entries.length) := by
  by_cases hconnected : m.Connected
  · rw [call_of_connected malloc rest hconnected, imp_iff_right hconnected]
    cases malloc with
    | true =>
        rw [sendsOnce_repeatedField_iff rest hvalid]
        exact (imp_iff_right rfl).symm
    | false =>
        refine iff_of_true (refused_sendsOnce failedToMalloc) ?_
        intro hmalloc
        cases hmalloc
  · obtain ⟨refusal, hcall⟩ := call_of_not_connected size malloc (.table t :: rest) hconnected
    rw [hcall]
    exact iff_of_true (refused_sendsOnce refusal) fun h => absurd h hconnected

/-- A table with three channels, two of which are the same. The pairs are gone through from the end
of the array. -/
def threeChannels : LuaTable Value where
  entries := [(.integer 3, .channel 7), (.integer 2, .channel 8), (.integer 1, .channel 7)]
  length := 3
  keys_nodup := by decide
  key_length := .inr (by decide)
  key_next := by decide

theorem table_sent_once_iff_three :
    ((Method.listen 5).call ⟨9, by decide⟩ true [.table threeChannels]).SendsOnce (.listen 5)
      threeChannels :=
  (table_sent_once_iff ⟨9, by decide⟩ (.listen 5) true threeChannels []
    (by simp [threeChannels, Method.metatable, Metatable.element])).mpr fun _ _ => rfl

/-- A table with one channel under a string. Its only border is 0. -/
def namedChannel : LuaTable Value where
  entries := [(.string "lobby", .channel 7)]
  length := 0
  keys_nodup := by decide
  key_length := .inl rfl
  key_next := by decide

/-- A table with a hole. Both 1 and 3 are borders of it. -/
def channelsWithHole : LuaTable Value where
  entries := [(.integer 1, .channel 7), (.integer 3, .channel 8)]
  length := 3
  keys_nodup := by decide
  key_length := .inr (by decide)
  key_next := by decide

/-- The channel under the string is stored in an array of no elements, and the table with the
hole is sent with an element that was never stored. -/
theorem not_sent_once :
    ¬ ((Method.listen 5).call ⟨9, by decide⟩ true [.table namedChannel]).SendsOnce (.listen 5)
      namedChannel ∧
    ¬ ((Method.listen 5).call ⟨9, by decide⟩ true [.table channelsWithHole]).SendsOnce
      (.listen 5) channelsWithHole := by
  constructor
  · intro hsends
    exact absurd hsends.fits (by decide)
  · intro hsends
    have hperm := (hsends.once _ _ rfl).2
    exact absurd hperm.length_eq (by decide)

end LuaMumble.Args
