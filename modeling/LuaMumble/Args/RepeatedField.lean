import LuaMumble.Lib.LuaTable
import LuaMumble.Thread.Payload

/-!
Methods that fill a repeated field of a message from their arguments: from a table of userdata, or
from the arguments one after the other. The array of the field is allocated for the length of
the table or the number of the arguments, and a loop stores an element for each userdata.
-/

namespace LuaMumble.Args

open Lib
open LuaMumble.Thread (Refusal)

/-- A value of a script. A user and a channel have the number that is sent of them, and a
voice target is sent itself. -/
inductive Value where
  | user (session : UInt32)
  | channel (channelId : UInt32)
  | voiceTarget (address : Nat)
  | other (typename : String)

/-- `luaL_typename` -/
def Value.typename : Value → String
  | .user _ | .channel _ | .voiceTarget _ => "userdata"
  | .other typename => typename

inductive Argument where
  | value (v : Value)
  | table (t : LuaTable Value)

def Argument.typename : Argument → String
  | .value v => v.typename
  | .table _ => "table"

/-- An element of a repeated field: a number, or a pointer to a message. -/
inductive Element where
  | id (n : UInt32)
  | target (address : Nat)
  deriving DecidableEq

/-- The userdata that a method takes, by their metatables. -/
inductive Metatable where
  | user
  | channel
  | voiceTarget

/-- `METATABLE_USER`, `METATABLE_CHAN` and `METATABLE_VOICETARGET` -/
def Metatable.name : Metatable → String
  | .user => "mumble.user"
  | .channel => "mumble.channel"
  | .voiceTarget => "mumble.voicetarget"

/-- `luaL_isudata`, with what is taken out of a userdata that has the metatable. -/
def Metatable.element : Metatable → Value → Option Element
  | .user, .user session => some (.id session)
  | .channel, .channel channelId => some (.id channelId)
  | .voiceTarget, .voiceTarget address => some (.target address)
  | _, _ => none

def Metatable.elementOf (metatable : Metatable) : Argument → Option Element
  | .value v => metatable.element v
  | .table _ => none

/-- `luaL_typerror` -/
def typerror (narg : Nat) (tname typename : String) : Refusal :=
  ⟨some narg, tname ++ " expected, got " ++ typename⟩

/-- `luaL_typerror_table` -/
def typerrorTable (narg : Nat) (key : Key) (tname typename : String) : Refusal :=
  ⟨some narg, "bad table entry '" ++ key.tostring.getD "(null)" ++ "' (" ++ tname ++
    " expected, got " ++ typename ++ ")"⟩

/-- `luaL_error` where `malloc` gives nothing. The text ends with `strerror`, which is left out. -/
def failedToMalloc : Refusal := ⟨none, "failed to malloc: "⟩

/-- The field that a method fills, with the other members of the message that it sends. -/
inductive Field where
  | listeningChannelAdd (session : UInt32)
  | listeningChannelRemove (session : UInt32)
  | linksAdd (channelId : UInt32)
  | linksRemove (channelId : UInt32)
  | receiversessions (sendersession : UInt32) (dataid data : List UInt8)
  | targets (id : UInt32)
  | sessionTexture
  | sessionComment
  | channelDescription

/-- What becomes of a call. An element is `none` if nothing was stored there. -/
inductive Outcome where
  | raised (refusal : Refusal)
  /-- Something that is not a userdata of the kind is read as if it were. -/
  | stray
  | sent (field : Field) (elements : List (Option Element))

/-- A call, with the number of elements that its array has room for, and the elements that were
stored, one behind the other. -/
structure Call where
  room : Nat
  stored : List Element
  outcome : Outcome

/-- Nothing was allocated yet. -/
def Call.refused (refusal : Refusal) : Call := ⟨0, [], .raised refusal⟩

/-- The first elements of the array. -/
def elementsOf (n : Nat) (stored : List Element) : List (Option Element) :=
  (List.range n).map fun i => stored[i]?

/-- The loop with `lua_next`, and where it ends before the end of the table. -/
def tableLoop (metatable : Metatable) (narg : Nat) :
    List (Key × Value) → List Element × Option Outcome
  | [] => ([], none)
  | (key, value) :: rest =>
      match metatable.element value with
      | some element =>
          let (stored, stop) := tableLoop metatable narg rest
          (element :: stored, stop)
      | none =>
          ([], some (.raised (typerrorTable narg key metatable.name value.typename)))

/-- The argument that the loop over the arguments takes the element of: the one that it has
checked, or the one on the top of the stack. -/
inductive Taken where
  | checked
  | top

def Taken.argument (taken : Taken) (arguments : List Argument) (i : Nat) : Option Argument :=
  match taken with
  | .checked => arguments[i]?
  | .top => arguments.getLast?

/-- The loop over the arguments, from one on. -/
def argumentLoop (metatable : Metatable) (narg : Nat) (taken : Taken)
    (arguments : List Argument) : Nat → List Argument → List Element × Option Outcome
  | _, [] => ([], none)
  | i, argument :: rest =>
      match metatable.elementOf argument with
      | none =>
          ([], some (.raised (typerror (narg + i) metatable.name argument.typename)))
      | some _ =>
          match (taken.argument arguments i).bind metatable.elementOf with
          | none => ([], some .stray)
          | some element =>
              let (stored, stop) := argumentLoop metatable narg taken arguments (i + 1) rest
              (element :: stored, stop)

/-- A method from the argument with the number `narg` on, with whether `malloc` gives a block. A
block for one element has room for `slots`. -/
def repeatedField (field : Field) (metatable : Metatable) (narg slots : Nat) (taken : Taken)
    (malloc : Bool) (arguments : List Argument) : Call :=
  if malloc then
    match arguments with
    | .table t :: _ =>
        let (stored, stop) := tableLoop metatable narg t.entries
        ⟨t.length * slots, stored, stop.getD (.sent field (elementsOf t.length stored))⟩
    | _ =>
        let n := arguments.length
        let (stored, stop) := argumentLoop metatable narg taken arguments 0 arguments
        ⟨n * slots, stored, stop.getD (.sent field (elementsOf n stored))⟩
  else .refused failedToMalloc

/-- What the methods use of a `MumbleClient`. -/
structure MumbleClient where
  connecting : Bool
  connected : Bool
  session : UInt32

/-- `mumble_client_connected` -/
def mumbleClientConnected (client : MumbleClient) (name : String) : Option Refusal :=
  let status := if client.connecting then "connecting" else "disconnected"
  if client.connected then none
  else some ⟨none, "attempt to call method '" ++ name ++ "' on " ++ status ++ " mumble.client"⟩

/-- The method of a client that is connected. -/
def ifConnected (client : MumbleClient) (name : String) (call : Call) : Call :=
  match mumbleClientConnected client name with
  | some refusal => .refused refusal
  | none => call

/-- `luaL_checktype` with `LUA_TTABLE` -/
def checkTable (narg : Nat) (arguments : List Argument) (call : Call) : Call :=
  match arguments with
  | [] => .refused (typerror narg "table" "no value")
  | .table _ :: _ => call
  | .value v :: _ => .refused (typerror narg "table" v.typename)

/-- How many pointers there is room for in a `MumbleProto__VoiceTarget__Target`. The structure
begins with a pointer, to its descriptor. -/
structure TargetSize where
  pointers : Nat
  pos : 0 < pointers

/-- `client_sendPluginData`, with the strings that are its first arguments. -/
def clientSendPluginData (client : MumbleClient) (dataid data : List UInt8) (malloc : Bool)
    (arguments : List Argument) : Call :=
  ifConnected client "sendPluginData"
    (repeatedField (.receiversessions client.session dataid data) .user 4 1 .checked malloc
      arguments)

/-- `client_registerVoiceTarget`. The array of pointers is allocated as one of targets. -/
def clientRegisterVoiceTarget (size : TargetSize) (client : MumbleClient) (id : UInt32)
    (malloc : Bool) (arguments : List Argument) : Call :=
  ifConnected client "registerVoiceTarget"
    (repeatedField (.targets id) .voiceTarget 3 size.pointers .checked malloc arguments)

/-- `client_requestTextureBlob` -/
def clientRequestTextureBlob (client : MumbleClient) (malloc : Bool)
    (arguments : List Argument) : Call :=
  ifConnected client "requestTextureBlob"
    (repeatedField .sessionTexture .user 2 1 .checked malloc arguments)

/-- `client_requestCommentBlob`, which takes nothing but a table. -/
def clientRequestCommentBlob (client : MumbleClient) (malloc : Bool)
    (arguments : List Argument) : Call :=
  ifConnected client "requestCommentBlob"
    (checkTable 2 arguments
      (repeatedField .sessionComment .user 2 1 .checked malloc arguments))

/-- `client_requestDescriptionBlob`, which takes nothing but a table. -/
def clientRequestDescriptionBlob (client : MumbleClient) (malloc : Bool)
    (arguments : List Argument) : Call :=
  ifConnected client "requestDescriptionBlob"
    (checkTable 2 arguments
      (repeatedField .channelDescription .channel 2 1 .checked malloc arguments))

/-- `user_listen` -/
def userListen (session : UInt32) (malloc : Bool) (arguments : List Argument) : Call :=
  repeatedField (.listeningChannelAdd session) .channel 2 1 .top malloc arguments

/-- `user_unlisten` -/
def userUnlisten (session : UInt32) (malloc : Bool) (arguments : List Argument) : Call :=
  repeatedField (.listeningChannelRemove session) .channel 2 1 .top malloc arguments

/-- `channel_link` -/
def channelLink (channelId : UInt32) (malloc : Bool) (arguments : List Argument) : Call :=
  repeatedField (.linksAdd channelId) .channel 2 1 .top malloc arguments

/-- `channel_unlink` -/
def channelUnlink (channelId : UInt32) (malloc : Bool) (arguments : List Argument) : Call :=
  repeatedField (.linksRemove channelId) .channel 2 1 .top malloc arguments

end LuaMumble.Args
