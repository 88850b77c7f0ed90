import LuaMumble.Client.Objects
import LuaMumble.Lib.Machine
import LuaMumble.Thread.Payload

/-!
The buffers, channels and thread workers as they lie in userdata. `lua_newuserdata` does not
clear the memory that it gives, so a member has what lay there before until something is
written to it. Members that the code sets as it makes an object are plain here; the others are
`none` until they are written, and where one is read that is not, the read finds the contents
that the memory came with.
-/

namespace LuaMumble.Userdata

open Lib
open LuaMumble.Client (Objects)
open LuaMumble.Thread (strndup Refusal)

/-- `ByteBuffer`. A pointer is an address, and `none` is NULL. -/
structure ByteBuffer where
  originalCapacity : UInt64
  capacity : UInt64
  readHead : UInt64
  writeHead : UInt64
  data : Option Nat
  context : Option Nat
  deriving DecidableEq

/-- `AudioContext` -/
structure AudioContext where
  client : Nat
  samplerate : Int32
  srcState : Option Nat
  channels : Int32
  playing : Bool

/-- `MumbleChannel`, without the table of the script. A string is `none` where the pointer is
NULL. The volume adjustment is a `float`, as its bits. -/
structure MumbleChannel where
  client : Nat
  name : Option (List UInt8)
  channelId : UInt32
  parent : UInt32
  description : Option (List UInt8)
  descriptionHash : Option (List UInt8)
  descriptionHashLen : Option Nat
  temporary : Bool
  position : Int32
  maxUsers : UInt32
  links : List UInt32
  isEnterRestricted : Bool
  canEnter : Option Bool
  permissions : UInt32
  listeningVolumeAdjustment : Option UInt32

/-- What is used of a `MumbleUser`. -/
structure MumbleUser where
  session : UInt32
  channelId : UInt32

/-- An entry of `MUMBLE_THREAD_REG` in the Lua state of a worker: a free one with the next free
one, or what a reference was taken to. -/
inductive Entry where
  | nil
  | free (next : Int)
  | worker
  | callback (f : Nat)
  deriving DecidableEq

/-- The table, with its length as `lua_objlen` tells it. -/
structure Registry where
  entries : Int → Entry
  length : Int

/-- `MumbleThreadWorker` -/
structure MumbleThreadWorker where
  messageQueue : List (List UInt8)
  message : Option Int
  self : Int
  registry : Registry

/-- `MumbleClient`, with its objects by the numbers of their userdata. -/
structure MumbleClient where
  users : Objects Nat
  channels : Objects Nat
  audioPipes : List Nat

/-- `created` counts the userdata. A buffer is `some none` if it has been given its memory and
its metatable, and nothing more. -/
structure State where
  created : Nat
  clients : Nat → MumbleClient
  buffers : Nat → Option (Option ByteBuffer)
  contexts : Nat → Option AudioContext
  channels : Nat → Option MumbleChannel
  users : Nat → Option MumbleUser
  workers : Nat → Option MumbleThreadWorker

/-- What lay in the memory of each userdata before, in the members that are not always
overwritten at once. -/
structure Contents where
  buffer : Nat → ByteBuffer
  descriptionHashLen : Nat → Nat
  canEnter : Nat → Bool
  listeningVolumeAdjustment : Nat → UInt32
  message : Nat → Int

/-- The values that the modelled functions push. The entries of a table are its keys with the
userdata under them. -/
inductive LuaValue where
  | nil
  | boolean (b : Bool)
  | integer (n : Int)
  | number (float : UInt32)
  | string (bytes : List UInt8)
  | userdata (n : Nat)
  | table (entries : List (Nat × Option Nat))
  | numbers (entries : List (UInt32 × UInt32))
  deriving DecidableEq

/-- What a finalizer does outside of the userdata. -/
inductive Effect where
  | unpipe (client : Nat)
  | srcDelete (srcState : Nat)
  | free (address : Nat)
  | freeString (string : List UInt8)
  /-- What lies at the address is taken for an `AudioContext`. -/
  | stray (address : Nat)
  deriving DecidableEq

/-- What a script or the system sees of a step. -/
inductive Output where
  | nothing
  | raised (refusal : Refusal)
  | pushed (value : LuaValue)
  /-- A NULL pointer is read. -/
  | null
  | hook (fields : List (String × LuaValue))
  | finalized (effects : List Effect)
  | called (callback self : Entry) (message : List UInt8)
  /-- The reference that was given back first, if any, and the error, if any. -/
  | registered (released : Option Int) (refusal : Option Refusal)

def LuaValue.optional : Option Nat → LuaValue
  | some n => .userdata n
  | none => .nil

/-- `lua_pushstring` -/
def LuaValue.pushstring : Option (List UInt8) → LuaValue
  | some bytes => .string bytes
  | none => .nil

/-- The userdata under the numbers from 1 on. -/
def LuaValue.array (objects : List (Option Nat)) : LuaValue :=
  .table (objects.mapIdx fun i object => (i + 1, object))

section Buffers

/-- The second argument of `mumble_buffer_new`, or the name of its type. -/
inductive BufferArgument where
  | number (n : Int64)
  | string (data : List UInt8)
  | absent
  | other (typename : String)

/-- `buffer_init`, with what `malloc` gives. -/
def bufferInit (size : UInt64) (block : Option Nat) : ByteBuffer :=
  { originalCapacity := size
    capacity := size
    readHead := 0
    writeHead := 0
    data := block
    context := none }

/-- `buffer_init_data`, which writes and flips if there is a block. -/
def bufferInitData (size : UInt64) (block : Option Nat) : ByteBuffer :=
  let buffer := bufferInit size block
  if block.isSome then { buffer with writeHead := buffer.writeHead + size, readHead := 0 }
  else buffer

/-- `luabuffer_new` -/
def luabufferNew (s : State) : Nat × State :=
  (s.created, { s with
    created := s.created + 1
    buffers := Function.update s.buffers s.created (some none) })

/-- The members that a buffer is given at once, or `none` in the case of another type. -/
def BufferArgument.init (block : Option Nat) : BufferArgument → Option ByteBuffer
  | .number n => some (bufferInit n.toUInt64 block)
  | .string data => some (bufferInitData data.length.toUInt64 block)
  | .absent => some (bufferInit 1024 block)
  | .other _ => none

/-- The text of the error ends with `strerror`, which is left out. -/
def mumbleBufferNew (argument : BufferArgument) (block : Option Nat) (s : State) :
    Output × State :=
  let (n, s) := luabufferNew s
  match argument, argument.init block with
  | .other typename, _ =>
      (.raised ⟨some 1, "number or string expected, got " ++ typename⟩, s)
  | _, buffer =>
      let s := { s with buffers := Function.update s.buffers n (some buffer) }
      if block.isSome then (.pushed (.userdata n), s)
      else (.raised ⟨none, "error initializing buffer: "⟩, s)

/-- `PCM_BUFFER * sizeof(float)` -/
def pcmBufferSize : UInt64 := 60 * 48000 / 1000 * 2 * 4

/-- `client_createAudioBuffer`, with what `malloc` gives for the data and for the context, and
what `src_new` gives. -/
def clientCreateAudioBuffer (client : Nat) (samplerate channels : Int32)
    (block context srcState : Option Nat) (s : State) : Output × State :=
  let (n, s) := luabufferNew s
  let buffer := bufferInit pcmBufferSize block
  let s := { s with buffers := Function.update s.buffers n (some (some buffer)) }
  match block, context, srcState with
  | none, _, _ => (.raised ⟨none, "error creating buffer: "⟩, s)
  | some _, none, _ => (.raised ⟨none, "error creating buffer context: "⟩, s)
  | some _, some _, none => (.raised ⟨none, "error creating resampler state: "⟩, s)
  | some _, some address, some srcState =>
      (.pushed (.userdata n), { s with
        contexts := Function.update s.contexts address
          (some ⟨client, samplerate, some srcState, channels, true⟩)
        buffers := Function.update s.buffers n (some (some { buffer with context := some address }))
        clients := Function.update s.clients client
          { s.clients client with audioPipes := n :: (s.clients client).audioPipes } })

/-- The first half of `buffer_free`. -/
def freeContext (contexts : Nat → Option AudioContext) : Option Nat → List Effect
  | none => []
  | some address =>
      match contexts address with
      | some context =>
          .unpipe context.client :: (context.srcState.map Effect.srcDelete).toList ++
            [.free address]
      | none => [.stray address]

/-- `buffer_free` -/
def bufferFree (contexts : Nat → Option AudioContext) (buffer : ByteBuffer) : List Effect :=
  freeContext contexts buffer.context ++ (buffer.data.map Effect.free).toList

/-- The client whose list of pipes the buffer is taken out of. -/
def pipedClient (contexts : Nat → Option AudioContext) (buffer : ByteBuffer) : Option Nat :=
  (buffer.context.bind contexts).map AudioContext.client

/-- `luabuffer_gc`, and the end of the userdata. -/
def luabufferGc (contents : Contents) (n : Nat) (s : State) : Output × State :=
  match s.buffers n with
  | none => (.nothing, s)
  | some memory =>
      let buffer := memory.getD (contents.buffer n)
      (.finalized (bufferFree s.contexts buffer), { s with
        buffers := Function.update s.buffers n none
        contexts := match buffer.context with
          | some address => Function.update s.contexts address none
          | none => s.contexts
        clients := match pipedClient s.contexts buffer with
          | some client => Function.update s.clients client
              { s.clients client with audioPipes := (s.clients client).audioPipes.erase n }
          | none => s.clients })

/-- What a script asks a buffer for. -/
inductive BufferGetter where
  | length
  | capacity
  | readHead
  | writeHead
  | isEmpty

/-- `luabuffer_index`, with `luabuffer_len` and `luabuffer_isEmpty`. -/
def ByteBuffer.get (buffer : ByteBuffer) : BufferGetter → LuaValue
  | .length => .integer (buffer.writeHead - buffer.readHead).toInt64.toInt
  | .capacity => .integer buffer.capacity.toInt64.toInt
  | .readHead => .integer buffer.readHead.toInt64.toInt
  | .writeHead => .integer buffer.writeHead.toInt64.toInt
  | .isEmpty => .boolean (buffer.writeHead = buffer.readHead)

/-- A script has no buffer whose constructor raised an error. -/
def bufferGet (n : Nat) (getter : BufferGetter) (s : State) : Output × State :=
  match s.buffers n with
  | some (some buffer) => (.pushed (buffer.get getter), s)
  | _ => (.nothing, s)

end Buffers

section Channels

/-- The channel that a client has in its table. -/
def State.channelAt (s : State) (client : Nat) (channelId : UInt32) : Option Nat :=
  (s.clients client).channels.table channelId

/-- The user that a client has in its table. -/
def State.userAt (s : State) (client : Nat) (session : UInt32) : Option Nat :=
  (s.clients client).users.table session

/-- `mumble_channel_raw_get`, which converts the id to the `int` of `lua_rawgeti`. -/
def mumbleChannelRawGet (s : State) (client : Nat) (channelId : UInt32) : Option Nat :=
  if channelId.toNat < 2 ^ 31 then s.channelAt client channelId else none

/-- `mumble_user_raw_get` -/
def mumbleUserRawGet (s : State) (client : Nat) (session : UInt32) : Option Nat :=
  if session.toNat < 2 ^ 31 then s.userAt client session else none

/-- The channel as `mumble_channel_get` makes it. -/
def newChannel (client : Nat) (channelId : UInt32) : MumbleChannel :=
  { client := client
    name := none
    channelId := channelId
    parent := 0
    description := none
    descriptionHash := none
    descriptionHashLen := none
    temporary := false
    position := 0
    maxUsers := 0
    links := []
    isEnterRestricted := false
    canEnter := none
    permissions := 0
    listeningVolumeAdjustment := none }

/-- `mumble_channel_get` -/
def mumbleChannelGet (s : State) (client : Nat) (channelId : UInt32) : Nat × State :=
  match s.channelAt client channelId with
  | some n => (n, s)
  | none =>
      (s.created, { s with
        created := s.created + 1
        channels := Function.update s.channels s.created (some (newChannel client channelId))
        clients := Function.update s.clients client
          { s.clients client with
            channels := (s.clients client).channels.put channelId s.created } })

/-- `mumble_user_get` -/
def mumbleUserGet (s : State) (client : Nat) (session : UInt32) : Nat × State :=
  match s.userAt client session with
  | some n => (n, s)
  | none =>
      (s.created, { s with
        created := s.created + 1
        users := Function.update s.users s.created (some ⟨session, 0⟩)
        clients := Function.update s.clients client
          { s.clients client with users := (s.clients client).users.put session s.created } })

/-- Writes to members of a channel. -/
def setChannel (n : Nat) (write : MumbleChannel → MumbleChannel) (s : State) : State :=
  { s with channels := Function.update s.channels n ((s.channels n).map write) }

/-- `strdup`, up to the NUL. -/
def strdup (string : List UInt8) : List UInt8 := string.takeWhile (· ≠ 0)

/-- `SAFE_STRNDUP` of bytes of a message, which are NULL if there are none. -/
def safeStrndup (bytes : List UInt8) : Option (List UInt8) :=
  if bytes.isEmpty then none else strndup bytes bytes.length

/-- `hex_str` -/
def hexStr : List UInt8 :=
  [0x30, 0x31, 0x32, 0x33, 0x34, 0x35, 0x36, 0x37, 0x38, 0x39, 0x61, 0x62, 0x63, 0x64, 0x65, 0x66]

/-- `bin_to_strhex`. What it reads behind the block is found in the rest of the memory. -/
def binToStrhex (bin : Option (List UInt8)) (behind : Nat → UInt8) (binsz : Nat) :
    Option (List UInt8) :=
  match bin, binsz with
  | _, 0 => some []
  | none, _ + 1 => none
  | some block, binsz =>
      some ((List.range binsz).flatMap fun i =>
        let byte := block.getD i (behind (i - block.length))
        [hexStr.getD ((byte >>> 4) &&& 0x0F).toNat 0, hexStr.getD (byte &&& 0x0F).toNat 0])

/-- `MumbleProto__ChannelState` -/
structure ChannelState where
  channelId : Option UInt32 := none
  parent : Option UInt32 := none
  name : Option (List UInt8) := none
  description : Option (List UInt8) := none
  temporary : Option Bool := none
  position : Option Int32 := none
  descriptionHash : Option (List UInt8) := none
  maxUsers : Option UInt32 := none
  linksAdd : List UInt32 := []
  linksRemove : List UInt32 := []
  links : List UInt32 := []
  isEnterRestricted : Option Bool := none
  canEnter : Option Bool := none

/-- The members of `MumbleProto__UserState` that are about channels. -/
structure UserState where
  session : Option UInt32
  channelId : Option UInt32
  listeningVolumeAdjustment : List (UInt32 × UInt32)

/-- The writes of `packet_channel_state` to the channel. -/
def ChannelState.assign (state : ChannelState) (channel : MumbleChannel) : MumbleChannel :=
  let linked := state.linksRemove.foldl List.erase
    (state.linksAdd.foldl (fun links id => id :: links) channel.links)
  { channel with
    parent := state.parent.getD channel.parent
    name := (state.name.map strdup).or channel.name
    description := (state.description.map strdup).or channel.description
    temporary := state.temporary.getD channel.temporary
    position := state.position.getD channel.position
    descriptionHash := match state.descriptionHash with
      | some hash => safeStrndup hash
      | none => channel.descriptionHash
    descriptionHashLen := (state.descriptionHash.map List.length).or channel.descriptionHashLen
    maxUsers := state.maxUsers.getD channel.maxUsers
    links := if state.links.isEmpty then linked
      else state.links.foldl (fun links id => id :: links) []
    isEnterRestricted := state.isEnterRestricted.getD channel.isEnterRestricted
    canEnter := state.canEnter.or channel.canEnter }

/-- A field of the event of a hook that is there if the message has the member. -/
def field {A : Type} (name : String) (member : Option A) (value : A → LuaValue) :
    List (String × LuaValue) :=
  (member.map fun a => (name, value a)).toList

/-- The field for a list of channels that is not empty. -/
def linksField (s : State) (client : Nat) (name : String) (links : List UInt32) :
    List (String × LuaValue) :=
  if links.isEmpty then []
  else [(name, .array (links.map (mumbleChannelRawGet s client)))]

/-- The event of `OnChannelState`. -/
def ChannelState.event (state : ChannelState) (s : State) (client : Nat) (channelId : UInt32)
    (behind : Nat → UInt8) : List (String × LuaValue) :=
  [("channel", .optional (mumbleChannelRawGet s client channelId)),
    ("channel_id", .integer channelId.toNat)] ++
  field "parent" state.parent (fun id => .optional (mumbleChannelRawGet s client id)) ++
  field "name" state.name (fun name => .string (strdup name)) ++
  field "description" state.description (fun description => .string (strdup description)) ++
  field "temporary" state.temporary .boolean ++
  field "position" state.position (fun position => .integer position.toInt) ++
  field "description_hash" state.descriptionHash (fun hash =>
    .pushstring (binToStrhex (safeStrndup hash) behind hash.length)) ++
  field "max_users" state.maxUsers (fun users => .integer users.toNat) ++
  linksField s client "links_add" state.linksAdd ++
  linksField s client "links_remove" state.linksRemove ++
  linksField s client "links" state.links ++
  field "is_enter_restricted" state.isEnterRestricted .boolean ++
  field "can_enter" state.canEnter .boolean

/-- `packet_channel_state` -/
def packetChannelState (client : Nat) (state : ChannelState) (behind : Nat → UInt8) (s : State) :
    Output × State :=
  match state.channelId with
  | none => (.nothing, s)
  | some channelId =>
      let (n, s) := mumbleChannelGet s client channelId
      (.hook (state.event s client channelId behind), setChannel n state.assign s)

/-- The loop of `packet_user_state` over the volume adjustments. -/
def adjustVolumes (client : Nat) : List (UInt32 × UInt32) → State → State
  | [], s => s
  | (channelId, volumeAdjustment) :: rest, s =>
      let (n, s) := mumbleChannelGet s client channelId
      adjustVolumes client rest (setChannel n
        (fun channel => { channel with listeningVolumeAdjustment := some volumeAdjustment }) s)

/-- `packet_user_state`, as far as it is about channels. -/
def packetUserState (client : Nat) (state : UserState) (s : State) : Output × State :=
  match state.session with
  | none => (.nothing, s)
  | some session =>
      let (user, s) := mumbleUserGet s client session
      let s := { s with
        users := Function.update s.users user ((s.users user).map fun user =>
          ⟨session, state.channelId.getD user.channelId⟩) }
      (.hook ([("session", .integer session.toNat)] ++
          field "channel" state.channelId (fun id =>
            .optional (mumbleChannelRawGet s client id)) ++
          (if state.listeningVolumeAdjustment.isEmpty then []
            else [("listening_volume_adjustment", .numbers state.listeningVolumeAdjustment)]) ++
          [("user", .optional (mumbleUserRawGet s client session))]),
        adjustVolumes client state.listeningVolumeAdjustment s)

/-- `packet_channel_remove`. The hook is called with the channel, before it is removed. -/
def packetChannelRemove (client : Nat) (channelId : UInt32) (s : State) : Output × State :=
  (.hook [("channel", .optional (mumbleChannelRawGet s client channelId))], { s with
    clients := Function.update s.clients client
      { s.clients client with channels := (s.clients client).channels.remove channelId } })

/-- `mumble_client_cleanup`, which empties both tables and both lists. -/
def mumbleClientCleanup (client : Nat) (s : State) : State :=
  { s with
    clients := Function.update s.clients client
      { s.clients client with users := .empty, channels := .empty } }

/-- The permissions of a channel, which is made if there is none. -/
def setPermissions (client : Nat) (channelId permissions : UInt32) (s : State) : State :=
  let (n, s) := mumbleChannelGet s client channelId
  setChannel n (fun channel => { channel with permissions := permissions }) s

/-- `packet_server_sync`, as far as it is about channels. -/
def packetServerSync (client : Nat) (permissions : Option UInt64) (s : State) : Output × State :=
  (.hook (field "permissions" permissions fun permissions =>
      .integer permissions.toInt64.toInt),
    match permissions with
    | some permissions => setPermissions client 0 permissions.toUInt32 s
    | none => s)

/-- The permissions of all channels of the client are forgotten. -/
def flushPermissions (client : Nat) (s : State) : State :=
  { s with
    channels := fun n => (s.channels n).map fun channel =>
      if s.channelAt client channel.channelId = some n then { channel with permissions := 0 }
      else channel }

/-- `packet_permission_query` -/
def packetPermissionQuery (client : Nat) (channelId permissions : Option UInt32)
    (flush : Option Bool) (s : State) : Output × State :=
  let s := match channelId, permissions with
    | some channelId, some permissions => setPermissions client channelId permissions s
    | _, _ => if flush = some true then flushPermissions client s else s
  (.hook (field "channel" channelId (fun id => .optional (mumbleChannelRawGet s client id)) ++
      field "permissions" permissions (fun permissions => .integer permissions.toNat) ++
      field "flush" flush (fun flush => .integer flush.toNat)), s)

/-- The methods of a channel that tell something of it. -/
inductive ChannelGetter where
  | getName
  | getId
  | getParent
  | getChildren
  | getUsers
  | getDescription
  | getDescriptionHash
  | isTemporary
  | getPosition
  | getMaxUsers
  | getLinks
  | isEnterRestricted
  | canEnter
  | getPermissions
  | hasPermission (mask : UInt32)
  | getListeningVolumeAdjustment

/-- `channel_getChildren` -/
def channelGetChildren (s : State) (channel : MumbleChannel) : LuaValue :=
  .array ((s.clients channel.client).channels.list.nodes.filterMap fun node =>
    (s.channels node.data).bind fun chan =>
      if chan.channelId ≠ chan.parent ∧ chan.parent = channel.channelId then
        some (mumbleChannelRawGet s channel.client node.index)
      else none)

/-- `channel_getUsers` -/
def channelGetUsers (s : State) (channel : MumbleChannel) : LuaValue :=
  .array ((s.clients channel.client).users.list.nodes.filterMap fun node =>
    (s.users node.data).bind fun user =>
      if user.channelId = channel.channelId then
        some (mumbleUserRawGet s channel.client node.index)
      else none)

/-- `channel_getDescriptionHash` -/
def channelGetDescriptionHash (contents : Contents) (n : Nat) (channel : MumbleChannel)
    (behind : Nat → UInt8) : Output :=
  match binToStrhex channel.descriptionHash behind
      (channel.descriptionHashLen.getD (contents.descriptionHashLen n)) with
  | some result => .pushed (.string result)
  | none => .null

/-- A getter of the channel in the userdata `n`, called on `client->l`: those that give users and
channels push them there. -/
def channelGet (contents : Contents) (s : State) (n : Nat) (channel : MumbleChannel)
    (behind : Nat → UInt8) : ChannelGetter → Output
  | .getName => .pushed (.pushstring channel.name)
  | .getId => .pushed (.integer channel.channelId.toNat)
  | .getParent =>
      .pushed (if channel.channelId = channel.parent then .nil
        else .optional (mumbleChannelRawGet s channel.client channel.parent))
  | .getChildren => .pushed (channelGetChildren s channel)
  | .getUsers => .pushed (channelGetUsers s channel)
  | .getDescription => .pushed (.pushstring channel.description)
  | .getDescriptionHash => channelGetDescriptionHash contents n channel behind
  | .isTemporary => .pushed (.boolean channel.temporary)
  | .getPosition => .pushed (.integer channel.position.toInt)
  | .getMaxUsers => .pushed (.integer channel.maxUsers.toNat)
  | .getLinks =>
      .pushed (.table (channel.links.map fun id =>
        (id.toNat, mumbleChannelRawGet s channel.client id)))
  | .isEnterRestricted => .pushed (.boolean channel.isEnterRestricted)
  | .canEnter => .pushed (.boolean (channel.canEnter.getD (contents.canEnter n)))
  | .getPermissions => .pushed (.integer channel.permissions.toNat)
  | .hasPermission mask => .pushed (.boolean (channel.permissions &&& mask ≠ 0))
  | .getListeningVolumeAdjustment =>
      .pushed (.number (channel.listeningVolumeAdjustment.getD
        (contents.listeningVolumeAdjustment n)))

/-- `channel_gc`, and the end of the userdata, which no table has any more. -/
def channelGc (n : Nat) (s : State) : Output × State :=
  match s.channels n with
  | none => (.nothing, s)
  | some channel =>
      if s.channelAt channel.client channel.channelId = some n then (.nothing, s)
      else
        (.finalized ((channel.name.toList ++ channel.description.toList ++
            channel.descriptionHash.toList).map Effect.freeString),
          { s with channels := Function.update s.channels n none })

end Channels

section Workers

/-- `LUA_NOREF` -/
def noRef : Int := -2

/-- `LUA_REFNIL` -/
def refNil : Int := -1

def Registry.empty : Registry := ⟨fun _ => .nil, 0⟩

/-- `luaL_ref`: the first of the free references, or a new one. -/
def Registry.ref (registry : Registry) (value : Entry) : Int × Registry :=
  match registry.entries 0 with
  | .free next =>
      if next ≠ 0 then
        (next, { registry with
          entries := Function.update
            (Function.update registry.entries 0 (registry.entries next)) next value })
      else
        (registry.length + 1,
          ⟨Function.update registry.entries (registry.length + 1) value, registry.length + 1⟩)
  | _ =>
      (registry.length + 1,
        ⟨Function.update registry.entries (registry.length + 1) value, registry.length + 1⟩)

/-- `luaL_unref` -/
def Registry.unref (registry : Registry) (ref : Int) : Registry :=
  if 0 ≤ ref then
    { registry with
      entries := Function.update
        (Function.update registry.entries ref (registry.entries 0)) 0 (.free ref) }
  else registry

/-- The part of `mumble_thread_worker_start` that makes the worker. -/
def mumbleThreadWorkerStart (s : State) : State :=
  let (self, registry) := Registry.empty.ref .worker
  { s with
    created := s.created + 1
    workers := Function.update s.workers s.created
      (some { messageQueue := [], message := none, self := self, registry := registry }) }

/-- `thread_controller_send` -/
def MumbleThreadWorker.send (worker : MumbleThreadWorker) (data : List UInt8) :
    MumbleThreadWorker :=
  { worker with messageQueue := worker.messageQueue ++ [data] }

/-- A turn of the loop of `mumble_thread_worker_message`: the first one with the test before
it, or one that follows a call. -/
def mumbleThreadWorkerMessage (initial : Int) (worker : MumbleThreadWorker) :
    Output × MumbleThreadWorker :=
  let message := worker.message.getD initial
  match worker.messageQueue with
  | [] => (.nothing, worker)
  | data :: rest =>
      if refNil < message then
        (.called (worker.registry.entries message) (worker.registry.entries worker.self) data,
          { worker with messageQueue := rest })
      else (.nothing, worker)

/-- The argument of `onMessage`: a function, or the name of another type. -/
inductive CallbackArgument where
  | function (f : Nat)
  | other (typename : String)

/-- `thread_worker_onMessage` -/
def threadWorkerOnMessage (initial : Int) (argument : CallbackArgument)
    (worker : MumbleThreadWorker) : Output × MumbleThreadWorker :=
  let message := worker.message.getD initial
  let released := if refNil < message then some message else none
  let worker := if refNil < message then
    { worker with message := some noRef, registry := worker.registry.unref message } else worker
  match argument with
  | .function f =>
      let (ref, registry) := worker.registry.ref (.callback f)
      (.registered released none, { worker with message := some ref, registry := registry })
  | .other typename =>
      (.registered released (some ⟨some 2, "function expected, got " ++ typename⟩), worker)

/-- Something is done with the worker, if it is there. -/
def withWorker (n : Nat) (act : MumbleThreadWorker → Output × MumbleThreadWorker) (s : State) :
    Output × State :=
  match s.workers n with
  | none => (.nothing, s)
  | some worker =>
      let (output, worker) := act worker
      (output, { s with workers := Function.update s.workers n (some worker) })

end Workers

/-- What can happen: a call of a script, a message of a server, a turn of the loop of a worker,
or the collection of a userdata. What the rest of the memory holds comes with the event. -/
inductive Event where
  | bufferNew (argument : BufferArgument) (block : Option Nat)
  | createAudioBuffer (client : Nat) (samplerate channels : Int32)
      (block context srcState : Option Nat)
  | bufferGet (n : Nat) (getter : BufferGetter)
  | bufferGc (n : Nat)
  | channelState (client : Nat) (state : ChannelState) (behind : Nat → UInt8)
  | userState (client : Nat) (state : UserState)
  | channelRemove (client : Nat) (channelId : UInt32)
  | cleanup (client : Nat)
  | serverSync (client : Nat) (permissions : Option UInt64)
  | permissionQuery (client : Nat) (channelId permissions : Option UInt32) (flush : Option Bool)
  | channelGet (n : Nat) (getter : ChannelGetter) (behind : Nat → UInt8)
  | channelGc (n : Nat)
  | workerStart
  | workerSend (n : Nat) (data : List UInt8)
  | workerMessage (n : Nat)
  | workerOnMessage (n : Nat) (argument : CallbackArgument)
  | workerGc (n : Nat)

/-- Nothing has been made yet. -/
def start : State :=
  { created := 0
    clients := fun _ => ⟨.empty, .empty, []⟩
    buffers := fun _ => none
    contexts := fun _ => none
    channels := fun _ => none
    users := fun _ => none
    workers := fun _ => none }

def step (contents : Contents) (s : State) : Event → Output × State
  | .bufferNew argument block => mumbleBufferNew argument block s
  | .createAudioBuffer client samplerate channels block context srcState =>
      clientCreateAudioBuffer client samplerate channels block context srcState s
  | .bufferGet n getter => bufferGet n getter s
  | .bufferGc n => luabufferGc contents n s
  | .channelState client state behind => packetChannelState client state behind s
  | .userState client state => packetUserState client state s
  | .channelRemove client channelId => packetChannelRemove client channelId s
  | .cleanup client => (.nothing, mumbleClientCleanup client s)
  | .serverSync client permissions => packetServerSync client permissions s
  | .permissionQuery client channelId permissions flush =>
      packetPermissionQuery client channelId permissions flush s
  | .channelGet n getter behind =>
      match s.channels n with
      | none => (.nothing, s)
      | some channel => (channelGet contents s n channel behind getter, s)
  | .channelGc n => channelGc n s
  | .workerStart => (.nothing, mumbleThreadWorkerStart s)
  | .workerSend n data => withWorker n (fun worker => (.nothing, worker.send data)) s
  | .workerMessage n => withWorker n (mumbleThreadWorkerMessage (contents.message n)) s
  | .workerOnMessage n argument =>
      withWorker n (threadWorkerOnMessage (contents.message n) argument) s
  | .workerGc n => (.nothing, { s with workers := Function.update s.workers n none })

end LuaMumble.Userdata
