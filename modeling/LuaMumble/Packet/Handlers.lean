import LuaMumble.Client.Address
import LuaMumble.Lib.FloatConversion
import LuaMumble.Lib.Precision
import LuaMumble.Lib.TableBuilder
import LuaMumble.Packet.Messages
import LuaMumble.Userdata.State

/-!
The functions of `packet_handler` for these messages, from the unpacked message to the call of
`mumble_hook_call`: each makes a table of the message on the stack of Lua and passes it to one hook.
That of a CryptSetup calls the hooks of `mumble_ping` while its table is on the stack. Where a push
and `lua_setfield` follow each other, or a test of `has_` or of a pointer and these two, they are
one `field` or `optionalField`; under another test they are one `fieldIf`.
-/

namespace LuaMumble.Packet

open Lib Lib.TableBuilder Client.Address

/-- Userdata, and what `lua_pushnumber` pushes: a `uint32_t`, a `float` or a `double`. -/
inductive Object where
  | user (n : Nat)
  | channel (n : Nat)
  | count (n : UInt32)
  | single (x : Float32)
  | double (x : Float)
  deriving DecidableEq

/-- The ping that `mumble_ping_tcp` sends. -/
structure SentPing where
  timestamp : UInt64
  tcpPackets : UInt32
  tcpPingAvg : Float32
  tcpPingVar : Float32
  good : UInt32
  late : UInt32
  lost : UInt32
  resync : UInt32
  udpPackets : UInt32
  udpPingAvg : Float32
  udpPingVar : Float32

/-- What the handlers read besides the message: if the Lua has integers, as that of version 5.3, or
keeps them as a `double`, as the others do; the objects of the tables `client->users` and
`client->channels`; the statistics of the pings by UDP, and the clock; `inet_ntop`; and, when a
CryptSetup has been obeyed, what `crypt_isValid` gives, the ping that is sent by TCP, and the
timestamp of the one by UDP if the encryption is still valid behind the hook of the first. -/
structure MumbleClient where
  integers : Bool
  users : UInt32 → Option Nat
  channels : UInt32 → Option Nat
  udpPingAvg : Float
  udpPingVar : Float
  now : UInt64
  inetNtop : InetNtop
  cryptIsValid : CryptSetup → Bool
  pingTcp : CryptSetup → SentPing
  pingUdp : CryptSetup → Option UInt64

abbrev Code := LuaM Object Unit

/-- What a function does up to `mumble_hook_call(client, hook, 1)`. -/
structure HookCall where
  hook : String
  code : Code

/-- What a handler does: it begins, has its ping hooks called, if any, and goes on to the call of
its own hook. -/
structure Handler extends HookCall where
  start : Code
  pings : List HookCall

section Push

def pushBoolean (b : Bool) : Code := push (.boolean b)

/-- `lua_pushinteger` of a `uint32_t` -/
def pushUnsigned (n : UInt32) : Code := push (.integer n.toNat)

/-- `lua_pushinteger` of an `int32_t` or of an enumeration -/
def pushSigned (n : Int32) : Code := push (.integer n.toInt)

/-- What a script finds of a `uint64_t`, which becomes a `lua_Integer` first. -/
def MumbleClient.long (client : MumbleClient) (n : UInt64) : Int :=
  if client.integers then n.toInt64.toInt else Precision.roundInt 53 n.toInt64.toInt

/-- `lua_pushinteger` of a `uint64_t` -/
def pushLong (client : MumbleClient) (n : UInt64) : Code := push (.integer (client.long n))

/-- `lua_pushnumber` of a `uint32_t` -/
def pushCount (n : UInt32) : Code := push (.other (.count n))

/-- `lua_pushnumber` of a `float` -/
def pushSingle (x : Float32) : Code := push (.other (.single x))

/-- `lua_pushnumber` of a `double` -/
def pushDouble (x : Float) : Code := push (.other (.double x))

/-- The bytes of a string in C. -/
def cstring (bytes : Bytes) : Bytes := bytes.takeWhile (· ≠ 0)

def pushCString (bytes : Bytes) : Code := push (.string (cstring bytes))

/-- `lua_pushstring`, which pushes nil for NULL -/
def pushString (s : Option Bytes) : Code :=
  match s with
  | some bytes => pushCString bytes
  | none => push .nil

/-- `lua_pushlstring` -/
def pushBytes (bytes : Bytes) : Code := push (.string bytes)

/-- `lua_pushinteger` of a `float`, which has no result outside the range of a `lua_Integer`. A
`double` has room for all the digits. -/
def pushTruncated (x : Float32) : Code :=
  match FloatConversion.truncate x with
  | some n => push (.integer n)
  | none => failure

/-- `bin_to_strhex` of bytes of a message, and `lua_pushstring` -/
def pushHex (bytes : Bytes) : Code :=
  pushString (Userdata.binToStrhex (some bytes) (fun _ => 0) bytes.length)

variable (client : MumbleClient)

/-- `mumble_user_raw_get`, where the session becomes an `int` -/
def mumbleUserRawGet (session : UInt32) : Code :=
  push (match if session.toNat < 2 ^ 31 then client.users session else none with
    | some n => .other (.user n)
    | none => .nil)

/-- `mumble_channel_raw_get` -/
def mumbleChannelRawGet (channelId : UInt32) : Code :=
  push (match if channelId.toNat < 2 ^ 31 then client.channels channelId else none with
    | some n => .other (.channel n)
    | none => .nil)

/-- What `mumble_push_address` makes of the bytes, and of those behind them. -/
def MumbleClient.address (address : BinaryData) : AddressTable :=
  (mumblePushAddress client.inetNtop address.bytes.length).value fun i =>
    address.bytes.getD i (address.behind (i - address.bytes.length))

/-- `mumble_push_address`, which reads through the pointer also where it is NULL -/
def pushAddress (address : BinaryData) : Code :=
  if address.bytes = [] then failure
  else do
    newTable
    field (if (client.address address).ipv6 then "ipv6" else "ipv4") (pushBoolean true)
    field "string" (pushBytes (client.address address).string.toUTF8.data.toList)
    field "data" (arrayTable address.bytes fun b => push (.integer b.toNat))

end Push

section Handlers

variable (client : MumbleClient)

def packetServerVersion (version : Version) : HookCall where
  hook := "OnServerVersion"
  code := do
    newTable
    optionalField "version_v1" version.versionV1 pushUnsigned
    optionalField "version_v2" version.versionV2 (pushLong client)
    field "release" (pushString version.release)
    field "os" (pushString version.os)
    field "os_version" (pushString version.osVersion)

/-- What `mumble_update_ping_tcp` returns, in milliseconds. -/
def MumbleClient.delay (timestamp : UInt64) : Float := (client.now - timestamp).toFloat / 1000000

/-- The average and the deviation are those of the replies by UDP. -/
def packetServerPing (ping : Ping) : HookCall where
  hook := "OnPongTCP"
  code := do
    newTable
    optionalField "timestamp" ping.timestamp (pushLong client)
    optionalField "ping" ping.timestamp fun timestamp => pushDouble (client.delay timestamp)
    optionalField "average" ping.timestamp fun _ => pushDouble client.udpPingAvg
    optionalField "deviation" ping.timestamp fun _ => pushDouble client.udpPingVar
    optionalField "good" ping.good pushCount
    optionalField "late" ping.late pushCount
    optionalField "lost" ping.lost pushCount
    optionalField "resync" ping.resync pushCount
    optionalField "udp_packets" ping.udpPackets pushCount
    optionalField "tcp_packets" ping.tcpPackets pushCount
    optionalField "udp_ping_avg" ping.udpPingAvg pushSingle
    optionalField "udp_ping_var" ping.udpPingVar pushSingle
    optionalField "tcp_ping_avg" ping.tcpPingAvg pushSingle
    optionalField "tcp_ping_var" ping.tcpPingVar pushSingle

def packetServerReject (reject : Reject) : HookCall where
  hook := "OnServerReject"
  code := do
    newTable
    optionalField "type" reject.type pushSigned
    field "reason" (pushString reject.reason)

def pushBanEntry (ban : BanEntry) : Code := do
  newTable
  field "address" (pushAddress client ban.address)
  field "mask" (pushUnsigned ban.mask)
  optionalField "name" ban.name pushCString
  optionalField "hash" ban.hash pushCString
  optionalField "reason" ban.reason pushCString
  optionalField "start" ban.start pushCString
  optionalField "duration" ban.duration pushUnsigned

def packetBanList (list : BanList) : HookCall where
  hook := "OnBanList"
  code := arrayTable list.bans (pushBanEntry client)

def packetTextMessage (msg : TextMessage) : HookCall where
  hook := "OnMessage"
  code := do
    newTable
    optionalField "actor" msg.actor (mumbleUserRawGet client)
    optionalField "message" msg.message pushCString
    fieldIf (msg.session ≠ []) "users" (arrayTable msg.session (mumbleUserRawGet client))
    if msg.channelId ≠ [] then
      field "channels" (arrayTable msg.channelId (mumbleChannelRawGet client))
    else
      field "direct" (pushBoolean true)

def packetPermissionDenied (proto : PermissionDenied) : HookCall where
  hook := "OnPermissionDenied"
  code := do
    newTable
    optionalField "type" proto.type pushSigned
    optionalField "permission" proto.permission pushUnsigned
    optionalField "channel" proto.channelId (mumbleChannelRawGet client)
    optionalField "user" proto.session (mumbleUserRawGet client)
    optionalField "reason" proto.reason pushCString
    optionalField "name" proto.name pushCString

def pushChanGroup (changroup : ChanGroup) : Code := do
  newTable
  optionalField "name" changroup.name pushCString
  optionalField "inherited" changroup.inherited pushBoolean
  optionalField "inheritable" changroup.inheritable pushBoolean
  fieldIf (changroup.add ≠ []) "add" (arrayTable changroup.add pushUnsigned)
  fieldIf (changroup.remove ≠ []) "remove" (arrayTable changroup.remove pushUnsigned)
  fieldIf (changroup.inheritedMembers ≠ []) "inherited_members"
    (arrayTable changroup.inheritedMembers pushUnsigned)

/-- The id of the user is pushed by `lua_pushboolean`. -/
def pushChanACL (chanacl : ChanACL) : Code := do
  newTable
  optionalField "apply_here" chanacl.applyHere pushBoolean
  optionalField "apply_subs" chanacl.applySubs pushBoolean
  optionalField "inherited" chanacl.inherited pushBoolean
  optionalField "user_id" chanacl.userId fun userId => pushBoolean (userId ≠ 0)
  optionalField "group" chanacl.group pushCString
  optionalField "grant" chanacl.grant pushUnsigned
  optionalField "deny" chanacl.deny pushUnsigned

def packetAcl (acl : ACL) : HookCall where
  hook := "OnACL"
  code := do
    newTable
    field "channel" (mumbleChannelRawGet client acl.channelId)
    fieldIf (acl.groups ≠ []) "groups" (arrayTable acl.groups pushChanGroup)
    fieldIf (acl.acls ≠ []) "acls" (arrayTable acl.acls pushChanACL)
    optionalField "inherit_acls" acl.inheritAcls pushBoolean
    optionalField "query" acl.query pushBoolean

def packetQueryUsers (users : QueryUsers) : HookCall where
  hook := "OnQueryUsers"
  code := do
    newTable
    if users.ids ≠ [] ∧ users.ids.length = users.names.length then
      forEach (fun _ (entry : UInt32 × Bytes) => do
        pushUnsigned entry.1
        pushCString entry.2
        setTable) 0 (users.ids.zip users.names)

def mumblePingTcp (ping : SentPing) : HookCall where
  hook := "OnPingTCP"
  code := do
    newTable
    field "timestamp" (pushLong client ping.timestamp)
    field "tcp_packets" (pushUnsigned ping.tcpPackets)
    field "tcp_ping_avg" (pushSingle ping.tcpPingAvg)
    field "tcp_ping_var" (pushSingle ping.tcpPingVar)
    field "good" (pushUnsigned ping.good)
    field "late" (pushUnsigned ping.late)
    field "lost" (pushUnsigned ping.lost)
    field "resync" (pushUnsigned ping.resync)
    field "udp_packets" (pushUnsigned ping.udpPackets)
    field "udp_ping_avg" (pushSingle ping.udpPingAvg)
    field "udp_ping_var" (pushSingle ping.udpPingVar)

def mumblePingUdp (timestamp : UInt64) : HookCall where
  hook := "OnPingUDP"
  code := do
    newTable
    field "timestamp" (pushLong client timestamp)

/-- `mumble_ping` -/
def mumblePing (crypt : CryptSetup) : List HookCall :=
  mumblePingTcp client (client.pingTcp crypt) ::
    (client.pingUdp crypt).toList.map (mumblePingUdp client)

/-- The table of the message is on the stack while the ping hooks are called. -/
def packetCryptSetup (crypt : CryptSetup) : Handler where
  hook := "OnCryptSetup"
  start := newTable
  pings := if client.cryptIsValid crypt then mumblePing client crypt else []
  code := do
    field "valid" (pushBoolean (client.cryptIsValid crypt))
    optionalField "key" crypt.key pushHex
    optionalField "client_nonce" crypt.clientNonce pushHex
    optionalField "server_nonce" crypt.serverNonce pushHex

def packetContextActionModify (modify : ContextActionModify) : HookCall where
  hook := "OnContextActionModify"
  code := do
    newTable
    optionalField "action" modify.action pushCString
    optionalField "text" modify.text pushCString
    optionalField "context" modify.context pushUnsigned
    optionalField "operation" modify.operation pushSigned

def pushListedUser (user : ListedUser) : Code := do
  newTable
  field "user_id" (pushUnsigned user.userId)
  optionalField "name" user.name pushCString
  optionalField "last_seen" user.lastSeen pushCString
  optionalField "last_channel" user.lastChannel (mumbleChannelRawGet client)

def packetUserList (list : UserList) : HookCall where
  hook := "OnUserList"
  code := arrayTable list.users (pushListedUser client)

/-- The flag is pushed as a number. -/
def packetPermissionQuery (query : PermissionQuery) : HookCall where
  hook := "OnPermissionQuery"
  code := do
    newTable
    optionalField "channel" query.channelId (mumbleChannelRawGet client)
    optionalField "permissions" query.permissions pushUnsigned
    optionalField "flush" query.flush fun flush => push (.integer flush.toNat)

def packetCodecVersion (codec : CodecVersion) : HookCall where
  hook := "OnCodecVersion"
  code := do
    newTable
    field "alpha" (pushSigned codec.alpha)
    field "beta" (pushSigned codec.beta)
    field "prefer_alpha" (pushBoolean codec.preferAlpha)
    optionalField "opus" codec.opus pushBoolean

def pushStats (stats : Stats) : Code := do
  newTable
  optionalField "good" stats.good pushUnsigned
  optionalField "late" stats.late pushUnsigned
  optionalField "lost" stats.lost pushUnsigned
  optionalField "resync" stats.resync pushUnsigned

/-- The counts of rolling statistics are pushed also where the message has none; they are 0
then. -/
def pushAllStats (stats : Stats) : Code := do
  newTable
  field "good" (pushUnsigned (stats.good.getD 0))
  field "late" (pushUnsigned (stats.late.getD 0))
  field "lost" (pushUnsigned (stats.lost.getD 0))
  field "resync" (pushUnsigned (stats.resync.getD 0))

def pushStatsVersion (version : Version) : Code := do
  newTable
  optionalField "version_v1" version.versionV1 pushUnsigned
  optionalField "version_v2" version.versionV2 (pushLong client)
  field "release" (pushString version.release)
  field "os" (pushString version.os)
  field "os_version" (pushString version.osVersion)

def pushRollingStats (rolling : RollingStats) : Code := do
  newTable
  optionalField "time_window" rolling.timeWindow pushUnsigned
  optionalField "from_client" rolling.fromClient pushAllStats
  optionalField "from_server" rolling.fromServer pushAllStats

def packetUserStats (stats : UserStats) : HookCall where
  hook := "OnUserStats"
  code := do
    newTable
    optionalField "user" stats.session (mumbleUserRawGet client)
    optionalField "stats_only" stats.statsOnly pushBoolean
    field "certificates" (arrayTable stats.certificates pushBytes)
    optionalField "from_client" stats.fromClient pushStats
    optionalField "from_server" stats.fromServer pushStats
    optionalField "udp_packets" stats.udpPackets pushUnsigned
    optionalField "tcp_packets" stats.tcpPackets pushUnsigned
    optionalField "udp_ping_avg" stats.udpPingAvg pushTruncated
    optionalField "udp_ping_var" stats.udpPingVar pushTruncated
    optionalField "tcp_ping_avg" stats.tcpPingAvg pushTruncated
    optionalField "tcp_ping_var" stats.tcpPingVar pushTruncated
    optionalField "version" stats.version (pushStatsVersion client)
    field "celt_versions" (arrayTable stats.celtVersions pushSigned)
    optionalField "address" stats.address (pushAddress client)
    optionalField "bandwidth" stats.bandwidth pushUnsigned
    optionalField "onlinesecs" stats.onlinesecs pushUnsigned
    optionalField "idlesecs" stats.idlesecs pushUnsigned
    optionalField "strong_certificate" stats.strongCertificate pushBoolean
    optionalField "opus" stats.opus pushBoolean
    optionalField "rolling_stats" stats.rollingStats pushRollingStats

/-- `recording_allowed` is pushed as a number. -/
def packetServerConfig (config : ServerConfig) : HookCall where
  hook := "OnServerConfig"
  code := do
    newTable
    optionalField "max_bandwidth" config.maxBandwidth pushUnsigned
    field "welcome_text" (pushString config.welcomeText)
    optionalField "allow_html" config.allowHtml pushBoolean
    optionalField "message_length" config.messageLength pushUnsigned
    optionalField "image_message_length" config.imageMessageLength pushUnsigned
    optionalField "max_users" config.maxUsers pushUnsigned
    optionalField "recording_allowed" config.recordingAllowed fun allowed =>
      push (.integer allowed.toNat)

def packetSuggestConfig (config : SuggestConfig) : HookCall where
  hook := "OnSuggestConfig"
  code := do
    newTable
    optionalField "version_v1" config.versionV1 pushUnsigned
    optionalField "version_v2" config.versionV2 (pushLong client)
    optionalField "positional" config.positional pushBoolean
    optionalField "push_to_talk" config.pushToTalk pushBoolean

def packetPluginData (transmission : PluginDataTransmission) : HookCall where
  hook := "OnPluginData"
  code := do
    newTable
    optionalField "sender" transmission.sendersession (mumbleUserRawGet client)
    fieldIf (transmission.receiversessions ≠ []) "receivers"
      (arrayTable transmission.receiversessions (mumbleUserRawGet client))
    optionalField "data" transmission.data pushBytes
    optionalField "id" transmission.dataid pushCString

/-- A handler that calls one hook. -/
def HookCall.alone (call : HookCall) : Handler := { call with start := pure (), pings := [] }

/-- `packet_handler` -/
def packetHandler : Message → Handler
  | .version message => (packetServerVersion client message).alone
  | .ping message => (packetServerPing client message).alone
  | .reject message => (packetServerReject message).alone
  | .banList message => (packetBanList client message).alone
  | .textMessage message => (packetTextMessage client message).alone
  | .permissionDenied message => (packetPermissionDenied client message).alone
  | .acl message => (packetAcl client message).alone
  | .queryUsers message => (packetQueryUsers message).alone
  | .cryptSetup message => packetCryptSetup client message
  | .contextActionModify message => (packetContextActionModify message).alone
  | .userList message => (packetUserList client message).alone
  | .permissionQuery message => (packetPermissionQuery client message).alone
  | .codecVersion message => (packetCodecVersion message).alone
  | .userStats message => (packetUserStats client message).alone
  | .serverConfig message => (packetServerConfig message).alone
  | .suggestConfig message => (packetSuggestConfig client message).alone
  | .pluginData message => (packetPluginData client message).alone

end Handlers

/-- A call of a hook as the callbacks see it: the argument, the tables there are then, and those
there were when the function began or the last hook before was done, with the numbers below `first`.
-/
structure Seen where
  hook : String
  argument : Value Object
  first : Nat
  before : Nat → FieldKey → Value Object
  next : Nat
  tables : Nat → FieldKey → Value Object

/-- What the callbacks of a hook leave of the heap. -/
abbrev Scripts := String → Lua Object → Lua Object

/-- `mumble_hook_call(client, hook, 1)` takes its argument off the stack. The callbacks may change
every table they get at and make new ones; a table that a handler is still making is out of their
reach. -/
def mumbleHookCall (scripts : Scripts) (hook : String) (making : Option Nat) (first : Nat)
    (before : Nat → FieldKey → Value Object) (s : Lua Object) : Option (Seen × Lua Object) :=
  match s.stack with
  | argument :: rest =>
      some (⟨hook, argument, first, before, s.next, s.tables⟩,
        { stack := rest
          tables := fun id => if making = some id then s.tables id else (scripts hook s).tables id
          next := max s.next (scripts hook s).next })
  | [] => none

/-- The ping hooks, while the table with the number `making` is on the stack. -/
def callPings (scripts : Scripts) (making : Nat) :
    List HookCall → Lua Object → Option (List Seen × Lua Object)
  | [], s => some ([], s)
  | call :: rest, s =>
      (call.code s).bind fun (_, s₁) =>
        (mumbleHookCall scripts call.hook (some making) s.next s.tables s₁).bind fun (seen, s₂) =>
          (callPings scripts making rest s₂).map fun (more, s₃) => (seen :: more, s₃)

/-- A packet, which has no message if it could not be unpacked. -/
def receive (scripts : Scripts) (client : MumbleClient) (packet : Option Message)
    (s : Lua Object) : Option (List Seen × Lua Object) :=
  match packet with
  | none => some ([], s)
  | some message =>
      let handler := packetHandler client message
      (handler.start s).bind fun (_, s₁) =>
        (callPings scripts s.next handler.pings s₁).bind fun (pings, s₂) =>
          (handler.code s₂).bind fun (_, s₃) =>
            (mumbleHookCall scripts handler.hook none s.next s₂.tables s₃).map fun (seen, s₄) =>
              (pings ++ [seen], s₄)

/-- The packets of a connection, each with the client as it is then. -/
def receiveAll (scripts : Scripts) :
    List (MumbleClient × Option Message) → Lua Object → Option (List Seen × Lua Object)
  | [], s => some ([], s)
  | (client, packet) :: rest, s =>
      (receive scripts client packet s).bind fun (seen, s') =>
        (receiveAll scripts rest s').map fun (more, s'') => (seen ++ more, s'')

end LuaMumble.Packet
