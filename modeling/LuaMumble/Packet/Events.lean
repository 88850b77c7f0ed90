import LuaMumble.Packet.Handlers

/-!
The table that a script gets for each message: its fields with what stands in them, as a tree that
leaves out how the tables are made. The handlers make these tables and leave nothing else on the
stack, for any packets in any order and whatever the scripts do to their tables in between. There
are two exceptions, a number of UserStats that does not fit into an integer, and an address without
bytes.
-/

namespace LuaMumble.Packet

open Lib Lib.TableBuilder Client.Address

section Trees

abbrev Event := LuaTree Object

def integer (n : Int) : Event := .leaf (.integer n)

def boolean (b : Bool) : Event := .leaf (.boolean b)

def unsigned (n : UInt32) : Event := integer n.toNat

def signed (n : Int32) : Event := integer n.toInt

def long (client : MumbleClient) (n : UInt64) : Event := integer (client.long n)

def count (n : UInt32) : Event := .leaf (.other (.count n))

def single (x : Float32) : Event := .leaf (.other (.single x))

def double (x : Float) : Event := .leaf (.other (.double x))

def string (bytes : Bytes) : Event := .leaf (.string bytes)

def chars (bytes : Bytes) : Event := string (cstring bytes)

/-- A string that may be missing; nil is what a missing field has. -/
def chars? : Option Bytes → Event
  | some bytes => chars bytes
  | none => .leaf .nil

/-- The digits of the bytes in base 16. -/
def hex (bytes : Bytes) : Event :=
  chars? (Userdata.binToStrhex (some bytes) (fun _ => 0) bytes.length)

def object (make : Nat → Object) : Option Nat → Event
  | some n => .leaf (.other (make n))
  | none => .leaf .nil

/-- A number without its fraction. -/
def whole (x : Float32) : Event :=
  match FloatConversion.truncate x with
  | some n => integer n
  | none => .leaf .nil

variable (client : MumbleClient)

/-- The object under a number that is a positive `int`. -/
def MumbleClient.user? (session : UInt32) : Option Nat :=
  if session.toNat < 2 ^ 31 then client.users session else none

def MumbleClient.channel? (channelId : UInt32) : Option Nat :=
  if channelId.toNat < 2 ^ 31 then client.channels channelId else none

def user (session : UInt32) : Event := object .user (client.user? session)

def channel (channelId : UInt32) : Event := object .channel (client.channel? channelId)

/-- The table of an address, as `Client.Address` describes it. -/
def addressTable (address : BinaryData) : Event :=
  record [
    (if (client.address address).ipv6 then "ipv6" else "ipv4", some (boolean true)),
    ("string", some (string (client.address address).string.toUTF8.data.toList)),
    ("data", some (array address.bytes fun b => integer b.toNat))]

end Trees

section Events

variable (client : MumbleClient)

def Version.event (version : Version) : Event :=
  record [
    ("version_v1", version.versionV1.map unsigned),
    ("version_v2", version.versionV2.map (long client)),
    ("release", some (chars? version.release)),
    ("os", some (chars? version.os)),
    ("os_version", some (chars? version.osVersion))]

def Ping.event (ping : Ping) : Event :=
  record [
    ("timestamp", ping.timestamp.map (long client)),
    ("ping", ping.timestamp.map fun timestamp => double (client.delay timestamp)),
    ("average", ping.timestamp.map fun _ => double client.udpPingAvg),
    ("deviation", ping.timestamp.map fun _ => double client.udpPingVar),
    ("good", ping.good.map count),
    ("late", ping.late.map count),
    ("lost", ping.lost.map count),
    ("resync", ping.resync.map count),
    ("udp_packets", ping.udpPackets.map count),
    ("tcp_packets", ping.tcpPackets.map count),
    ("udp_ping_avg", ping.udpPingAvg.map single),
    ("udp_ping_var", ping.udpPingVar.map single),
    ("tcp_ping_avg", ping.tcpPingAvg.map single),
    ("tcp_ping_var", ping.tcpPingVar.map single)]

def Reject.event (reject : Reject) : Event :=
  record [("type", reject.type.map signed), ("reason", some (chars? reject.reason))]

def BanEntry.event (ban : BanEntry) : Event :=
  record [
    ("address", some (addressTable client ban.address)),
    ("mask", some (unsigned ban.mask)),
    ("name", ban.name.map chars),
    ("hash", ban.hash.map chars),
    ("reason", ban.reason.map chars),
    ("start", ban.start.map chars),
    ("duration", ban.duration.map unsigned)]

def BanList.event (list : BanList) : Event := array list.bans (BanEntry.event client)

/-- A message that names no channel is called direct. -/
def TextMessage.event (msg : TextMessage) : Event :=
  record [
    ("actor", msg.actor.map (user client)),
    ("message", msg.message.map chars),
    ("users", if msg.session ≠ [] then some (array msg.session (user client)) else none),
    ("channels",
      if msg.channelId ≠ [] then some (array msg.channelId (channel client)) else none),
    ("direct", if msg.channelId ≠ [] then none else some (boolean true))]

def PermissionDenied.event (proto : PermissionDenied) : Event :=
  record [
    ("type", proto.type.map signed),
    ("permission", proto.permission.map unsigned),
    ("channel", proto.channelId.map (channel client)),
    ("user", proto.session.map (user client)),
    ("reason", proto.reason.map chars),
    ("name", proto.name.map chars)]

def ChanGroup.event (changroup : ChanGroup) : Event :=
  record [
    ("name", changroup.name.map chars),
    ("inherited", changroup.inherited.map boolean),
    ("inheritable", changroup.inheritable.map boolean),
    ("add", if changroup.add ≠ [] then some (array changroup.add unsigned) else none),
    ("remove", if changroup.remove ≠ [] then some (array changroup.remove unsigned) else none),
    ("inherited_members", if changroup.inheritedMembers ≠ [] then
      some (array changroup.inheritedMembers unsigned) else none)]

/-- All that is told of the user of an entry is if it is user 0. -/
def ChanACL.event (chanacl : ChanACL) : Event :=
  record [
    ("apply_here", chanacl.applyHere.map boolean),
    ("apply_subs", chanacl.applySubs.map boolean),
    ("inherited", chanacl.inherited.map boolean),
    ("user_id", chanacl.userId.map fun userId => boolean (userId ≠ 0)),
    ("group", chanacl.group.map chars),
    ("grant", chanacl.grant.map unsigned),
    ("deny", chanacl.deny.map unsigned)]

def ACL.event (acl : ACL) : Event :=
  record [
    ("channel", some (channel client acl.channelId)),
    ("groups", if acl.groups ≠ [] then some (array acl.groups ChanGroup.event) else none),
    ("acls", if acl.acls ≠ [] then some (array acl.acls ChanACL.event) else none),
    ("inherit_acls", acl.inheritAcls.map boolean),
    ("query", acl.query.map boolean)]

/-- A name under each id, the last one if an id is repeated, and nothing if the two arrays are not
of one length. -/
def QueryUsers.event (users : QueryUsers) : Event :=
  table (if users.ids ≠ [] ∧ users.ids.length = users.names.length then
    (users.ids.zip users.names).map fun entry => (.index entry.1.toNat, chars entry.2)
  else [])

def CryptSetup.event (crypt : CryptSetup) : Event :=
  record [
    ("valid", some (boolean (client.cryptIsValid crypt))),
    ("key", crypt.key.map hex),
    ("client_nonce", crypt.clientNonce.map hex),
    ("server_nonce", crypt.serverNonce.map hex)]

def SentPing.event (ping : SentPing) : Event :=
  record [
    ("timestamp", some (long client ping.timestamp)),
    ("tcp_packets", some (unsigned ping.tcpPackets)),
    ("tcp_ping_avg", some (single ping.tcpPingAvg)),
    ("tcp_ping_var", some (single ping.tcpPingVar)),
    ("good", some (unsigned ping.good)),
    ("late", some (unsigned ping.late)),
    ("lost", some (unsigned ping.lost)),
    ("resync", some (unsigned ping.resync)),
    ("udp_packets", some (unsigned ping.udpPackets)),
    ("udp_ping_avg", some (single ping.udpPingAvg)),
    ("udp_ping_var", some (single ping.udpPingVar))]

def ContextActionModify.event (modify : ContextActionModify) : Event :=
  record [
    ("action", modify.action.map chars),
    ("text", modify.text.map chars),
    ("context", modify.context.map unsigned),
    ("operation", modify.operation.map signed)]

def ListedUser.event (user : ListedUser) : Event :=
  record [
    ("user_id", some (unsigned user.userId)),
    ("name", user.name.map chars),
    ("last_seen", user.lastSeen.map chars),
    ("last_channel", user.lastChannel.map (channel client))]

def UserList.event (list : UserList) : Event := array list.users (ListedUser.event client)

def PermissionQuery.event (query : PermissionQuery) : Event :=
  record [
    ("channel", query.channelId.map (channel client)),
    ("permissions", query.permissions.map unsigned),
    ("flush", query.flush.map fun flush => integer flush.toNat)]

def CodecVersion.event (codec : CodecVersion) : Event :=
  record [
    ("alpha", some (signed codec.alpha)),
    ("beta", some (signed codec.beta)),
    ("prefer_alpha", some (boolean codec.preferAlpha)),
    ("opus", codec.opus.map boolean)]

def Stats.event (stats : Stats) : Event :=
  record [
    ("good", stats.good.map unsigned),
    ("late", stats.late.map unsigned),
    ("lost", stats.lost.map unsigned),
    ("resync", stats.resync.map unsigned)]

/-- The same with 0 for what is missing. -/
def Stats.fullEvent (stats : Stats) : Event :=
  record [
    ("good", some (unsigned (stats.good.getD 0))),
    ("late", some (unsigned (stats.late.getD 0))),
    ("lost", some (unsigned (stats.lost.getD 0))),
    ("resync", some (unsigned (stats.resync.getD 0)))]

def RollingStats.event (rolling : RollingStats) : Event :=
  record [
    ("time_window", rolling.timeWindow.map unsigned),
    ("from_client", rolling.fromClient.map Stats.fullEvent),
    ("from_server", rolling.fromServer.map Stats.fullEvent)]

def UserStats.event (stats : UserStats) : Event :=
  record [
    ("user", stats.session.map (user client)),
    ("stats_only", stats.statsOnly.map boolean),
    ("certificates", some (array stats.certificates string)),
    ("from_client", stats.fromClient.map Stats.event),
    ("from_server", stats.fromServer.map Stats.event),
    ("udp_packets", stats.udpPackets.map unsigned),
    ("tcp_packets", stats.tcpPackets.map unsigned),
    ("udp_ping_avg", stats.udpPingAvg.map whole),
    ("udp_ping_var", stats.udpPingVar.map whole),
    ("tcp_ping_avg", stats.tcpPingAvg.map whole),
    ("tcp_ping_var", stats.tcpPingVar.map whole),
    ("version", stats.version.map (Version.event client)),
    ("celt_versions", some (array stats.celtVersions signed)),
    ("address", stats.address.map (addressTable client)),
    ("bandwidth", stats.bandwidth.map unsigned),
    ("onlinesecs", stats.onlinesecs.map unsigned),
    ("idlesecs", stats.idlesecs.map unsigned),
    ("strong_certificate", stats.strongCertificate.map boolean),
    ("opus", stats.opus.map boolean),
    ("rolling_stats", stats.rollingStats.map RollingStats.event)]

def ServerConfig.event (config : ServerConfig) : Event :=
  record [
    ("max_bandwidth", config.maxBandwidth.map unsigned),
    ("welcome_text", some (chars? config.welcomeText)),
    ("allow_html", config.allowHtml.map boolean),
    ("message_length", config.messageLength.map unsigned),
    ("image_message_length", config.imageMessageLength.map unsigned),
    ("max_users", config.maxUsers.map unsigned),
    ("recording_allowed", config.recordingAllowed.map fun allowed => integer allowed.toNat)]

def SuggestConfig.event (config : SuggestConfig) : Event :=
  record [
    ("version_v1", config.versionV1.map unsigned),
    ("version_v2", config.versionV2.map (long client)),
    ("positional", config.positional.map boolean),
    ("push_to_talk", config.pushToTalk.map boolean)]

def PluginDataTransmission.event (transmission : PluginDataTransmission) : Event :=
  record [
    ("sender", transmission.sendersession.map (user client)),
    ("receivers", if transmission.receiversessions ≠ [] then
      some (array transmission.receiversessions (user client)) else none),
    ("data", transmission.data.map string),
    ("id", transmission.dataid.map chars)]

def Message.event : Message → Event
  | .version message => message.event client
  | .ping message => message.event client
  | .reject message => message.event
  | .banList message => message.event client
  | .textMessage message => message.event client
  | .permissionDenied message => message.event client
  | .acl message => message.event client
  | .queryUsers message => message.event
  | .cryptSetup message => message.event client
  | .contextActionModify message => message.event
  | .userList message => message.event client
  | .permissionQuery message => message.event client
  | .codecVersion message => message.event
  | .userStats message => message.event client
  | .serverConfig message => message.event
  | .suggestConfig message => message.event client
  | .pluginData message => message.event client

/-- A call of a hook by the event that it tells. -/
structure Told where
  hook : String
  event : Event

/-- The pings that are told of while a CryptSetup is handled. -/
def CryptSetup.pings (crypt : CryptSetup) : List Told :=
  if client.cryptIsValid crypt then
    ⟨"OnPingTCP", (client.pingTcp crypt).event client⟩ ::
      (client.pingUdp crypt).toList.map fun timestamp =>
        ⟨"OnPingUDP", record [("timestamp", some (long client timestamp))]⟩
  else []

/-- All that is told of a message. -/
def Message.told (message : Message) : List Told :=
  (match message with
    | .cryptSetup crypt => crypt.pings client
    | _ => []) ++ [⟨(packetHandler client message).hook, message.event client⟩]

/-- The addresses have bytes. -/
def BanList.Fits (list : BanList) : Prop := ∀ ban ∈ list.bans, ban.address.bytes ≠ []

/-- The numbers of UserStats that are pushed as integers are in the range of one, and the address
has bytes. -/
structure UserStats.Fits (stats : UserStats) : Prop where
  numbers : ∀ x, x ∈ stats.udpPingAvg ∨ x ∈ stats.udpPingVar ∨ x ∈ stats.tcpPingAvg ∨
    x ∈ stats.tcpPingVar → (FloatConversion.truncate x).isSome = true
  address : ∀ address ∈ stats.address, address.bytes ≠ []

def Message.Fits : Message → Prop
  | .banList message => message.Fits
  | .userStats message => message.Fits
  | _ => True

end Events

section Pushes

theorem pushes_boolean (b : Bool) : Pushes (pushBoolean b) (boolean b) := pushes_push _

theorem pushes_unsigned (n : UInt32) : Pushes (pushUnsigned n) (unsigned n) := pushes_push _

theorem pushes_signed (n : Int32) : Pushes (pushSigned n) (signed n) := pushes_push _

theorem pushes_count (n : UInt32) : Pushes (pushCount n) (count n) := pushes_push _

theorem pushes_single (x : Float32) : Pushes (pushSingle x) (single x) := pushes_push _

theorem pushes_double (x : Float) : Pushes (pushDouble x) (double x) := pushes_push _

theorem pushes_chars (bytes : Bytes) : Pushes (pushCString bytes) (chars bytes) := pushes_push _

theorem pushes_string (bytes : Bytes) : Pushes (pushBytes bytes) (string bytes) := pushes_push _

theorem pushes_chars? (s : Option Bytes) : Pushes (pushString s) (chars? s) := by
  cases s with
  | none => exact pushes_push _
  | some bytes => exact pushes_push _

theorem pushes_hex (bytes : Bytes) : Pushes (pushHex bytes) (hex bytes) := pushes_chars? _

theorem pushes_whole {x : Float32} (h : (FloatConversion.truncate x).isSome = true) :
    Pushes (pushTruncated x) (whole x) := by
  obtain ⟨n, hn⟩ := Option.isSome_iff_exists.mp h
  unfold pushTruncated whole
  rw [hn]
  exact pushes_push _

variable (client : MumbleClient)

theorem pushes_long (n : UInt64) : Pushes (pushLong client n) (long client n) := pushes_push _

theorem pushes_user (session : UInt32) :
    Pushes (mumbleUserRawGet client session) (user client session) := by
  unfold mumbleUserRawGet user MumbleClient.user?
  cases (if session.toNat < 2 ^ 31 then client.users session else none) with
  | none => exact pushes_push _
  | some n => exact pushes_push _

theorem pushes_channel (channelId : UInt32) :
    Pushes (mumbleChannelRawGet client channelId) (channel client channelId) := by
  unfold mumbleChannelRawGet channel MumbleClient.channel?
  cases (if channelId.toNat < 2 ^ 31 then client.channels channelId else none) with
  | none => exact pushes_push _
  | some n => exact pushes_push _

theorem pushes_address {address : BinaryData} (h : address.bytes ≠ []) :
    Pushes (pushAddress client address) (addressTable client address) := by
  unfold pushAddress
  rw [if_neg h]
  refine Fills.newTable ?_
  refine ((pushes_boolean true).field _).row ?_
  refine ((pushes_string _).field "string").row ?_
  exact (pushes_arrayTable (fun b => pushes_push _) address.bytes).field "data"

/-- Where there are no bytes, it stops. -/
theorem pushAddress_stops {address : BinaryData} (h : address.bytes = []) (s : Lua Object) :
    pushAddress client address s = none := by
  unfold pushAddress
  rw [if_pos h]
  rfl

theorem pushes_version (version : Version) :
    Pushes (pushStatsVersion client version) (version.event client) := by
  refine Fills.newTable ?_
  refine (fills_optionalField pushes_unsigned _).row ?_
  refine (fills_optionalField (pushes_long client) _).row ?_
  refine ((pushes_chars? _).field _).row ?_
  refine ((pushes_chars? _).field _).row ?_
  exact (pushes_chars? _).field _

theorem pushes_stats (stats : Stats) :
    Pushes (pushStats stats) (stats.event) := by
  refine Fills.newTable ?_
  refine (fills_optionalField pushes_unsigned _).row ?_
  refine (fills_optionalField pushes_unsigned _).row ?_
  refine (fills_optionalField pushes_unsigned _).row ?_
  exact fills_optionalField pushes_unsigned _

theorem pushes_allStats (stats : Stats) :
    Pushes (pushAllStats stats) (stats.fullEvent) := by
  refine Fills.newTable ?_
  refine ((pushes_unsigned _).field _).row ?_
  refine ((pushes_unsigned _).field _).row ?_
  refine ((pushes_unsigned _).field _).row ?_
  exact (pushes_unsigned _).field _

theorem pushes_rolling (rolling : RollingStats) :
    Pushes (pushRollingStats rolling) (rolling.event) := by
  refine Fills.newTable ?_
  refine (fills_optionalField pushes_unsigned _).row ?_
  refine (fills_optionalField pushes_allStats _).row ?_
  exact fills_optionalField pushes_allStats _

theorem pushes_chanGroup (changroup : ChanGroup) :
    Pushes (pushChanGroup changroup) (changroup.event) := by
  refine Fills.newTable ?_
  refine (fills_optionalField pushes_chars _).row ?_
  refine (fills_optionalField pushes_boolean _).row ?_
  refine (fills_optionalField pushes_boolean _).row ?_
  refine (fills_fieldIf (pushes_arrayTable pushes_unsigned _) _).row ?_
  refine (fills_fieldIf (pushes_arrayTable pushes_unsigned _) _).row ?_
  exact fills_fieldIf (pushes_arrayTable pushes_unsigned _) _

theorem pushes_chanACL (chanacl : ChanACL) :
    Pushes (pushChanACL chanacl) (chanacl.event) := by
  refine Fills.newTable ?_
  refine (fills_optionalField pushes_boolean _).row ?_
  refine (fills_optionalField pushes_boolean _).row ?_
  refine (fills_optionalField pushes_boolean _).row ?_
  refine (fills_optionalField (fun _ => pushes_push _) _).row ?_
  refine (fills_optionalField pushes_chars _).row ?_
  refine (fills_optionalField pushes_unsigned _).row ?_
  exact fills_optionalField pushes_unsigned _

theorem pushes_banEntry {ban : BanEntry} (h : ban.address.bytes ≠ []) :
    Pushes (pushBanEntry client ban) (ban.event client) := by
  refine Fills.newTable ?_
  refine ((pushes_address client h).field _).row ?_
  refine ((pushes_unsigned _).field _).row ?_
  refine (fills_optionalField pushes_chars _).row ?_
  refine (fills_optionalField pushes_chars _).row ?_
  refine (fills_optionalField pushes_chars _).row ?_
  refine (fills_optionalField pushes_chars _).row ?_
  exact fills_optionalField pushes_unsigned _

theorem pushes_listedUser (user : ListedUser) :
    Pushes (pushListedUser client user) (user.event client) := by
  refine Fills.newTable ?_
  refine ((pushes_unsigned _).field _).row ?_
  refine (fills_optionalField pushes_chars _).row ?_
  refine (fills_optionalField pushes_chars _).row ?_
  exact fills_optionalField (pushes_channel client) _

theorem packetServerVersion_pushes (version : Version) :
    Pushes ((packetServerVersion client version).code) (version.event client) := by
  refine Fills.newTable ?_
  refine (fills_optionalField pushes_unsigned _).row ?_
  refine (fills_optionalField (pushes_long client) _).row ?_
  refine ((pushes_chars? _).field _).row ?_
  refine ((pushes_chars? _).field _).row ?_
  exact (pushes_chars? _).field _

theorem packetServerPing_pushes (ping : Ping) :
    Pushes ((packetServerPing client ping).code) (ping.event client) := by
  refine Fills.newTable ?_
  refine (fills_optionalField (pushes_long client) _).row ?_
  refine (fills_optionalField (fun _ => pushes_double _) _).row ?_
  refine (fills_optionalField (fun _ => pushes_double _) _).row ?_
  refine (fills_optionalField (fun _ => pushes_double _) _).row ?_
  refine (fills_optionalField pushes_count _).row ?_
  refine (fills_optionalField pushes_count _).row ?_
  refine (fills_optionalField pushes_count _).row ?_
  refine (fills_optionalField pushes_count _).row ?_
  refine (fills_optionalField pushes_count _).row ?_
  refine (fills_optionalField pushes_count _).row ?_
  refine (fills_optionalField pushes_single _).row ?_
  refine (fills_optionalField pushes_single _).row ?_
  refine (fills_optionalField pushes_single _).row ?_
  exact fills_optionalField pushes_single _

theorem packetServerReject_pushes (reject : Reject) :
    Pushes ((packetServerReject reject).code) (reject.event) := by
  refine Fills.newTable ?_
  refine (fills_optionalField pushes_signed _).row ?_
  exact (pushes_chars? _).field _

theorem packetTextMessage_pushes (msg : TextMessage) :
    Pushes ((packetTextMessage client msg).code) (msg.event client) := by
  refine Fills.newTable ?_
  refine (fills_optionalField (pushes_user client) _).row ?_
  refine (fills_optionalField pushes_chars _).row ?_
  refine (fills_fieldIf (pushes_arrayTable (pushes_user client) _) _).row ?_
  exact fills_fieldElse (pushes_arrayTable (pushes_channel client) _) (pushes_boolean true) _ _

theorem packetPermissionDenied_pushes (proto : PermissionDenied) :
    Pushes ((packetPermissionDenied client proto).code) (proto.event client) := by
  refine Fills.newTable ?_
  refine (fills_optionalField pushes_signed _).row ?_
  refine (fills_optionalField pushes_unsigned _).row ?_
  refine (fills_optionalField (pushes_channel client) _).row ?_
  refine (fills_optionalField (pushes_user client) _).row ?_
  refine (fills_optionalField pushes_chars _).row ?_
  exact fills_optionalField pushes_chars _

theorem packetAcl_pushes (acl : ACL) :
    Pushes ((packetAcl client acl).code) (acl.event client) := by
  refine Fills.newTable ?_
  refine ((pushes_channel client _).field _).row ?_
  refine (fills_fieldIf (pushes_arrayTable pushes_chanGroup _) _).row ?_
  refine (fills_fieldIf (pushes_arrayTable pushes_chanACL _) _).row ?_
  refine (fills_optionalField pushes_boolean _).row ?_
  exact fills_optionalField pushes_boolean _

theorem packetBanList_pushes {list : BanList} (h : list.Fits) :
    Pushes (packetBanList client list).code (list.event client) :=
  pushes_arrayTable_of_mem fun ban hban => pushes_banEntry client (h ban hban)

/-- The list stops at the first address without bytes. -/
theorem packetBanList_stops {list : BanList} (h : ¬ list.Fits) (s : Lua Object) :
    (packetBanList client list).code s = none := by
  have hstops {ban : BanEntry} (hban : ban.address.bytes = []) (s : Lua Object) :
      pushBanEntry client ban s = none :=
    Stops.newTable ((stops_field (pushAddress_stops client hban) _).seq _) s
  refine arrayTable_stops (t := BanEntry.event client) ?_ ?_ s
  · intro ban _
    by_cases hban : ban.address.bytes = []
    · exact .inr (hstops hban)
    · exact .inl (pushes_banEntry client hban)
  · unfold BanList.Fits at h
    push Not at h
    obtain ⟨ban, hmem, hban⟩ := h
    exact ⟨ban, hmem, hstops hban⟩

theorem mumblePingTcp_pushes (ping : SentPing) :
    Pushes (mumblePingTcp client ping).code (ping.event client) := by
  refine Fills.newTable ?_
  refine ((pushes_long client _).field _).row ?_
  refine ((pushes_unsigned _).field _).row ?_
  refine ((pushes_single _).field _).row ?_
  refine ((pushes_single _).field _).row ?_
  refine ((pushes_unsigned _).field _).row ?_
  refine ((pushes_unsigned _).field _).row ?_
  refine ((pushes_unsigned _).field _).row ?_
  refine ((pushes_unsigned _).field _).row ?_
  refine ((pushes_unsigned _).field _).row ?_
  refine ((pushes_single _).field _).row ?_
  exact (pushes_single _).field _

theorem packetCryptSetup_fills (crypt : CryptSetup) :
    Fills (packetCryptSetup client crypt).code (fields [
      ("valid", some (boolean (client.cryptIsValid crypt))),
      ("key", crypt.key.map hex),
      ("client_nonce", crypt.clientNonce.map hex),
      ("server_nonce", crypt.serverNonce.map hex)]) := by
  refine ((pushes_boolean _).field _).row ?_
  refine (fills_optionalField pushes_hex _).row ?_
  refine (fills_optionalField pushes_hex _).row ?_
  exact fills_optionalField pushes_hex _

theorem packetContextActionModify_pushes (modify : ContextActionModify) :
    Pushes ((packetContextActionModify modify).code) (modify.event) := by
  refine Fills.newTable ?_
  refine (fills_optionalField pushes_chars _).row ?_
  refine (fills_optionalField pushes_chars _).row ?_
  refine (fills_optionalField pushes_unsigned _).row ?_
  exact fills_optionalField pushes_signed _

theorem packetPermissionQuery_pushes (query : PermissionQuery) :
    Pushes ((packetPermissionQuery client query).code) (query.event client) := by
  refine Fills.newTable ?_
  refine (fills_optionalField (pushes_channel client) _).row ?_
  refine (fills_optionalField pushes_unsigned _).row ?_
  exact fills_optionalField (fun _ => pushes_push _) _

theorem packetCodecVersion_pushes (codec : CodecVersion) :
    Pushes ((packetCodecVersion codec).code) (codec.event) := by
  refine Fills.newTable ?_
  refine ((pushes_signed _).field _).row ?_
  refine ((pushes_signed _).field _).row ?_
  refine ((pushes_boolean _).field _).row ?_
  exact fills_optionalField pushes_boolean _

theorem packetServerConfig_pushes (config : ServerConfig) :
    Pushes ((packetServerConfig config).code) (config.event) := by
  refine Fills.newTable ?_
  refine (fills_optionalField pushes_unsigned _).row ?_
  refine ((pushes_chars? _).field _).row ?_
  refine (fills_optionalField pushes_boolean _).row ?_
  refine (fills_optionalField pushes_unsigned _).row ?_
  refine (fills_optionalField pushes_unsigned _).row ?_
  refine (fills_optionalField pushes_unsigned _).row ?_
  exact fills_optionalField (fun _ => pushes_push _) _

theorem packetSuggestConfig_pushes (config : SuggestConfig) :
    Pushes ((packetSuggestConfig client config).code) (config.event client) := by
  refine Fills.newTable ?_
  refine (fills_optionalField pushes_unsigned _).row ?_
  refine (fills_optionalField (pushes_long client) _).row ?_
  refine (fills_optionalField pushes_boolean _).row ?_
  exact fills_optionalField pushes_boolean _

theorem packetPluginData_pushes (transmission : PluginDataTransmission) :
    Pushes ((packetPluginData client transmission).code) (transmission.event client) := by
  refine Fills.newTable ?_
  refine (fills_optionalField (pushes_user client) _).row ?_
  refine (fills_fieldIf (pushes_arrayTable (pushes_user client) _) _).row ?_
  refine (fills_optionalField pushes_string _).row ?_
  exact fills_optionalField pushes_chars _

theorem packetUserStats_pushes {stats : UserStats} (h : stats.Fits) :
    Pushes ((packetUserStats client stats).code) (stats.event client) := by
  refine Fills.newTable ?_
  refine (fills_optionalField (pushes_user client) _).row ?_
  refine (fills_optionalField pushes_boolean _).row ?_
  refine ((pushes_arrayTable pushes_string _).field _).row ?_
  refine (fills_optionalField pushes_stats _).row ?_
  refine (fills_optionalField pushes_stats _).row ?_
  refine (fills_optionalField pushes_unsigned _).row ?_
  refine (fills_optionalField pushes_unsigned _).row ?_
  refine Fills.row (fills_optionalField_of_mem (fun a ha =>
    pushes_whole (h.numbers a (Or.inl ha))) _) ?_
  refine Fills.row (fills_optionalField_of_mem (fun a ha =>
    pushes_whole (h.numbers a (Or.inr (Or.inl ha)))) _) ?_
  refine Fills.row (fills_optionalField_of_mem (fun a ha =>
    pushes_whole (h.numbers a (Or.inr (Or.inr (Or.inl ha))))) _) ?_
  refine Fills.row (fills_optionalField_of_mem (fun a ha =>
    pushes_whole (h.numbers a (Or.inr (Or.inr (Or.inr ha))))) _) ?_
  refine (fills_optionalField (pushes_version client) _).row ?_
  refine ((pushes_arrayTable pushes_signed _).field _).row ?_
  refine Fills.row (fills_optionalField_of_mem (fun a ha =>
    pushes_address client (h.address a ha)) _) ?_
  refine (fills_optionalField pushes_unsigned _).row ?_
  refine (fills_optionalField pushes_unsigned _).row ?_
  refine (fills_optionalField pushes_unsigned _).row ?_
  refine (fills_optionalField pushes_boolean _).row ?_
  refine (fills_optionalField pushes_boolean _).row ?_
  exact fills_optionalField pushes_rolling _

theorem packetQueryUsers_pushes (users : QueryUsers) :
    Pushes (packetQueryUsers users).code users.event := by
  refine Fills.newTable (Fills.ite ?_ fills_skip)
  have hentries : (users.ids.zip users.names).map
        (fun entry => (FieldKey.index entry.1.toNat, chars entry.2)) =
      ((users.ids.zip users.names).zipIdx 0).flatMap
        fun x => [(FieldKey.index x.1.1.toNat, chars x.1.2)] := by
    rw [← List.map_eq_flatMap, ← Function.comp_def (fun entry : UInt32 × Bytes =>
      (FieldKey.index entry.1.toNat, chars entry.2)) Prod.fst, ← List.map_map, List.zipIdx_map_fst]
  rw [hentries]
  exact fills_forEach (fun _ (entry : UInt32 × Bytes) =>
    (pushes_chars entry.2).entry entry.1.toNat) 0 _

/-- Where a number does not fit, or the address has no bytes, the handler stops at the first such
field. -/
theorem packetUserStats_stops {stats : UserStats} (h : ¬ stats.Fits) (s : Lua Object) :
    (packetUserStats client stats).code s = none := by
  have hstops {x : Float32} (hx : ¬ (FloatConversion.truncate x).isSome = true)
      (s : Lua Object) : pushTruncated x s = none := by
    have hnone : FloatConversion.truncate x = none := by simpa using hx
    unfold pushTruncated
    rw [hnone]
    rfl
  have hcases (x : Option Float32) (name : String) :
      (∀ a ∈ x, (FloatConversion.truncate a).isSome = true) ∨
        Stops (optionalField name x pushTruncated) := by
    by_cases hx : ∀ a ∈ x, (FloatConversion.truncate a).isSome = true
    · exact .inl hx
    · push Not at hx
      obtain ⟨a, ha, hnone⟩ := hx
      exact .inr (stops_optionalField ha (hstops (by simpa using hnone)) name)
  refine Stops.newTable ?_ s
  refine (fills_optionalField (pushes_user client) _).stops ?_
  refine (fills_optionalField pushes_boolean _).stops ?_
  refine ((pushes_arrayTable pushes_string _).field _).stops ?_
  refine (fills_optionalField pushes_stats _).stops ?_
  refine (fills_optionalField pushes_stats _).stops ?_
  refine (fills_optionalField pushes_unsigned _).stops ?_
  refine (fills_optionalField pushes_unsigned _).stops ?_
  rcases hcases stats.udpPingAvg "udp_ping_avg" with h₁ | h₁
  swap
  · exact h₁.seq _
  refine (fills_optionalField_of_mem (fun a ha => pushes_whole (h₁ a ha)) _).stops ?_
  rcases hcases stats.udpPingVar "udp_ping_var" with h₂ | h₂
  swap
  · exact h₂.seq _
  refine (fills_optionalField_of_mem (fun a ha => pushes_whole (h₂ a ha)) _).stops ?_
  rcases hcases stats.tcpPingAvg "tcp_ping_avg" with h₃ | h₃
  swap
  · exact h₃.seq _
  refine (fills_optionalField_of_mem (fun a ha => pushes_whole (h₃ a ha)) _).stops ?_
  rcases hcases stats.tcpPingVar "tcp_ping_var" with h₄ | h₄
  swap
  · exact h₄.seq _
  have hnumbers : ∀ x, x ∈ stats.udpPingAvg ∨ x ∈ stats.udpPingVar ∨ x ∈ stats.tcpPingAvg ∨
      x ∈ stats.tcpPingVar → (FloatConversion.truncate x).isSome = true := by
    rintro x (hx | hx | hx | hx)
    · exact h₁ x hx
    · exact h₂ x hx
    · exact h₃ x hx
    · exact h₄ x hx
  refine (fills_optionalField_of_mem (fun a ha => pushes_whole (h₄ a ha)) _).stops ?_
  refine (fills_optionalField (pushes_version client) _).stops ?_
  refine ((pushes_arrayTable pushes_signed _).field _).stops ?_
  have haddress : ¬ ∀ address ∈ stats.address, address.bytes ≠ [] :=
    fun haddress => h ⟨hnumbers, haddress⟩
  push Not at haddress
  obtain ⟨address, hmem, hempty⟩ := haddress
  exact (stops_optionalField hmem (pushAddress_stops client hempty) _).seq _

/-- The handlers that call one hook. -/
theorem packetHandler_alone {message : Message} (h : message.Fits)
    (hcrypt : ∀ crypt, message ≠ .cryptSetup crypt) :
    ∃ call : HookCall, packetHandler client message = call.alone ∧
      Pushes call.code (message.event client) ∧
      message.told client = [⟨call.hook, message.event client⟩] := by
  cases message with
  | version message => exact ⟨_, rfl, packetServerVersion_pushes client message, rfl⟩
  | ping message => exact ⟨_, rfl, packetServerPing_pushes client message, rfl⟩
  | reject message => exact ⟨_, rfl, packetServerReject_pushes message, rfl⟩
  | banList message => exact ⟨_, rfl, packetBanList_pushes client h, rfl⟩
  | textMessage message => exact ⟨_, rfl, packetTextMessage_pushes client message, rfl⟩
  | permissionDenied message => exact ⟨_, rfl, packetPermissionDenied_pushes client message, rfl⟩
  | acl message => exact ⟨_, rfl, packetAcl_pushes client message, rfl⟩
  | queryUsers message => exact ⟨_, rfl, packetQueryUsers_pushes message, rfl⟩
  | cryptSetup message => exact absurd rfl (hcrypt message)
  | contextActionModify message => exact ⟨_, rfl, packetContextActionModify_pushes message, rfl⟩
  | userList message =>
      exact ⟨_, rfl, pushes_arrayTable (pushes_listedUser client) message.users, rfl⟩
  | permissionQuery message => exact ⟨_, rfl, packetPermissionQuery_pushes client message, rfl⟩
  | codecVersion message => exact ⟨_, rfl, packetCodecVersion_pushes message, rfl⟩
  | userStats message => exact ⟨_, rfl, packetUserStats_pushes client h, rfl⟩
  | serverConfig message => exact ⟨_, rfl, packetServerConfig_pushes message, rfl⟩
  | suggestConfig message => exact ⟨_, rfl, packetSuggestConfig_pushes client message, rfl⟩
  | pluginData message => exact ⟨_, rfl, packetPluginData_pushes client message, rfl⟩

theorem packetHandler_stops {message : Message} (h : ¬ message.Fits) :
    ∃ call : HookCall, packetHandler client message = call.alone ∧ ∀ s, call.code s = none := by
  cases message with
  | banList message => exact ⟨_, rfl, packetBanList_stops client h⟩
  | userStats message => exact ⟨_, rfl, packetUserStats_stops client h⟩
  | _ => exact absurd trivial h

end Pushes

section Runs

/-- What the callbacks see of a call that tells an event: a call of this hook, with a new table that
is the event down to its leaves, while the tables from before are as they were. -/
structure Tells (told : Told) (seen : Seen) : Prop where
  hook : seen.hook = told.hook
  event : Represents seen.tables seen.next told.event seen.first seen.argument
  others : ∀ id < seen.first, seen.tables id = seen.before id

/-- The packets that could be unpacked. -/
def unpacked (packets : List (MumbleClient × Option Message)) : List (MumbleClient × Message) :=
  packets.filterMap fun packet => packet.2.map fun message => (packet.1, message)

variable (scripts : Scripts)

/-- A hook call with a new value on the stack, and what it leaves. -/
theorem mumbleHookCall_tells (hook : String) (making : Option Nat) {t : Event} {first : Nat}
    {before : Nat → FieldKey → Value Object} {s : Lua Object} {v : Value Object}
    {rest : List (Value Object)} (hstack : s.stack = v :: rest)
    (hv : Represents s.tables s.next t first v) (hsame : ∀ id < first, s.tables id = before id) :
    ∃ seen s', mumbleHookCall scripts hook making first before s = some (seen, s') ∧
      s'.stack = rest ∧ s.next ≤ s'.next ∧ (∀ id ∈ making, s'.tables id = s.tables id) ∧
      Tells ⟨hook, t⟩ seen := by
  obtain ⟨after, hafter⟩ : ∃ after : Lua Object, after =
      { stack := rest
        tables := fun id => if making = some id then s.tables id else (scripts hook s).tables id
        next := max s.next (scripts hook s).next } := ⟨_, rfl⟩
  refine ⟨⟨hook, v, first, before, s.next, s.tables⟩, after, ?_, ?_, ?_, ?_, rfl, hv, hsame⟩
  · rw [hafter]
    simp only [mumbleHookCall, hstack]
  · rw [hafter]
  · rw [hafter]
    exact Nat.le_max_left _ _
  · intro id hid
    rw [hafter]
    exact if_pos hid

/-- The ping hooks leave the stack and the table that is being made. By induction on the calls. -/
theorem callPings_tells {making : Nat} {calls : List HookCall} {pings : List Told}
    (h : List.Forall₂ (fun call told => call.hook = told.hook ∧ Pushes call.code told.event)
      calls pings) {s : Lua Object} (hmaking : making < s.next) :
    ∃ seen s', callPings scripts making calls s = some (seen, s') ∧ s'.stack = s.stack ∧
      s.next ≤ s'.next ∧ s'.tables making = s.tables making ∧ List.Forall₂ Tells pings seen := by
  induction h generalizing s with
  | nil => exact ⟨[], s, rfl, rfl, Nat.le_refl _, rfl, .nil⟩
  | @cons call told calls pings hcall _ ih =>
      obtain ⟨hhook, hpushes⟩ := hcall
      obtain ⟨v, s₁, hrun, hstack, hnext, hsame, hv⟩ := hpushes s
      obtain ⟨seen, s₂, hseen, hstack₂, hnext₂, hmade, htells⟩ :=
        mumbleHookCall_tells scripts call.hook (some making) hstack hv hsame
      obtain ⟨more, s₃, hmore, hstack₃, hnext₃, hmade₃, hall⟩ := ih (s := s₂) (by omega)
      refine ⟨seen :: more, s₃, ?_, hstack₃.trans hstack₂, by omega, ?_, .cons ?_ hall⟩
      · simp only [callPings, hrun, Option.bind_some, hseen, hmore, Option.map_some]
      · rw [hmade₃, hmade making rfl, hsame making hmaking]
      · have htold : (⟨call.hook, told.event⟩ : Told) = told := by rw [hhook]
        rwa [htold] at htells

theorem receive_alone {client : MumbleClient} {message : Message} {call : HookCall}
    (hhandler : packetHandler client message = call.alone) {t : Event}
    (hpushes : Pushes call.code t) (s : Lua Object) :
    ∃ seen s', receive scripts client (some message) s = some ([seen], s') ∧
      s'.stack = s.stack ∧ Tells ⟨call.hook, t⟩ seen := by
  obtain ⟨v, s₁, hrun, hstack, -, hsame, hv⟩ := hpushes s
  obtain ⟨seen, s₂, hseen, hstack₂, -, -, htells⟩ :=
    mumbleHookCall_tells scripts call.hook none hstack hv hsame
  refine ⟨seen, s₂, ?_, hstack₂, htells⟩
  have hstart : call.alone.start s = some ((), s) := rfl
  have hpings : callPings scripts s.next call.alone.pings s = some ([], s) := rfl
  have hcode : call.alone.code s = some ((), s₁) := hrun
  simp only [receive, hhandler, hstart, Option.bind_some, hpings, hcode]
  change (mumbleHookCall scripts call.hook none s.next s.tables s₁).map _ = _
  rw [hseen]
  rfl

theorem pings_pushes (client : MumbleClient) (crypt : CryptSetup) :
    List.Forall₂ (fun call told => call.hook = told.hook ∧ Pushes call.code told.event)
      (packetCryptSetup client crypt).pings (crypt.pings client) := by
  have hudp (timestamp : UInt64) : Pushes (mumblePingUdp client timestamp).code
      (record [("timestamp", some (long client timestamp))]) :=
    Fills.newTable ((pushes_long client timestamp).field "timestamp")
  unfold packetCryptSetup CryptSetup.pings mumblePing
  dsimp only
  split
  · refine .cons ⟨rfl, mumblePingTcp_pushes client _⟩ ?_
    cases client.pingUdp crypt with
    | none => exact .nil
    | some timestamp => exact .cons ⟨rfl, hudp timestamp⟩ .nil
  · exact .nil

theorem receive_cryptSetup (client : MumbleClient) (crypt : CryptSetup) (s : Lua Object) :
    ∃ seen s', receive scripts client (some (.cryptSetup crypt)) s = some (seen, s') ∧
      s'.stack = s.stack ∧ List.Forall₂ Tells ((Message.cryptSetup crypt).told client) seen := by
  obtain ⟨s₁, hs₁⟩ : ∃ s₁ : Lua Object, s₁ =
      { stack := .table s.next :: s.stack
        tables := Function.update s.tables s.next fun _ => .scalar .nil
        next := s.next + 1 } := ⟨_, rfl⟩
  have hstart : newTable s = some ((), s₁) := by
    rw [hs₁]
    rfl
  have hmaking : s.next < s₁.next := by
    rw [hs₁]
    exact Nat.lt_succ_self _
  obtain ⟨pings, s₂, hpings, hstack₂, hnext₂, hmade, htells⟩ :=
    callPings_tells scripts (pings_pushes client crypt) hmaking
  have htable : s₂.stack = .table s.next :: s.stack := by rw [hstack₂, hs₁]
  have hlt : s.next < s₂.next := by
    rw [hs₁] at hnext₂
    exact hnext₂
  have hempty : Holds s₂.tables s₂.next s.next (lookup []) := by
    intro k
    rw [hmade, hs₁]
    dsimp only
    rw [Function.update_self]
    rfl
  obtain ⟨s₃, hcode, hstack₃, hnext₃, hsame₃, hholds⟩ :=
    packetCryptSetup_fills client crypt s₂ s.next s.stack [] htable hlt hempty
  have hevent : Represents s₃.tables s₃.next (crypt.event client) s.next (.table s.next) :=
    ⟨s.next, rfl, Nat.le_refl _, by omega, hholds⟩
  have hsame : ∀ id < s.next, s₃.tables id = s₂.tables id :=
    fun id hid => hsame₃ id (by omega) (Nat.ne_of_lt hid)
  obtain ⟨seen, s₄, hseen, hstack₄, -, -, hlast⟩ :=
    mumbleHookCall_tells scripts "OnCryptSetup" none (hstack₃.trans htable) hevent hsame
  refine ⟨pings ++ [seen], s₄, ?_, hstack₄, ?_⟩
  · change (newTable s).bind (fun p =>
      (callPings scripts s.next (packetCryptSetup client crypt).pings p.2).bind fun q =>
        ((packetCryptSetup client crypt).code q.2).bind fun r =>
          (mumbleHookCall scripts "OnCryptSetup" none s.next q.2.tables r.2).map fun last =>
            (q.1 ++ [last.1], last.2)) = _
    simp only [hstart, Option.bind_some, hpings, hcode, hseen, Option.map_some]
  · exact List.rel_append htells (.cons hlast .nil)

theorem receive_tells (client : MumbleClient) {message : Message} (h : message.Fits)
    (s : Lua Object) : ∃ seen s', receive scripts client (some message) s = some (seen, s') ∧
      s'.stack = s.stack ∧ List.Forall₂ Tells (message.told client) seen := by
  by_cases hcrypt : ∀ crypt, message ≠ .cryptSetup crypt
  · obtain ⟨call, hhandler, hpushes, htold⟩ := packetHandler_alone client h hcrypt
    obtain ⟨seen, s', hrun, hstack, htells⟩ := receive_alone scripts hhandler hpushes s
    rw [htold]
    exact ⟨[seen], s', hrun, hstack, .cons htells .nil⟩
  · push Not at hcrypt
    obtain ⟨crypt, rfl⟩ := hcrypt
    exact receive_cryptSetup scripts client crypt s

theorem receive_eq_none {client : MumbleClient} {message : Message} (h : ¬ message.Fits)
    (s : Lua Object) : receive scripts client (some message) s = none := by
  obtain ⟨call, hhandler, hnone⟩ := packetHandler_stops client h
  have hstart : call.alone.start s = some ((), s) := rfl
  have hpings : callPings scripts s.next call.alone.pings s = some ([], s) := rfl
  have hcode : call.alone.code s = none := hnone s
  simp only [receive, hhandler, hstart, Option.bind_some, hpings, hcode, Option.bind_none]

end Runs

end LuaMumble.Packet
