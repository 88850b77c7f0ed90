import Mathlib.Data.List.Basic

/-!
The messages of a server that do nothing to a client but call a hook, or whose other effects are
modelled where they belong, as the unpacking functions of `protobuf-c` return them. An optional
member is `none` where its `has_` flag is false or its pointer is NULL. A string has all the bytes
of the message, and a string in C ends at the first NUL in them. The bytes of an address are read
through a pointer, which is NULL where there are none.
-/

namespace LuaMumble.Packet

abbrev Bytes := List UInt8

/-- A `ProtobufCBinaryData` with what lies in memory behind its bytes. -/
structure BinaryData where
  bytes : Bytes
  behind : Nat → UInt8

/-- `MumbleProto__Version` -/
structure Version where
  versionV1 : Option UInt32
  versionV2 : Option UInt64
  release : Option Bytes
  os : Option Bytes
  osVersion : Option Bytes

/-- `MumbleProto__Ping` -/
structure Ping where
  timestamp : Option UInt64
  good : Option UInt32
  late : Option UInt32
  lost : Option UInt32
  resync : Option UInt32
  udpPackets : Option UInt32
  tcpPackets : Option UInt32
  udpPingAvg : Option Float32
  udpPingVar : Option Float32
  tcpPingAvg : Option Float32
  tcpPingVar : Option Float32

/-- `MumbleProto__Reject` -/
structure Reject where
  type : Option Int32
  reason : Option Bytes

/-- `MumbleProto__BanList__BanEntry` -/
structure BanEntry where
  address : BinaryData
  mask : UInt32
  name : Option Bytes
  hash : Option Bytes
  reason : Option Bytes
  start : Option Bytes
  duration : Option UInt32

/-- `MumbleProto__BanList` -/
structure BanList where
  bans : List BanEntry

/-- `MumbleProto__TextMessage` -/
structure TextMessage where
  actor : Option UInt32
  session : List UInt32
  channelId : List UInt32
  treeId : List UInt32
  message : Option Bytes

/-- `MumbleProto__PermissionDenied` -/
structure PermissionDenied where
  permission : Option UInt32
  channelId : Option UInt32
  session : Option UInt32
  reason : Option Bytes
  type : Option Int32
  name : Option Bytes

/-- `MumbleProto__ACL__ChanGroup`. Its member `inherit` is not read. -/
structure ChanGroup where
  name : Option Bytes
  inherited : Option Bool
  inheritable : Option Bool
  add : List UInt32
  remove : List UInt32
  inheritedMembers : List UInt32

/-- `MumbleProto__ACL__ChanACL` -/
structure ChanACL where
  applyHere : Option Bool
  applySubs : Option Bool
  inherited : Option Bool
  userId : Option UInt32
  group : Option Bytes
  grant : Option UInt32
  deny : Option UInt32

/-- `MumbleProto__ACL` -/
structure ACL where
  channelId : UInt32
  inheritAcls : Option Bool
  groups : List ChanGroup
  acls : List ChanACL
  query : Option Bool

/-- `MumbleProto__QueryUsers` -/
structure QueryUsers where
  ids : List UInt32
  names : List Bytes

/-- `MumbleProto__CryptSetup` -/
structure CryptSetup where
  key : Option Bytes
  clientNonce : Option Bytes
  serverNonce : Option Bytes

/-- `MumbleProto__ContextActionModify` -/
structure ContextActionModify where
  action : Option Bytes
  text : Option Bytes
  context : Option UInt32
  operation : Option Int32

/-- `MumbleProto__UserList__User` -/
structure ListedUser where
  userId : UInt32
  name : Option Bytes
  lastSeen : Option Bytes
  lastChannel : Option UInt32

/-- `MumbleProto__UserList` -/
structure UserList where
  users : List ListedUser

/-- `MumbleProto__PermissionQuery` -/
structure PermissionQuery where
  channelId : Option UInt32
  permissions : Option UInt32
  flush : Option Bool

/-- `MumbleProto__CodecVersion` -/
structure CodecVersion where
  alpha : Int32
  beta : Int32
  preferAlpha : Bool
  opus : Option Bool

/-- `MumbleProto__UserStats__Stats` -/
structure Stats where
  good : Option UInt32
  late : Option UInt32
  lost : Option UInt32
  resync : Option UInt32

/-- `MumbleProto__UserStats__RollingStats` -/
structure RollingStats where
  timeWindow : Option UInt32
  fromClient : Option Stats
  fromServer : Option Stats

/-- `MumbleProto__UserStats` -/
structure UserStats where
  session : Option UInt32
  statsOnly : Option Bool
  certificates : List Bytes
  fromClient : Option Stats
  fromServer : Option Stats
  udpPackets : Option UInt32
  tcpPackets : Option UInt32
  udpPingAvg : Option Float32
  udpPingVar : Option Float32
  tcpPingAvg : Option Float32
  tcpPingVar : Option Float32
  version : Option Version
  celtVersions : List Int32
  address : Option BinaryData
  bandwidth : Option UInt32
  onlinesecs : Option UInt32
  idlesecs : Option UInt32
  strongCertificate : Option Bool
  opus : Option Bool
  rollingStats : Option RollingStats

/-- `MumbleProto__ServerConfig` -/
structure ServerConfig where
  maxBandwidth : Option UInt32
  welcomeText : Option Bytes
  allowHtml : Option Bool
  messageLength : Option UInt32
  imageMessageLength : Option UInt32
  maxUsers : Option UInt32
  recordingAllowed : Option Bool

/-- `MumbleProto__SuggestConfig` -/
structure SuggestConfig where
  versionV1 : Option UInt32
  versionV2 : Option UInt64
  positional : Option Bool
  pushToTalk : Option Bool

/-- `MumbleProto__PluginDataTransmission` -/
structure PluginDataTransmission where
  sendersession : Option UInt32
  receiversessions : List UInt32
  data : Option Bytes
  dataid : Option Bytes

/-- The message of a packet, by the type in its header. -/
inductive Message where
  | version (message : Version)
  | ping (message : Ping)
  | reject (message : Reject)
  | banList (message : BanList)
  | textMessage (message : TextMessage)
  | permissionDenied (message : PermissionDenied)
  | acl (message : ACL)
  | queryUsers (message : QueryUsers)
  | cryptSetup (message : CryptSetup)
  | contextActionModify (message : ContextActionModify)
  | userList (message : UserList)
  | permissionQuery (message : PermissionQuery)
  | codecVersion (message : CodecVersion)
  | userStats (message : UserStats)
  | serverConfig (message : ServerConfig)
  | suggestConfig (message : SuggestConfig)
  | pluginData (message : PluginDataTransmission)

end LuaMumble.Packet
