import LuaMumble.Lib.LittleEndian

/-!
The reader of the TLS connection, `socket_read_event_tcp`, which libuv calls
when the socket is readable. It works on a local copy of the client's
`tcp_read_packet` and reads a header and then a body into it. The handlers of
`packet_handler` appear as the calls made to them. A buffer of the source is the
list of the bytes read into it so far, so `header_len` and `body_len` are the
lengths of these lists; the six bytes of a header are always allocated.
-/

namespace LuaMumble.Tcp

open Lib.LittleEndian

/-- `PACKET_HEADER_SIZE`: a `uint16_t` and a `uint32_t`. -/
def packetHeaderSize : Nat := 6

/-- The functions of `packet_handler`. -/
inductive PacketHandler where
  | serverVersion
  | tcpUdpTunnel
  | serverPing
  | serverReject
  | serverSync
  | channelRemove
  | channelState
  | userRemove
  | userState
  | banList
  | textMessage
  | permissionDenied
  | acl
  | queryUsers
  | cryptSetup
  | contextActionModify
  | userList
  | permissionQuery
  | codecVersion
  | userStats
  | serverConfig
  | suggestConfig
  | pluginData
  deriving DecidableEq

/-- `packet_handler`, with NULL as `none`. -/
def packetHandler : List (Option PacketHandler) :=
  [some .serverVersion, some .tcpUdpTunnel, none, some .serverPing, some .serverReject,
    some .serverSync, some .channelRemove, some .channelState, some .userRemove, some .userState,
    some .banList, some .textMessage, some .permissionDenied, some .acl, some .queryUsers,
    some .cryptSetup, some .contextActionModify, none, some .userList, none,
    some .permissionQuery, some .codecVersion, some .userStats, none, some .serverConfig,
    some .suggestConfig, some .pluginData]

/-- A call of a handler with the packet it was given. -/
structure Dispatch where
  handler : PacketHandler
  type : Nat
  body : List UInt8
  deriving DecidableEq

/-- `MumblePacket`; a buffer is nothing where its pointer is NULL. -/
structure MumblePacket where
  type : Nat
  length : Nat
  header : Option (List UInt8)
  body : Option (List UInt8)
  deriving DecidableEq

def MumblePacket.empty : MumblePacket := ⟨0, 0, none, none⟩

/-- The TLS layer: the decrypted bytes it still has to return, and what its
calls to come do. An entry is WANT_READ or the most bytes the call returns, less
one. -/
structure Ssl where
  pending : List UInt8
  schedule : List (Option Nat)
  deriving DecidableEq

inductive SslRead where
  | data (bytes : List UInt8)
  | wantRead
  | failed
  deriving DecidableEq

/-- `SSL_read` fails for a negative number of bytes. It returns at least one
byte unless it wants to read first, which it does when nothing is pending. -/
def sslRead (ssl : Ssl) (num : Int) : SslRead × Ssl :=
  if num < 0 then (.failed, ssl)
  else
    match ssl.schedule with
    | [] => (.wantRead, ssl)
    | none :: rest => (.wantRead, { ssl with schedule := rest })
    | some n :: rest =>
        let count := min (n + 1) num.toNat
        if ssl.pending.take count = [] then (.wantRead, { ssl with schedule := rest })
        else (.data (ssl.pending.take count), ⟨ssl.pending.drop count, rest⟩)

/-- What the reader uses of `MumbleClient`. -/
structure MumbleClient where
  connecting : Bool
  connected : Bool
  tcpReadPacket : MumblePacket
  ssl : Ssl
  deriving DecidableEq

def mumbleDisconnect (client : MumbleClient) : MumbleClient :=
  if client.connecting then { client with connecting := false, connected := false } else client

def handleSslReadError (client : MumbleClient) (ret : SslRead) : MumbleClient :=
  match ret with
  | .wantRead => client
  | _ => mumbleDisconnect client

def ntohs (bytes : List UInt8) : Nat := value (bytes.take 2).reverse

def ntohl (bytes : List UInt8) : Nat := value (bytes.take 4).reverse

/-- The conversion of a `size_t` to the `int` that `SSL_read` takes. -/
def toInt (n : Nat) : Int := (BitVec.ofNat 32 n).toInt

/-- The local copy of the packet, set up for a new one where there is none. -/
def startPacket (packet : MumblePacket) : MumblePacket :=
  match packet.header with
  | none => { packet with header := some [], body := none }
  | some _ => packet

/-- The first half of an event; nothing where the function returns. `malloc` tells if there is
memory for the body. -/
def readHeader (malloc : Bool) (client : MumbleClient) (packet : MumblePacket) :
    Option MumblePacket × MumbleClient :=
  let header := packet.header.getD []
  if header.length < packetHeaderSize then
    let (ret, ssl) := sslRead client.ssl (toInt (packetHeaderSize - header.length))
    let client := { client with ssl := ssl }
    match ret with
    | .data bytes =>
        let header := header ++ bytes
        if header.length = packetHeaderSize then
          let packet := { packet with
            header := some header
            type := ntohs header
            length := ntohl (header.drop 2) }
          if packet.type ≥ packetHandler.length then (none, client)
          else if !malloc then (none, client)
          else (some { packet with body := some [] }, client)
        else (some { packet with header := some header }, client)
    | ret => (none, handleSslReadError client ret)
  else (some packet, client)

/-- The second half of an event. -/
def readBody (client : MumbleClient) (packet : MumblePacket) : List Dispatch × MumbleClient :=
  let header := packet.header.getD []
  let body := packet.body.getD []
  if header.length = packetHeaderSize ∧ body.length < packet.length then
    let (ret, ssl) := sslRead client.ssl (toInt (packet.length - body.length))
    let client := { client with ssl := ssl }
    match ret with
    | .data bytes =>
        let body := body ++ bytes
        if body.length = packet.length then
          match packetHandler.getD packet.type none with
          | some handler => ([⟨handler, packet.type, body⟩], client)
          | none => ([], client)
        else ([], client)
    | ret => ([], handleSslReadError client ret)
  else ([], client)

/-- A call of libuv, and if `malloc` has memory for a body then. -/
structure PollEvent where
  status : Int
  readable : Bool
  malloc : Bool
  deriving DecidableEq

/-- `socket_read_event_tcp`: the handlers called and the client afterwards. No
path of the function writes the local copy of the packet back to
`client->tcp_read_packet`. -/
def socketReadEventTcp (client : MumbleClient) (event : PollEvent) :
    List Dispatch × MumbleClient :=
  if event.status < 0 then ([], mumbleDisconnect client)
  else if event.readable && client.connected then
    match readHeader event.malloc client (startPacket client.tcpReadPacket) with
    | (some packet, client) => readBody client packet
    | (none, client) => ([], client)
  else ([], client)

end LuaMumble.Tcp
