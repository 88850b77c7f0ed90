import LuaMumble.Packet.Events
import LuaMumble.Userdata.Copies

/-!
How much of a message its events tell. For two messages the callbacks are told the same if and only
if these agree in what is listed here for their type. A string is told up to its first NUL, a number
of 64 bits as far as Lua has digits for it, a session or a channel by its object, and a list of them
by the objects at each place, where one that is not known leaves a gap. Of the user of an entry of
an ACL it is told if it is user 0, of the ping figures in UserStats the whole part, and of a text
message nothing of the channels whose trees it goes to.
-/

namespace LuaMumble.Packet

open Lib Lib.TableBuilder Client.Address

section Alike

variable (client : MumbleClient)

/-- The objects at the same places, and no list at all only together. -/
def AlikeObjects (object : UInt32 → Option Nat) (xs ys : List UInt32) : Prop :=
  (xs = [] ↔ ys = []) ∧ ∀ i : Nat, xs[i]?.bind object = ys[i]?.bind object

def Version.Alike (a b : Version) : Prop :=
  a.versionV1 = b.versionV1 ∧ a.versionV2.map client.long = b.versionV2.map client.long ∧
    a.release.map cstring = b.release.map cstring ∧ a.os.map cstring = b.os.map cstring ∧
    a.osVersion.map cstring = b.osVersion.map cstring

/-- The timestamp is told as it is and by the delay that follows from it. -/
def Ping.Alike (a b : Ping) : Prop :=
  a.timestamp.map client.long = b.timestamp.map client.long ∧
    a.timestamp.map client.delay = b.timestamp.map client.delay ∧ a.good = b.good ∧
    a.late = b.late ∧ a.lost = b.lost ∧ a.resync = b.resync ∧ a.udpPackets = b.udpPackets ∧
    a.tcpPackets = b.tcpPackets ∧ a.udpPingAvg = b.udpPingAvg ∧ a.udpPingVar = b.udpPingVar ∧
    a.tcpPingAvg = b.tcpPingAvg ∧ a.tcpPingVar = b.tcpPingVar

def Reject.Alike (a b : Reject) : Prop :=
  a.type = b.type ∧ a.reason.map cstring = b.reason.map cstring

/-- The same bytes, taken for one family and printed in one way. -/
def BinaryData.Alike (a b : BinaryData) : Prop :=
  a.bytes = b.bytes ∧ (client.address a).ipv6 = (client.address b).ipv6 ∧
    (client.address a).string = (client.address b).string

def BanEntry.Alike (a b : BanEntry) : Prop :=
  a.address.Alike client b.address ∧ a.mask = b.mask ∧ a.name.map cstring = b.name.map cstring ∧
    a.hash.map cstring = b.hash.map cstring ∧ a.reason.map cstring = b.reason.map cstring ∧
    a.start.map cstring = b.start.map cstring ∧ a.duration = b.duration

def BanList.Alike (a b : BanList) : Prop := List.Forall₂ (BanEntry.Alike client) a.bans b.bans

def TextMessage.Alike (a b : TextMessage) : Prop :=
  a.actor.bind client.user? = b.actor.bind client.user? ∧
    a.message.map cstring = b.message.map cstring ∧
    AlikeObjects client.user? a.session b.session ∧
    AlikeObjects client.channel? a.channelId b.channelId

def PermissionDenied.Alike (a b : PermissionDenied) : Prop :=
  a.type = b.type ∧ a.permission = b.permission ∧
    a.channelId.bind client.channel? = b.channelId.bind client.channel? ∧
    a.session.bind client.user? = b.session.bind client.user? ∧
    a.reason.map cstring = b.reason.map cstring ∧ a.name.map cstring = b.name.map cstring

def ChanGroup.Alike (a b : ChanGroup) : Prop :=
  a.name.map cstring = b.name.map cstring ∧ a.inherited = b.inherited ∧
    a.inheritable = b.inheritable ∧ a.add = b.add ∧ a.remove = b.remove ∧
    a.inheritedMembers = b.inheritedMembers

def ChanACL.Alike (a b : ChanACL) : Prop :=
  a.applyHere = b.applyHere ∧ a.applySubs = b.applySubs ∧ a.inherited = b.inherited ∧
    (a.userId.map fun userId => decide (userId ≠ 0)) =
      (b.userId.map fun userId => decide (userId ≠ 0)) ∧
    a.group.map cstring = b.group.map cstring ∧ a.grant = b.grant ∧ a.deny = b.deny

def ACL.Alike (a b : ACL) : Prop :=
  client.channel? a.channelId = client.channel? b.channelId ∧
    List.Forall₂ ChanGroup.Alike a.groups b.groups ∧ List.Forall₂ ChanACL.Alike a.acls b.acls ∧
    a.inheritAcls = b.inheritAcls ∧ a.query = b.query

/-- The name that an id has at last. -/
def QueryUsers.name? (users : QueryUsers) (id : UInt32) : Option Bytes :=
  if users.ids.length = users.names.length then
    ((users.ids.zip users.names).reverse.find? fun entry => entry.1 = id).map fun entry =>
      cstring entry.2
  else none

def QueryUsers.Alike (a b : QueryUsers) : Prop := ∀ id, a.name? id = b.name? id

def ContextActionModify.Alike (a b : ContextActionModify) : Prop :=
  a.action.map cstring = b.action.map cstring ∧ a.text.map cstring = b.text.map cstring ∧
    a.context = b.context ∧ a.operation = b.operation

def ListedUser.Alike (a b : ListedUser) : Prop :=
  a.userId = b.userId ∧ a.name.map cstring = b.name.map cstring ∧
    a.lastSeen.map cstring = b.lastSeen.map cstring ∧
    a.lastChannel.bind client.channel? = b.lastChannel.bind client.channel?

def UserList.Alike (a b : UserList) : Prop :=
  List.Forall₂ (ListedUser.Alike client) a.users b.users

def PermissionQuery.Alike (a b : PermissionQuery) : Prop :=
  a.channelId.bind client.channel? = b.channelId.bind client.channel? ∧
    a.permissions = b.permissions ∧ a.flush = b.flush

/-- Missing counts of rolling statistics are as 0. -/
def Stats.AlikeFull (a b : Stats) : Prop :=
  a.good.getD 0 = b.good.getD 0 ∧ a.late.getD 0 = b.late.getD 0 ∧ a.lost.getD 0 = b.lost.getD 0 ∧
    a.resync.getD 0 = b.resync.getD 0

def RollingStats.Alike (a b : RollingStats) : Prop :=
  a.timeWindow = b.timeWindow ∧ Option.Rel Stats.AlikeFull a.fromClient b.fromClient ∧
    Option.Rel Stats.AlikeFull a.fromServer b.fromServer

def UserStats.Alike (a b : UserStats) : Prop :=
  a.session.bind client.user? = b.session.bind client.user? ∧ a.statsOnly = b.statsOnly ∧
    a.certificates = b.certificates ∧ a.fromClient = b.fromClient ∧
    a.fromServer = b.fromServer ∧ a.udpPackets = b.udpPackets ∧ a.tcpPackets = b.tcpPackets ∧
    a.udpPingAvg.bind FloatConversion.truncate = b.udpPingAvg.bind FloatConversion.truncate ∧
    a.udpPingVar.bind FloatConversion.truncate = b.udpPingVar.bind FloatConversion.truncate ∧
    a.tcpPingAvg.bind FloatConversion.truncate = b.tcpPingAvg.bind FloatConversion.truncate ∧
    a.tcpPingVar.bind FloatConversion.truncate = b.tcpPingVar.bind FloatConversion.truncate ∧
    Option.Rel (Version.Alike client) a.version b.version ∧ a.celtVersions = b.celtVersions ∧
    Option.Rel (BinaryData.Alike client) a.address b.address ∧ a.bandwidth = b.bandwidth ∧
    a.onlinesecs = b.onlinesecs ∧ a.idlesecs = b.idlesecs ∧
    a.strongCertificate = b.strongCertificate ∧ a.opus = b.opus ∧
    Option.Rel RollingStats.Alike a.rollingStats b.rollingStats

def ServerConfig.Alike (a b : ServerConfig) : Prop :=
  a.maxBandwidth = b.maxBandwidth ∧ a.welcomeText.map cstring = b.welcomeText.map cstring ∧
    a.allowHtml = b.allowHtml ∧ a.messageLength = b.messageLength ∧
    a.imageMessageLength = b.imageMessageLength ∧ a.maxUsers = b.maxUsers ∧
    a.recordingAllowed = b.recordingAllowed

def SuggestConfig.Alike (a b : SuggestConfig) : Prop :=
  a.versionV1 = b.versionV1 ∧ a.versionV2.map client.long = b.versionV2.map client.long ∧
    a.positional = b.positional ∧ a.pushToTalk = b.pushToTalk

def PluginDataTransmission.Alike (a b : PluginDataTransmission) : Prop :=
  a.sendersession.bind client.user? = b.sendersession.bind client.user? ∧
    AlikeObjects client.user? a.receiversessions b.receiversessions ∧ a.data = b.data ∧
    a.dataid.map cstring = b.dataid.map cstring

/-- Messages of one type that agree in what is told of them. Of a CryptSetup everything is. -/
def Message.Alike : Message → Message → Prop
  | .version a, .version b => a.Alike client b
  | .ping a, .ping b => a.Alike client b
  | .reject a, .reject b => a.Alike b
  | .banList a, .banList b => a.Alike client b
  | .textMessage a, .textMessage b => a.Alike client b
  | .permissionDenied a, .permissionDenied b => a.Alike client b
  | .acl a, .acl b => a.Alike client b
  | .queryUsers a, .queryUsers b => a.Alike b
  | .cryptSetup a, .cryptSetup b => a = b
  | .contextActionModify a, .contextActionModify b => a.Alike b
  | .userList a, .userList b => a.Alike client b
  | .permissionQuery a, .permissionQuery b => a.Alike client b
  | .codecVersion a, .codecVersion b => a = b
  | .userStats a, .userStats b => a.Alike client b
  | .serverConfig a, .serverConfig b => a.Alike b
  | .suggestConfig a, .suggestConfig b => a.Alike client b
  | .pluginData a, .pluginData b => a.Alike client b
  | _, _ => False

end Alike

section Leaves

theorem integer_inj {m n : Int} : integer m = integer n ↔ m = n := by
  simp [integer]

theorem unsigned_inj {m n : UInt32} : unsigned m = unsigned n ↔ m = n := by
  simp [unsigned, integer_inj, UInt32.toNat_inj]

theorem signed_inj {m n : Int32} : signed m = signed n ↔ m = n := by
  simp [signed, integer_inj, Int32.toInt_inj]

theorem boolean_inj {a b : Bool} : boolean a = boolean b ↔ a = b := by
  simp [boolean]

theorem count_inj {m n : UInt32} : count m = count n ↔ m = n := by
  simp [count]

theorem single_inj {x y : Float32} : single x = single y ↔ x = y := by
  simp [single]

theorem double_inj {x y : Float} : double x = double y ↔ x = y := by
  simp [double]

theorem string_inj {a b : Bytes} : string a = string b ↔ a = b := by
  simp [string]

theorem chars_inj {a b : Bytes} : chars a = chars b ↔ cstring a = cstring b := string_inj

theorem chars?_inj {a b : Option Bytes} :
    chars? a = chars? b ↔ a.map cstring = b.map cstring := by
  cases a with
  | none => cases b <;> simp [chars?, chars, string]
  | some a =>
      cases b with
      | none => simp [chars?, chars, string]
      | some b => simp [chars?, chars_inj]

theorem object_inj {make : Nat → Object} (hmake : ∀ m n, make m = make n → m = n)
    {x y : Option Nat} : object make x = object make y ↔ x = y := by
  cases x with
  | none => cases y <;> simp [object]
  | some m =>
      cases y with
      | none => simp [object]
      | some n =>
          have hiff : make m = make n ↔ m = n := ⟨hmake m n, congrArg make⟩
          simpa [object] using hiff

/-- An optional number of an object, where an object that is not known is as no number. -/
theorem orNil_object {make : Nat → Object} (hmake : ∀ m n, make m = make n → m = n)
    (get : UInt32 → Option Nat) {x y : Option UInt32} :
    orNil (x.map fun n => object make (get n)) = orNil (y.map fun n => object make (get n)) ↔
      x.bind get = y.bind get := by
  have hbind (x : Option UInt32) :
      orNil (x.map fun n => object make (get n)) = object make (x.bind get) := by
    cases x <;> rfl
  rw [hbind, hbind, object_inj hmake]

theorem hexDigits_inj {a b : UInt8} (h : Userdata.hexDigits a = Userdata.hexDigits b) : a = b := by
  have hdigit : ∀ m n : Fin 16,
      Userdata.hexStr.getD m.val 0 = Userdata.hexStr.getD n.val 0 → m = n := by decide
  have hnibble (n m : UInt8)
      (h : Userdata.hexStr.getD (n &&& 0x0F).toNat 0 = Userdata.hexStr.getD (m &&& 0x0F).toNat 0) :
      n.toNat % 16 = m.toNat % 16 := by
    have hmod (n : UInt8) : (n &&& 0x0F).toNat = n.toNat % 16 := by
      rw [UInt8.toNat_and]
      exact Nat.and_two_pow_sub_one_eq_mod n.toNat 4
    rw [hmod, hmod] at h
    exact Fin.val_eq_of_eq (hdigit ⟨n.toNat % 16, Nat.mod_lt _ (by omega)⟩
      ⟨m.toNat % 16, Nat.mod_lt _ (by omega)⟩ h)
  simp only [Userdata.hexDigits, List.cons.injEq, and_true] at h
  have hhigh := hnibble _ _ h.1
  have hlow := hnibble _ _ h.2
  have hshift (n : UInt8) : (n >>> 4).toNat = n.toNat / 16 := by
    rw [UInt8.toNat_shiftRight, Nat.shiftRight_eq_div_pow]
    rfl
  rw [hshift, hshift] at hhigh
  apply UInt8.toNat_inj.mp
  have ha := a.toNat_lt
  have hb := b.toNat_lt
  omega

theorem hexOf_inj {a b : Bytes} (h : Userdata.hexOf a = Userdata.hexOf b) : a = b := by
  induction a generalizing b with
  | nil =>
      cases b with
      | nil => rfl
      | cons y b => cases h
  | cons x a ih =>
      cases b with
      | nil => cases h
      | cons y b =>
          have hdigits : Userdata.hexDigits x ++ Userdata.hexOf a =
              Userdata.hexDigits y ++ Userdata.hexOf b := h
          have hcons := List.append_inj hdigits rfl
          rw [hexDigits_inj hcons.1, ih hcons.2]

/-- There is no NUL among the digits. -/
theorem cstring_hexOf (bytes : Bytes) : cstring (Userdata.hexOf bytes) = Userdata.hexOf bytes := by
  have hdigit : ∀ m : Fin 16, Userdata.hexStr.getD m.val 0 ≠ 0 := by decide
  have hnibble (n : UInt8) : Userdata.hexStr.getD (n &&& 0x0F).toNat 0 ≠ 0 := by
    have hlt : (n &&& 0x0F).toNat < 16 := by
      rw [UInt8.toNat_and]
      exact Nat.lt_of_le_of_lt Nat.and_le_right (by decide)
    exact hdigit ⟨_, hlt⟩
  unfold cstring
  rw [List.takeWhile_eq_self_iff]
  intro digit hmem
  rw [Userdata.hexOf, List.mem_flatMap] at hmem
  obtain ⟨byte, -, hmem⟩ := hmem
  simp only [Userdata.hexDigits, List.mem_cons, List.not_mem_nil, or_false] at hmem
  rcases hmem with rfl | rfl
  · simpa using hnibble (byte >>> 4)
  · simpa using hnibble byte

theorem hex_eq (bytes : Bytes) : hex bytes = string (Userdata.hexOf bytes) := by
  have hread := Userdata.holds_memoryOf bytes fun _ => 0
  rw [hex, Userdata.binToStrhex_eq_value, Userdata.value_binToStrhexFrom, hread]
  simp only [chars?, chars, cstring_hexOf]

theorem hex_inj {a b : Bytes} : hex a = hex b ↔ a = b := by
  rw [hex_eq, hex_eq, string_inj]
  exact ⟨hexOf_inj, congrArg _⟩

theorem orNil_whole {x y : Option Float32} :
    orNil (x.map whole) = orNil (y.map whole) ↔
      x.bind FloatConversion.truncate = y.bind FloatConversion.truncate := by
  have hbind (x : Option Float32) :
      orNil (x.map whole) = orNil ((x.bind FloatConversion.truncate).map integer) := by
    cases x with
    | none => rfl
    | some x =>
        simp only [Option.map_some, orNil_some, Option.bind_some, whole]
        cases FloatConversion.truncate x <;> rfl
  rw [hbind, hbind, option_eq_iff_eq (fun _ => by simp [integer]) fun _ _ => integer_inj]

end Leaves

section Fields

variable {client : MumbleClient}

theorem orNil_unsigned {x y : Option UInt32} :
    orNil (x.map unsigned) = orNil (y.map unsigned) ↔ x = y :=
  option_eq_iff_eq (fun _ => by simp [unsigned, integer]) fun _ _ => unsigned_inj

theorem orNil_signed {x y : Option Int32} :
    orNil (x.map signed) = orNil (y.map signed) ↔ x = y :=
  option_eq_iff_eq (fun _ => by simp [signed, integer]) fun _ _ => signed_inj

theorem orNil_long {x y : Option UInt64} :
    orNil (x.map (long client)) = orNil (y.map (long client)) ↔
      x.map client.long = y.map client.long :=
  option_eq_iff_map (fun _ => by simp [integer]) fun _ _ => integer_inj

theorem orNil_delay {x y : Option UInt64} :
    orNil (x.map fun timestamp => double (client.delay timestamp)) =
        orNil (y.map fun timestamp => double (client.delay timestamp)) ↔
      x.map client.delay = y.map client.delay :=
  option_eq_iff_map (fun _ => by simp [double]) fun _ _ => double_inj

theorem orNil_boolean {x y : Option Bool} :
    orNil (x.map boolean) = orNil (y.map boolean) ↔ x = y :=
  option_eq_iff_eq (fun _ => by simp [boolean]) fun _ _ => boolean_inj

theorem orNil_count {x y : Option UInt32} :
    orNil (x.map count) = orNil (y.map count) ↔ x = y :=
  option_eq_iff_eq (fun _ => by simp [count]) fun _ _ => count_inj

theorem orNil_single {x y : Option Float32} :
    orNil (x.map single) = orNil (y.map single) ↔ x = y :=
  option_eq_iff_eq (fun _ => by simp [single]) fun _ _ => single_inj

theorem orNil_string {x y : Option Bytes} :
    orNil (x.map string) = orNil (y.map string) ↔ x = y :=
  option_eq_iff_eq (fun _ => by simp [string]) fun _ _ => string_inj

theorem orNil_hex {x y : Option Bytes} : orNil (x.map hex) = orNil (y.map hex) ↔ x = y :=
  option_eq_iff_eq (fun _ => by simp [hex_eq, string]) fun _ _ => hex_inj

theorem orNil_chars {x y : Option Bytes} :
    orNil (x.map chars) = orNil (y.map chars) ↔ x.map cstring = y.map cstring :=
  option_eq_iff_map (fun _ => by simp [chars, string]) fun _ _ => chars_inj

theorem user_inj {m n : Nat} (h : Object.user m = .user n) : m = n := Object.user.inj h

theorem channel_inj {m n : Nat} (h : Object.channel m = .channel n) : m = n := Object.channel.inj h

theorem orNil_user {x y : Option UInt32} :
    orNil (x.map (user client)) = orNil (y.map (user client)) ↔
      x.bind client.user? = y.bind client.user? :=
  orNil_object (fun _ _ => user_inj) client.user?

theorem orNil_channel {x y : Option UInt32} :
    orNil (x.map (channel client)) = orNil (y.map (channel client)) ↔
      x.bind client.channel? = y.bind client.channel? :=
  orNil_object (fun _ _ => channel_inj) client.channel?

theorem orNil_users {xs ys : List UInt32} :
    orNil (if xs ≠ [] then some (array xs (user client)) else none) =
      orNil (if ys ≠ [] then some (array ys (user client)) else none) ↔
    AlikeObjects client.user? xs ys := by
  rw [orNil_array, array_inj]
  simp only [orNil_user]
  rfl

theorem orNil_channels {xs ys : List UInt32} :
    orNil (if xs ≠ [] then some (array xs (channel client)) else none) =
      orNil (if ys ≠ [] then some (array ys (channel client)) else none) ↔
    AlikeObjects client.channel? xs ys := by
  rw [orNil_array, array_inj]
  simp only [orNil_channel]
  rfl

theorem array_unsigned {xs ys : List UInt32} :
    array xs unsigned = array ys unsigned ↔ xs = ys :=
  array_eq_iff_eq (fun _ => by simp [unsigned, integer]) fun _ _ => unsigned_inj

theorem orNil_unsigneds {xs ys : List UInt32} :
    orNil (if xs ≠ [] then some (array xs unsigned) else none) =
      orNil (if ys ≠ [] then some (array ys unsigned) else none) ↔ xs = ys := by
  rw [orNil_array, array_unsigned]
  constructor
  · exact fun h => h.2
  · rintro rfl
    exact ⟨Iff.rfl, rfl⟩

theorem array_bytes {a b : Bytes} :
    array a (fun b => integer b.toNat) = array b (fun b => integer b.toNat) ↔ a = b := by
  refine array_eq_iff_eq (fun _ => by simp [integer]) ?_
  intro a b
  rw [integer_inj, Int.natCast_inj, UInt8.toNat_inj]

/-- A flag that is pushed as a number. -/
theorem orNil_flag {x y : Option Bool} :
    orNil (x.map fun b => integer b.toNat) = orNil (y.map fun b => integer b.toNat) ↔ x = y := by
  refine option_eq_iff_eq (fun _ => by simp [integer]) ?_
  intro a b
  cases a <;> cases b <;> simp [integer]

/-- The id of a user that is pushed as a boolean. -/
theorem orNil_userZero {x y : Option UInt32} :
    orNil (x.map fun userId => boolean (userId ≠ 0)) =
      orNil (y.map fun userId => boolean (userId ≠ 0)) ↔
    (x.map fun userId => decide (userId ≠ 0)) = y.map fun userId => decide (userId ≠ 0) :=
  option_eq_iff_map (fun _ => by simp [boolean]) fun _ _ => boolean_inj

theorem text_inj {a b : String} :
    string a.toUTF8.data.toList = string b.toUTF8.data.toList ↔ a = b := by
  rw [string_inj]
  constructor
  · intro h
    apply String.toByteArray_inj.mp
    apply ByteArray.ext
    exact Array.toList_inj.mp h
  · rintro rfl
    rfl

/-- The field of the one family or of the other. -/
theorem addressTable_eq (address : BinaryData) : addressTable client address =
    record [
      ("ipv4", if (client.address address).ipv6 then none else some (boolean true)),
      ("ipv6", if (client.address address).ipv6 then some (boolean true) else none),
      ("string", some (string (client.address address).string.toUTF8.data.toList)),
      ("data", some (array address.bytes fun b => integer b.toNat))] := by
  unfold addressTable
  cases (client.address address).ipv6 with
  | false => rfl
  | true => rfl

theorem addressTable_inj {a b : BinaryData} :
    addressTable client a = addressTable client b ↔ a.Alike client b := by
  rw [addressTable_eq, addressTable_eq]
  refine (record_inj ?_ ?_).trans ?_
  · simp only [List.map_cons, List.map_nil]
  · simp only [List.map_cons, List.map_nil]
    decide
  · have hfamily (x y : Bool) :
        (orNil (if x then none else some (boolean true)) =
            orNil (if y then none else some (boolean true)) ∧
          orNil (if x then some (boolean true) else none) =
            orNil (if y then some (boolean true) else none)) ↔ x = y := by
      cases x <;> cases y <;> simp [boolean]
    simp only [List.map_cons, List.map_nil, List.cons.injEq, orNil_some, text_inj, array_bytes,
      and_true]
    rw [← and_assoc, hfamily]
    constructor
    · rintro ⟨hfamily, htext, hbytes⟩
      exact ⟨hbytes, hfamily, htext⟩
    · rintro ⟨hbytes, hfamily, htext⟩
      exact ⟨hfamily, htext, hbytes⟩

theorem record_ne_nil (rows : List (String × Option Event)) : record rows ≠ .leaf .nil := by
  simp [record, table]

end Fields

section Messages

variable {client : MumbleClient}

theorem Version.event_inj {a b : Version} :
    a.event client = b.event client ↔ a.Alike client b := by
  refine (record_inj ?_ ?_).trans ?_
  · simp only [List.map_cons, List.map_nil]
  · simp only [List.map_cons, List.map_nil]
    decide
  · simp only [List.map_cons, List.map_nil, List.cons.injEq, orNil_unsigned, orNil_long,
      orNil_some, chars?_inj, and_true]
    rfl

theorem Reject.event_inj {a b : Reject} : a.event = b.event ↔ a.Alike b := by
  refine (record_inj ?_ ?_).trans ?_
  · simp only [List.map_cons, List.map_nil]
  · simp only [List.map_cons, List.map_nil]
    decide
  · simp only [List.map_cons, List.map_nil, List.cons.injEq, orNil_signed, orNil_some, chars?_inj,
      and_true]
    rfl

theorem BanEntry.event_inj {a b : BanEntry} :
    a.event client = b.event client ↔ a.Alike client b := by
  refine (record_inj ?_ ?_).trans ?_
  · simp only [List.map_cons, List.map_nil]
  · simp only [List.map_cons, List.map_nil]
    decide
  · simp only [List.map_cons, List.map_nil, List.cons.injEq, orNil_some, addressTable_inj,
      unsigned_inj, orNil_chars, orNil_unsigned, and_true]
    rfl

theorem PermissionDenied.event_inj {a b : PermissionDenied} : a.event client = b.event client ↔
    a.Alike client b := by
  refine (record_inj ?_ ?_).trans ?_
  · simp only [List.map_cons, List.map_nil]
  · simp only [List.map_cons, List.map_nil]
    decide
  · simp only [List.map_cons, List.map_nil, List.cons.injEq, orNil_signed, orNil_unsigned,
      orNil_channel, orNil_user, orNil_chars, and_true]
    rfl

theorem ChanGroup.event_inj {a b : ChanGroup} : a.event = b.event ↔ a.Alike b := by
  refine (record_inj ?_ ?_).trans ?_
  · simp only [List.map_cons, List.map_nil]
  · simp only [List.map_cons, List.map_nil]
    decide
  · simp only [List.map_cons, List.map_nil, List.cons.injEq, orNil_chars, orNil_boolean,
      orNil_unsigneds, and_true]
    rfl

theorem ChanACL.event_inj {a b : ChanACL} : a.event = b.event ↔ a.Alike b := by
  refine (record_inj ?_ ?_).trans ?_
  · simp only [List.map_cons, List.map_nil]
  · simp only [List.map_cons, List.map_nil]
    decide
  · simp only [List.map_cons, List.map_nil, List.cons.injEq, orNil_boolean, orNil_userZero,
      orNil_chars, orNil_unsigned, and_true]
    rfl

theorem ContextActionModify.event_inj {a b : ContextActionModify} :
    a.event = b.event ↔ a.Alike b := by
  refine (record_inj ?_ ?_).trans ?_
  · simp only [List.map_cons, List.map_nil]
  · simp only [List.map_cons, List.map_nil]
    decide
  · simp only [List.map_cons, List.map_nil, List.cons.injEq, orNil_chars, orNil_unsigned,
      orNil_signed, and_true]
    rfl

theorem ListedUser.event_inj {a b : ListedUser} :
    a.event client = b.event client ↔ a.Alike client b := by
  refine (record_inj ?_ ?_).trans ?_
  · simp only [List.map_cons, List.map_nil]
  · simp only [List.map_cons, List.map_nil]
    decide
  · simp only [List.map_cons, List.map_nil, List.cons.injEq, orNil_some, unsigned_inj, orNil_chars,
      orNil_channel, and_true]
    rfl

theorem PermissionQuery.event_inj {a b : PermissionQuery} : a.event client = b.event client ↔
    a.Alike client b := by
  refine (record_inj ?_ ?_).trans ?_
  · simp only [List.map_cons, List.map_nil]
  · simp only [List.map_cons, List.map_nil]
    decide
  · simp only [List.map_cons, List.map_nil, List.cons.injEq, orNil_channel, orNil_unsigned,
      orNil_flag, and_true]
    rfl

theorem ServerConfig.event_inj {a b : ServerConfig} : a.event = b.event ↔ a.Alike b := by
  refine (record_inj ?_ ?_).trans ?_
  · simp only [List.map_cons, List.map_nil]
  · simp only [List.map_cons, List.map_nil]
    decide
  · simp only [List.map_cons, List.map_nil, List.cons.injEq, orNil_unsigned, orNil_some, chars?_inj,
      orNil_boolean, orNil_flag, and_true]
    rfl

theorem PluginDataTransmission.event_inj {a b : PluginDataTransmission} :
    a.event client = b.event client ↔ a.Alike client b := by
  refine (record_inj ?_ ?_).trans ?_
  · simp only [List.map_cons, List.map_nil]
  · simp only [List.map_cons, List.map_nil]
    decide
  · simp only [List.map_cons, List.map_nil, List.cons.injEq, orNil_user, orNil_users, orNil_string,
      orNil_chars, and_true]
    rfl

theorem BanList.event_inj {a b : BanList} :
    a.event client = b.event client ↔ a.Alike client b :=
  array_eq_iff (fun _ => record_ne_nil _) fun _ _ => BanEntry.event_inj

theorem UserList.event_inj {a b : UserList} :
    a.event client = b.event client ↔ a.Alike client b :=
  array_eq_iff (fun _ => record_ne_nil _) fun _ _ => ListedUser.event_inj

/-- The average and the deviation are there if the timestamp is. -/
theorem Ping.event_inj {a b : Ping} : a.event client = b.event client ↔ a.Alike client b := by
  refine (record_inj ?_ ?_).trans ?_
  · simp only [List.map_cons, List.map_nil]
  · simp only [List.map_cons, List.map_nil]
    decide
  · have hthere (figure : Event)
        (h : a.timestamp.map client.long = b.timestamp.map client.long) :
        orNil (a.timestamp.map fun _ => figure) = orNil (b.timestamp.map fun _ => figure) := by
      have hsome := congrArg (fun x => orNil (x.map fun _ => figure)) h
      rwa [Option.map_map, Option.map_map] at hsome
    simp only [List.map_cons, List.map_nil, List.cons.injEq, orNil_long, orNil_delay, orNil_count,
      orNil_single, and_true]
    constructor
    · rintro ⟨htimestamp, hdelay, -, -, hrest⟩
      exact ⟨htimestamp, hdelay, hrest⟩
    · rintro ⟨htimestamp, hdelay, hrest⟩
      exact ⟨htimestamp, hdelay, hthere _ htimestamp, hthere _ htimestamp, hrest⟩

theorem TextMessage.event_inj {a b : TextMessage} :
    a.event client = b.event client ↔ a.Alike client b := by
  refine (record_inj ?_ ?_).trans ?_
  · simp only [List.map_cons, List.map_nil]
  · simp only [List.map_cons, List.map_nil]
    decide
  · have hdirect (h : a.channelId = [] ↔ b.channelId = []) :
        orNil (if a.channelId ≠ [] then none else some (boolean true)) =
          orNil (if b.channelId ≠ [] then none else some (boolean true)) := by
      simp only [ne_eq, h]
    simp only [List.map_cons, List.map_nil, List.cons.injEq, orNil_user, orNil_chars, orNil_users,
      orNil_channels, and_true]
    constructor
    · rintro ⟨hactor, hmessage, husers, hchannels, -⟩
      exact ⟨hactor, hmessage, husers, hchannels⟩
    · rintro ⟨hactor, hmessage, husers, hchannels⟩
      exact ⟨hactor, hmessage, husers, hchannels, hdirect hchannels.1⟩

theorem channelField_inj {m n : UInt32} :
    channel client m = channel client n ↔ client.channel? m = client.channel? n :=
  object_inj fun _ _ => channel_inj

theorem orNil_groups {xs ys : List ChanGroup} :
    orNil (if xs ≠ [] then some (array xs ChanGroup.event) else none) =
      orNil (if ys ≠ [] then some (array ys ChanGroup.event) else none) ↔
    List.Forall₂ ChanGroup.Alike xs ys :=
  orNil_array_iff (fun _ => record_ne_nil _) fun _ _ => ChanGroup.event_inj

theorem orNil_acls {xs ys : List ChanACL} :
    orNil (if xs ≠ [] then some (array xs ChanACL.event) else none) =
      orNil (if ys ≠ [] then some (array ys ChanACL.event) else none) ↔
    List.Forall₂ ChanACL.Alike xs ys :=
  orNil_array_iff (fun _ => record_ne_nil _) fun _ _ => ChanACL.event_inj

theorem ACL.event_inj {a b : ACL} : a.event client = b.event client ↔ a.Alike client b := by
  refine (record_inj ?_ ?_).trans ?_
  · simp only [List.map_cons, List.map_nil]
  · simp only [List.map_cons, List.map_nil]
    decide
  · simp only [List.map_cons, List.map_nil, List.cons.injEq, orNil_some, channelField_inj,
      orNil_groups, orNil_acls, orNil_boolean, and_true]
    rfl

/-- The entries of the table with the name for each id. -/
theorem QueryUsers.lookup_event (users : QueryUsers) : ∃ entries, users.event = table entries ∧
    (∀ id : UInt32, lookup entries (.index id.toNat) = orNil ((users.name? id).map string)) ∧
    ∀ k, (∀ id : UInt32, k ≠ .index id.toNat) → lookup entries k = .leaf .nil := by
  refine ⟨_, rfl, ?_, ?_⟩
  · intro id
    unfold QueryUsers.name?
    by_cases hlength : users.ids.length = users.names.length
    · by_cases hids : users.ids = []
      · simp [hids, lookup]
      · rw [if_pos ⟨hids, hlength⟩, if_pos hlength, lookup, ← List.map_reverse, List.find?_map]
        have hkey : ((fun entry : FieldKey × Event => decide (entry.1 = .index id.toNat)) ∘
            fun entry : UInt32 × Bytes => (FieldKey.index entry.1.toNat, chars entry.2)) =
              fun entry => decide (entry.1 = id) := by
          funext entry
          simp [UInt32.toNat_inj]
        rw [hkey, Option.map_map, Option.map_map]
        rfl
    · rw [if_neg (fun h => hlength h.2), if_neg hlength]
      rfl
  · intro k hk
    apply lookup_of_not_mem
    split
    · simp only [List.map_map, List.mem_map, Prod.exists, not_exists, not_and]
      intro id _ _ hkey
      exact hk id hkey.symm
    · simp

theorem QueryUsers.event_inj {a b : QueryUsers} : a.event = b.event ↔ a.Alike b := by
  obtain ⟨entries, ha, hnames, hothers⟩ := a.lookup_event
  obtain ⟨entries', hb, hnames', hothers'⟩ := b.lookup_event
  rw [ha, hb, table, table, LuaTree.node.injEq]
  constructor
  · intro h id
    have hat := congrFun h (.index id.toNat)
    rwa [hnames, hnames', orNil_string] at hat
  · intro h
    funext k
    by_cases hk : ∃ id : UInt32, k = .index id.toNat
    · obtain ⟨id, rfl⟩ := hk
      rw [hnames, hnames', h id]
    · push Not at hk
      rw [hothers k hk, hothers' k hk]

theorem CryptSetup.event_inj {a b : CryptSetup} : a.event client = b.event client ↔ a = b := by
  constructor
  · intro h
    have hrows := (record_inj ?_ ?_).mp h
    · simp only [List.map_cons, List.map_nil, List.cons.injEq, orNil_hex, and_true] at hrows
      cases a
      cases b
      exact CryptSetup.mk.injEq .. ▸ hrows.2
    · simp only [List.map_cons, List.map_nil]
    · simp only [List.map_cons, List.map_nil]
      decide
  · rintro rfl
    rfl

theorem CodecVersion.event_inj {a b : CodecVersion} : a.event = b.event ↔ a = b := by
  refine (record_inj ?_ ?_).trans ?_
  · simp only [List.map_cons, List.map_nil]
  · simp only [List.map_cons, List.map_nil]
    decide
  · cases a
    cases b
    simp only [List.map_cons, List.map_nil, List.cons.injEq, orNil_some, signed_inj, boolean_inj,
      orNil_boolean, and_true, CodecVersion.mk.injEq]

theorem SuggestConfig.event_inj {a b : SuggestConfig} :
    a.event client = b.event client ↔ a.Alike client b := by
  refine (record_inj ?_ ?_).trans ?_
  · simp only [List.map_cons, List.map_nil]
  · simp only [List.map_cons, List.map_nil]
    decide
  · simp only [List.map_cons, List.map_nil, List.cons.injEq, orNil_unsigned, orNil_long,
      orNil_boolean, and_true]
    rfl

theorem Stats.event_inj {a b : Stats} : a.event = b.event ↔ a = b := by
  refine (record_inj ?_ ?_).trans ?_
  · simp only [List.map_cons, List.map_nil]
  · simp only [List.map_cons, List.map_nil]
    decide
  · cases a
    cases b
    simp only [List.map_cons, List.map_nil, List.cons.injEq, orNil_unsigned, and_true,
      Stats.mk.injEq]

theorem Stats.fullEvent_inj {a b : Stats} : a.fullEvent = b.fullEvent ↔ a.AlikeFull b := by
  refine (record_inj ?_ ?_).trans ?_
  · simp only [List.map_cons, List.map_nil]
  · simp only [List.map_cons, List.map_nil]
    decide
  · simp only [List.map_cons, List.map_nil, List.cons.injEq, orNil_some, unsigned_inj, and_true]
    rfl

theorem orNil_fullStats {x y : Option Stats} :
    orNil (x.map Stats.fullEvent) = orNil (y.map Stats.fullEvent) ↔
      Option.Rel Stats.AlikeFull x y :=
  option_eq_iff (fun _ => record_ne_nil _) fun _ _ => Stats.fullEvent_inj

theorem RollingStats.event_inj {a b : RollingStats} : a.event = b.event ↔ a.Alike b := by
  refine (record_inj ?_ ?_).trans ?_
  · simp only [List.map_cons, List.map_nil]
  · simp only [List.map_cons, List.map_nil]
    decide
  · simp only [List.map_cons, List.map_nil, List.cons.injEq, orNil_unsigned,
      orNil_fullStats, and_true]
    rfl

theorem orNil_stats {x y : Option Stats} :
    orNil (x.map Stats.event) = orNil (y.map Stats.event) ↔ x = y :=
  option_eq_iff_eq (fun _ => record_ne_nil _) fun _ _ => Stats.event_inj

theorem orNil_version {x y : Option Version} :
    orNil (x.map (Version.event client)) = orNil (y.map (Version.event client)) ↔
      Option.Rel (Version.Alike client) x y :=
  option_eq_iff (fun _ => record_ne_nil _) fun _ _ => Version.event_inj

theorem orNil_rolling {x y : Option RollingStats} :
    orNil (x.map RollingStats.event) = orNil (y.map RollingStats.event) ↔
      Option.Rel RollingStats.Alike x y :=
  option_eq_iff (fun _ => record_ne_nil _) fun _ _ => RollingStats.event_inj

theorem orNil_address {x y : Option BinaryData} :
    orNil (x.map (addressTable client)) = orNil (y.map (addressTable client)) ↔
      Option.Rel (BinaryData.Alike client) x y :=
  option_eq_iff (fun _ => record_ne_nil _) fun _ _ => addressTable_inj

theorem array_string {xs ys : List Bytes} : array xs string = array ys string ↔ xs = ys :=
  array_eq_iff_eq (fun _ => by simp [string]) fun _ _ => string_inj

theorem array_signed {xs ys : List Int32} : array xs signed = array ys signed ↔ xs = ys :=
  array_eq_iff_eq (fun _ => by simp [signed, integer]) fun _ _ => signed_inj

theorem UserStats.event_inj {a b : UserStats} :
    a.event client = b.event client ↔ a.Alike client b := by
  refine (record_inj ?_ ?_).trans ?_
  · simp only [List.map_cons, List.map_nil]
  · simp only [List.map_cons, List.map_nil]
    decide
  · simp only [List.map_cons, List.map_nil, List.cons.injEq, orNil_user, orNil_boolean,
      orNil_some, array_string, orNil_stats, orNil_unsigned, orNil_whole,
      orNil_version, array_signed, orNil_address, orNil_rolling, and_true]
    rfl

/-- The place of a type of messages in the list of their hooks. -/
def Message.index : Message → Fin 17
  | .version _ => 0
  | .ping _ => 1
  | .reject _ => 2
  | .banList _ => 3
  | .textMessage _ => 4
  | .permissionDenied _ => 5
  | .acl _ => 6
  | .queryUsers _ => 7
  | .cryptSetup _ => 8
  | .contextActionModify _ => 9
  | .userList _ => 10
  | .permissionQuery _ => 11
  | .codecVersion _ => 12
  | .userStats _ => 13
  | .serverConfig _ => 14
  | .suggestConfig _ => 15
  | .pluginData _ => 16

def hooks : List String :=
  ["OnServerVersion", "OnPongTCP", "OnServerReject", "OnBanList", "OnMessage", "OnPermissionDenied",
    "OnACL", "OnQueryUsers", "OnCryptSetup", "OnContextActionModify", "OnUserList",
    "OnPermissionQuery", "OnCodecVersion", "OnUserStats", "OnServerConfig", "OnSuggestConfig",
    "OnPluginData"]

theorem hook_eq (client : MumbleClient) (message : Message) :
    hooks[message.index.val]? = some (packetHandler client message).hook := by
  cases message <;> rfl

/-- Messages of two types are passed to two hooks. -/
theorem index_of_hook {a b : Message}
    (h : (packetHandler client a).hook = (packetHandler client b).hook) : a.index = b.index := by
  have hdistinct : ∀ i j : Fin 17, hooks[i.val]? = hooks[j.val]? → i = j := by decide
  apply hdistinct
  rw [hook_eq client, hook_eq client, h]

theorem Message.event_inj {a b : Message} (h : a.index = b.index) :
    a.event client = b.event client ↔ a.Alike client b := by
  cases a with
  | version a =>
      cases b with
      | version b => exact Version.event_inj
      | _ => cases h
  | ping a =>
      cases b with
      | ping b => exact Ping.event_inj
      | _ => cases h
  | reject a =>
      cases b with
      | reject b => exact Reject.event_inj
      | _ => cases h
  | banList a =>
      cases b with
      | banList b => exact BanList.event_inj
      | _ => cases h
  | textMessage a =>
      cases b with
      | textMessage b => exact TextMessage.event_inj
      | _ => cases h
  | permissionDenied a =>
      cases b with
      | permissionDenied b => exact PermissionDenied.event_inj
      | _ => cases h
  | acl a =>
      cases b with
      | acl b => exact ACL.event_inj
      | _ => cases h
  | queryUsers a =>
      cases b with
      | queryUsers b => exact QueryUsers.event_inj
      | _ => cases h
  | cryptSetup a =>
      cases b with
      | cryptSetup b => exact CryptSetup.event_inj
      | _ => cases h
  | contextActionModify a =>
      cases b with
      | contextActionModify b => exact ContextActionModify.event_inj
      | _ => cases h
  | userList a =>
      cases b with
      | userList b => exact UserList.event_inj
      | _ => cases h
  | permissionQuery a =>
      cases b with
      | permissionQuery b => exact PermissionQuery.event_inj
      | _ => cases h
  | codecVersion a =>
      cases b with
      | codecVersion b => exact CodecVersion.event_inj
      | _ => cases h
  | userStats a =>
      cases b with
      | userStats b => exact UserStats.event_inj
      | _ => cases h
  | serverConfig a =>
      cases b with
      | serverConfig b => exact ServerConfig.event_inj
      | _ => cases h
  | suggestConfig a =>
      cases b with
      | suggestConfig b => exact SuggestConfig.event_inj
      | _ => cases h
  | pluginData a =>
      cases b with
      | pluginData b => exact PluginDataTransmission.event_inj
      | _ => cases h

theorem Message.Alike.index {a b : Message} (h : a.Alike client b) : a.index = b.index := by
  cases a <;> cases b <;> first | rfl | exact h.elim

/-- The last call is the one for the message. -/
theorem getLast?_told (client : MumbleClient) (message : Message) :
    (message.told client).getLast? =
      some ⟨(packetHandler client message).hook, message.event client⟩ := by
  unfold Message.told
  exact List.getLast?_concat

/-- What is told before it is told of a CryptSetup, all of which is told again. -/
theorem Message.told_inj {a b : Message} : a.told client = b.told client ↔ a.Alike client b := by
  constructor
  · intro h
    have hlast := congrArg List.getLast? h
    rw [getLast?_told, getLast?_told, Option.some.injEq, Told.mk.injEq] at hlast
    exact (Message.event_inj (index_of_hook hlast.1)).mp hlast.2
  · intro h
    have hindex := h.index
    have hevent := (Message.event_inj hindex).mpr h
    have hhook : (packetHandler client a).hook = (packetHandler client b).hook := by
      have hname := hook_eq client a
      rw [hindex, hook_eq client b] at hname
      exact (Option.some.inj hname).symm
    by_cases hcrypt : ∃ crypt, a = .cryptSetup crypt
    · obtain ⟨crypt, rfl⟩ := hcrypt
      cases b with
      | cryptSetup other =>
          have hsame : crypt = other := h
          rw [hsame]
      | _ => cases hindex
    · have halone {message : Message} (hindex : message.index ≠ 8) : message.told client =
          [⟨(packetHandler client message).hook, message.event client⟩] := by
        cases message with
        | cryptSetup crypt => exact absurd rfl hindex
        | _ => rfl
      have ha : a.index ≠ 8 := by
        intro h
        cases a with
        | cryptSetup crypt => exact hcrypt ⟨crypt, rfl⟩
        | _ => cases h
      rw [halone ha, halone (hindex ▸ ha), hhook, hevent]

end Messages

/-- The callbacks find the same in two calls, whatever the tables are. -/
def Seen.Same (seen seen' : Seen) : Prop :=
  seen.hook = seen'.hook ∧ ∃ t, Represents seen.tables seen.next t seen.first seen.argument ∧
    Represents seen'.tables seen'.next t seen'.first seen'.argument

theorem Tells.same_iff {told told' : Told} {seen seen' : Seen} (h : Tells told seen)
    (h' : Tells told' seen') : seen.Same seen' ↔ told = told' := by
  constructor
  · rintro ⟨hhook, t, ht, ht'⟩
    rw [h.hook, h'.hook] at hhook
    have hevent : told.event = told'.event :=
      (ht.unique h.event).symm.trans (ht'.unique h'.event)
    exact Told.mk.injEq .. ▸ ⟨hhook, hevent⟩
  · rintro rfl
    exact ⟨h.hook.trans h'.hook.symm, told.event, h.event, h'.event⟩

/-- The same calls, one after the other. By induction on the calls. -/
theorem same_calls_iff {calls calls' : List Told} {seen seen' : List Seen}
    (h : List.Forall₂ Tells calls seen) (h' : List.Forall₂ Tells calls' seen') :
    List.Forall₂ Seen.Same seen seen' ↔ calls = calls' := by
  induction h generalizing calls' seen' with
  | nil =>
      cases h' with
      | nil => simp
      | cons => simp
  | cons hfirst _ ih =>
      cases h' with
      | nil => simp
      | cons hfirst' hrest' =>
          rw [List.forall₂_cons, hfirst.same_iff hfirst', ih hrest', List.cons.injEq]

/-- An ACL with one entry, for the user with the id. -/
def grantTo (userId : UInt32) : Message :=
  .acl ⟨0, none, [], [⟨none, none, none, some userId, none, some 1, none⟩], none⟩

def noClient : MumbleClient where
  integers := false
  users := fun _ => none
  channels := fun _ => none
  udpPingAvg := 0
  udpPingVar := 0
  now := 0
  inetNtop := fun _ _ => none
  cryptIsValid := fun _ => false
  pingTcp := fun _ => ⟨0, 0, 0, 0, 0, 0, 0, 0, 0, 0, 0⟩
  pingUdp := fun _ => none

def emptyLua : Lua Object := ⟨[], fun _ _ => .scalar .nil, 0⟩

end LuaMumble.Packet
