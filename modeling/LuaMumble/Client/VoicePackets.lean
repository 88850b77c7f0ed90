import LuaMumble.Client.Announced
import LuaMumble.Voice.Speaking

/-!
The voice packets of the connection are the datagrams that the model of the decoder reads byte
by byte: what it reads as the sender is who is looked up, and created, among the users.
-/

namespace LuaMumble.Client

open Lib.TracedRead

/-- Whose audio the bytes of a packet are read as. -/
def readPacket (host : Voice.Host) (legacy : Bool) (size : Int) (mem : Memory) : UdpPacket :=
  let header := mem 0
  if legacy then
    let id := (header >>> 5) &&& 0x7
    if id = Voice.legacyProtoUdpPing then .other
    else if id = Voice.legacyUdpOpus ∨ id = Voice.legacyUdpSpeex ∨ id = Voice.legacyUdpCeltAlpha ∨
        id = Voice.legacyUdpCeltBeta then
      .audio (Traced.value (Voice.utilGetVarint (E := Voice.Action) 1 1) mem).1.toUInt32
    else .other
  else if header = Voice.protoUdpAudio then
    match host.audioUnpack (size - 1) (fun i => mem (1 + i)) with
    | some audio => .audio audio.senderSession
    | none => .other
  else .other

/-- The client of the decoder has the same users. -/
def SameUsers (decoder : Voice.MumbleClient) (client : MumbleClient) : Prop :=
  ∀ session, (decoder.users session).isSome = (client.users.table session).isSome

/-- The callbacks neither create nor remove a user, for which scripts have no function. -/
def KeepsUsers (host : Voice.Host) : Prop :=
  ∀ decoder hook session,
    ((host.callbacks decoder hook).users session).isSome = (decoder.users session).isSome

variable {host : Voice.Host} {decoder : Voice.MumbleClient} {client : MumbleClient} {mem : Memory}

theorem SameUsers.callback (hhost : KeepsUsers host) (h : SameUsers decoder client)
    (hook : Voice.Hook) : SameUsers ((Voice.mumbleHookCall host decoder hook).value mem) client :=
  fun session => (hhost decoder hook session).trans (h session)

theorem SameUsers.setUser (h : SameUsers decoder client) {session : UInt32}
    (hsome : (client.users.table session).isSome = true) (user : Voice.User) :
    SameUsers (decoder.setUser session user) client := by
  intro other
  simp only [Voice.MumbleClient.setUser]
  split
  · rename_i heq
    rw [heq, hsome]
    rfl
  · exact h other

theorem SameUsers.userGet (h : SameUsers decoder client) (session : UInt32) :
    SameUsers (Voice.mumbleUserGet decoder session).2 (mumbleUserGet client session).2 := by
  intro other
  rw [userGet_isSome, ← h other]
  unfold Voice.mumbleUserGet
  split
  · rename_i user huser
    by_cases heq : other = session
    · simp [heq, huser]
    · simp [heq]
  · by_cases heq : other = session
    · simp [Voice.MumbleClient.setUser, heq]
    · simp [Voice.MumbleClient.setUser, heq]

theorem SameUsers.speakingHooks (hhost : KeepsUsers host) (h : SameUsers decoder client)
    {session : UInt32} (hsome : (client.users.table session).isSome = true) (user : Voice.User)
    (speaking : Bool) (data : Traced Voice.Action (List UInt8))
    (opus : Traced Voice.Action Voice.OpusPacket)
    (event : List UInt8 → Voice.OpusPacket → Voice.UserSpeak) :
    SameUsers ((Voice.speakingHooks host decoder session user speaking data opus event).value mem)
      client := by
  have hset : SameUsers
      (if (user.speaking != speaking) = true then
        decoder.setUser session { user with speaking := speaking } else decoder) client := by
    split
    · exact h.setUser hsome _
    · exact h
  simp only [Voice.speakingHooks, value_bind, value_ite, value_pure]
  split
  · split
    · exact ((hset.callback hhost _).callback hhost _).callback hhost _
    · exact (hset.callback hhost _).callback hhost _
  · split
    · exact (hset.callback hhost _).callback hhost _
    · exact hset.callback hhost _

theorem SameUsers.updatePing (hhost : KeepsUsers host) (h : SameUsers decoder client)
    (timestamp : UInt64) (udp : Bool) :
    SameUsers ((Voice.mumbleUpdatePingUdp host decoder timestamp udp).value mem) client := by
  intro session
  exact (hhost _ _ session).trans (h session)

/-- The user whom the handler of the model looks up is the one that the bytes name. -/
theorem SameUsers.handleUdpPacket (hhost : KeepsUsers host) (h : SameUsers decoder client)
    (size : Int) (udp : Bool) :
    SameUsers ((Voice.mumbleHandleUdpPacket host decoder size udp).value mem)
      (mumbleHandleUdpPacket client (readPacket host decoder.legacy size mem)) := by
  have hspeaks : ∀ session user speaking data opus event,
      SameUsers
        ((Voice.speakingHooks host (Voice.mumbleUserGet decoder session).2 session user speaking
          data opus event).value mem) (mumbleUserGet client session).2 := by
    intro session user speaking data opus event
    exact (h.userGet session).speakingHooks hhost (by simp) user speaking data opus event
  have hpings : ∀ timestamp,
      SameUsers ((Voice.mumbleUpdatePingUdp host decoder timestamp udp).value mem) client :=
    fun timestamp => h.updatePing hhost timestamp udp
  obtain ⟨header, hheader⟩ : ∃ header, mem 0 = header := ⟨_, rfl⟩
  cases hlegacy : decoder.legacy with
  | true =>
      rw [Voice.mumbleHandleUdpPacket, readPacket, value_bind, value_load, hheader, if_pos hlegacy,
        if_pos rfl]
      dsimp only
      rw [value_ite]
      split
      · rw [value_bind]
        exact hpings _
      · rw [value_ite]
        split
        · rw [value_bind]
          exact hspeaks _ _ _ _ _ _
        · exact h
  | false =>
      have hnot : ¬ decoder.legacy = true := Bool.eq_false_iff.mp hlegacy
      rw [Voice.mumbleHandleUdpPacket, readPacket, value_bind, value_load, hheader, if_neg hnot,
        if_neg Bool.false_ne_true, value_bind, value_pointer, value_ite]
      split
      · rw [value_bind]
        cases host.audioUnpack (size - 1) (fun i => mem (1 + i)) with
        | none => exact h
        | some audio => exact hspeaks _ _ _ _ _ _
      · rw [value_ite]
        split
        · rw [value_bind]
          cases host.pingUnpack (size - 1) (fun i => mem (1 + i)) with
          | none => exact h
          | some timestamp => exact hpings timestamp
        · exact h

end LuaMumble.Client
