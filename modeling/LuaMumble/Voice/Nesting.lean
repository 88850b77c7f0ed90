import LuaMumble.Lib.Machine
import LuaMumble.Voice.Bounds

/-!
The voice packets of one session, in the steps between their hooks. A script that is called
by a hook may have the next packet handled there, as `client:transmit` does with a packet of
the client itself: the handler that called the hook goes on behind it, with the values that it
had computed before.
-/

namespace LuaMumble.Voice

open Lib Lib.TracedRead

/-- `OnUserStartSpeaking`, `OnUserSpeak` and `OnUserStopSpeaking`, of one user. -/
inductive SpeakingEvent where
  | start
  | speak
  | stop
  deriving DecidableEq

/-- A voice packet as it reaches `mumble_handle_speaking_hooks_legacy` or
`mumble_handle_speaking_hooks_protobuf`. `opus_data.data` is NULL, if `dataNull`, in a message
that was received without a payload; a script hands on a pointer. -/
inductive VoicePacket where
  | legacy (buffer : Memory) (codec target : UInt8)
  | protobuf (audio : Audio) (dataNull : Bool)

namespace VoicePacket

/-- `speaking`, as the two functions find it in the packet. -/
def speaking : VoicePacket → Bool
  | .legacy buffer codec _ =>
      let sequence : Traced Action (UInt64 × Nat) := utilGetVarint 0 0
      let header := readFrameHeader 0 codec (sequence.value buffer).2
      (header.value buffer).speaking
  | .protobuf audio _ => !audio.isTerminator

def dataNull : VoicePacket → Bool
  | .legacy .. => false
  | .protobuf _ dataNull => dataNull

end VoicePacket

/-- `user->speaking`, which is false for a user not yet created. -/
def isSpeaking (client : MumbleClient) (session : UInt32) : Bool :=
  match client.users session with
  | some user => user.speaking
  | none => false

/-- The hook in which the handler of a packet is. -/
inductive Stage where
  | starting
  | speaking
  | stopping
  deriving DecidableEq

/-- A call of one of the two functions, with its local variables. -/
structure Handler where
  number : Nat
  packet : VoicePacket
  oneFrame : Bool
  stateChange : Bool
  stage : Stage

/-- The handlers that are waiting for a hook to return, the innermost first, and how many
packets were handed in. After a NULL access the program is gone. -/
structure Nesting where
  client : MumbleClient
  handlers : List Handler
  packets : Nat
  crashed : Bool

/-- The hooks of the user that a step calls, each with the number of its packet. -/
abbrev Called := List (Nat × SpeakingEvent)

/-- What happens to the user of a session: a packet of it is handed in, the hook that is being
called returns, and all else, which leaves the user as it is. -/
inductive VoiceEvent (session : UInt32) where
  | packet (packet : VoicePacket)
  | hookReturned
  | elsewhere (change : MumbleClient → MumbleClient)
      (kept : ∀ client, (change client).users session = client.users session)

namespace Nesting

/-- No packet is being handled. -/
def outside (client : MumbleClient) : Nesting where
  client := client
  handlers := []
  packets := 0
  crashed := false

/-- The part of both functions up to `OnUserSpeak`. -/
def onUserSpeak (s : Nesting) (handler : Handler) : Called × Nesting :=
  if handler.packet.dataNull then
    -- `opus_packet_get_nb_channels`
    ([], { s with handlers := [], crashed := true })
  else
    ([(handler.number, .speak)],
      { s with handlers := { handler with stage := .speaking } :: s.handlers })

/-- Behind `OnUserSpeak`. -/
def onUserStopSpeaking (s : Nesting) (handler : Handler) : Called × Nesting :=
  if handler.oneFrame || (handler.stateChange && !handler.packet.speaking) then
    ([(handler.number, .stop)],
      { s with handlers := { handler with stage := .stopping } :: s.handlers })
  else ([], s)

/-- `mumble_handle_speaking_hooks_legacy` and `mumble_handle_speaking_hooks_protobuf`, up to
their first hook. -/
def mumbleHandleSpeakingHooks (session : UInt32) (s : Nesting) (packet : VoicePacket) :
    Called × Nesting :=
  let (user, client) := mumbleUserGet s.client session
  let oneFrame := !user.speaking && !packet.speaking
  let stateChange := user.speaking != packet.speaking
  let client :=
    if stateChange then client.setUser session { user with speaking := packet.speaking }
    else client
  let handler : Handler := ⟨s.packets, packet, oneFrame, stateChange, .starting⟩
  let s := { s with client := client, packets := s.packets + 1 }
  if oneFrame || (stateChange && packet.speaking) then
    ([(handler.number, .start)], { s with handlers := handler :: s.handlers })
  else s.onUserSpeak handler

/-- The innermost handler goes on. -/
def hookReturned (s : Nesting) : Called × Nesting :=
  match s.handlers with
  | [] => ([], s)
  | handler :: rest =>
      let s := { s with handlers := rest }
      match handler.stage with
      | .starting => s.onUserSpeak handler
      | .speaking => s.onUserStopSpeaking handler
      | .stopping => ([], s)

def step (session : UInt32) (s : Nesting) (e : VoiceEvent session) : Called × Nesting :=
  if s.crashed then ([], s)
  else
    match e with
    | .packet packet => s.mumbleHandleSpeakingHooks session packet
    | .hookReturned => s.hookReturned
    | .elsewhere change _ => ([], { s with client := change s.client })

end Nesting

section Alone

/-! A packet in whose hooks no packet of the session is handled: its steps, one after another,
are what the two functions do. -/

/-- The event of a user that a hook is. -/
def speakingEvent (session : UInt32) : Hook → Option SpeakingEvent
  | .onUserStartSpeaking user => if user = session then some .start else none
  | .onUserSpeak event => if event.user = session then some .speak else none
  | .onUserStopSpeaking user => if user = session then some .stop else none
  | .onPongUdp .. => none

def entryEvent (session : UInt32) : Entry Action → Option SpeakingEvent
  | .emit (.hookCall hook) => speakingEvent session hook
  | _ => none

/-- The events of a user in the log of a computation. -/
def eventsIn {A : Type} (session : UInt32) (x : Traced Action A) (mem : Memory) :
    List SpeakingEvent :=
  (x.log mem).filterMap (entryEvent session)

/-- A packet of the session is handled: the events of its user, and the client. -/
def handleVoicePacket (host : Host) (session : UInt32) (client : MumbleClient) :
    VoicePacket → List SpeakingEvent × MumbleClient
  | .legacy buffer codec target =>
      let x := mumbleHandleSpeakingHooksLegacy host client 0 codec target session
      (eventsIn session x buffer, x.value buffer)
  | .protobuf audio _ =>
      let x := mumbleHandleSpeakingHooksProtobuf host client audio session
      (eventsIn session x fun _ => 0, x.value fun _ => 0)

/-- The callbacks of the hooks leave the user as it is. -/
def KeepsSpeaker (host : Host) (session : UInt32) : Prop :=
  ∀ client hook, (host.callbacks client hook).users session = client.users session

section Events

variable {A B : Type} {session : UInt32} {mem : Memory}

theorem eventsIn_bind (x : Traced Action A) (f : A → Traced Action B) :
    eventsIn session (x >>= f) mem =
      eventsIn session x mem ++ eventsIn session (f (x.value mem)) mem := by
  rw [eventsIn, log_bind, List.filterMap_append]
  rfl

/-- Reading bytes fires no hook. -/
def NoHook : Entry Action → Prop
  | .emit _ => False
  | _ => True

theorem eventsIn_of_noHook {x : Traced Action A} (h : Always NoHook x mem) :
    eventsIn session x mem = [] := by
  rw [eventsIn, List.filterMap_eq_nil_iff]
  intro entry hentry
  have hnone := h entry hentry
  cases entry with
  | read index => rfl
  | slice start length => rfl
  | emit action => exact hnone.elim

@[simp] theorem eventsIn_pure (a : A) : eventsIn session (pure a : Traced Action A) mem = [] := rfl

@[simp] theorem eventsIn_pointer (start : Nat) :
    eventsIn session (pointer start : Traced Action Memory) mem = [] := rfl

@[simp] theorem eventsIn_slice (start length : Nat) :
    eventsIn session (slice start length : Traced Action (List UInt8)) mem = [] := rfl

@[simp] theorem eventsIn_record (user : UInt32) (encoded : List UInt8) :
    eventsIn session (emit (.handleRecord user encoded)) mem = [] := rfl

@[simp] theorem eventsIn_silence (user : UInt32) :
    eventsIn session (emit (.handleRecordSilence user)) mem = [] := rfl

@[simp] theorem eventsIn_hookCall (host : Host) (client : MumbleClient) (hook : Hook) :
    eventsIn session (mumbleHookCall host client hook) mem =
      (speakingEvent session hook).toList := by
  have hlog : eventsIn session (mumbleHookCall host client hook) mem =
      [Entry.emit (Action.hookCall hook)].filterMap (entryEvent session) := rfl
  rw [hlog]
  cases h : speakingEvent session hook with
  | none => simp [entryEvent, h]
  | some event => simp [entryEvent, h]

@[simp] theorem eventsIn_utilGetVarint (buffer len : Nat) :
    eventsIn session (utilGetVarint buffer len) mem = [] := by
  apply eventsIn_of_noHook
  rw [always_utilGetVarint]
  intro i _
  trivial

@[simp] theorem eventsIn_readFrameHeader (buffer : Nat) (codec : UInt8) (read : Nat) :
    eventsIn session (readFrameHeader buffer codec read) mem = [] := by
  unfold readFrameHeader
  split_ifs
  · rw [eventsIn_bind]
    rfl
  · rw [eventsIn_bind, eventsIn_utilGetVarint]
    rfl
  · rfl

end Events

/-- `mumble_user_get` finds the user, or creates one who does not speak. -/
theorem userGet_spec (client : MumbleClient) (session : UInt32) :
    (mumbleUserGet client session).2.users session = some (mumbleUserGet client session).1 ∧
      (mumbleUserGet client session).1.speaking = isSpeaking client session := by
  unfold mumbleUserGet isSpeaking
  cases huser : client.users session with
  | some user => exact ⟨huser, rfl⟩
  | none => exact ⟨by simp [MumbleClient.setUser], rfl⟩


section Agreement

variable {host : Host} {client : MumbleClient} {session : UInt32} {mem : Memory}

@[simp] theorem value_hookCall (hook : Hook) :
    (mumbleHookCall host client hook).value mem = host.callbacks client hook := rfl

/-- The callbacks of a hook run and return. -/
def returning (hhost : KeepsSpeaker host session) (hook : Hook) : List (VoiceEvent session) :=
  [.elsewhere (fun client => host.callbacks client hook) (fun client => hhost client hook),
    .hookReturned]

/-- No packet of the session is handed in. -/
def NoPacket (events : List (VoiceEvent session)) : Prop :=
  ∀ packet, .packet packet ∉ events

theorem noPacket_returning (hhost : KeepsSpeaker host session) (hook : Hook) :
    NoPacket (returning hhost hook) := by
  intro packet hmem
  simp [returning] at hmem

theorem NoPacket.append {events later : List (VoiceEvent session)} (h : NoPacket events)
    (hlater : NoPacket later) : NoPacket (events ++ later) := by
  intro packet hmem
  rcases List.mem_append.mp hmem with hin | hin
  · exact h packet hin
  · exact hlater packet hin

/-- The steps of a packet come to the events `called` and leave the client `after`. -/
def StepsTo (session : UInt32) (client : MumbleClient) (packet : VoicePacket)
    (called : List SpeakingEvent) (after : MumbleClient) : Prop :=
  ∃ rest : List (VoiceEvent session), NoPacket rest ∧
    let events := .packet packet :: rest
    let last := Machine.final (Nesting.step session) (Nesting.outside client) events
    (Machine.outputs (Nesting.step session) (Nesting.outside client) events).flatten.map Prod.snd =
        called ∧
      last.client = after ∧ last.handlers = []

/-- The common end of the two functions is the steps of the packet. -/
theorem speakingHooks_steps (hhost : KeepsSpeaker host session) (packet : VoicePacket)
    (hnull : packet.dataNull = false) (data : Traced Action (List UInt8))
    (opus : Traced Action OpusPacket) {event : List UInt8 → OpusPacket → UserSpeak}
    (hdata : eventsIn session data mem = []) (hopus : eventsIn session opus mem = [])
    (hevent : ∀ encoded numbers, (event encoded numbers).user = session) :
    let x := speakingHooks host (mumbleUserGet client session).2 session
      (mumbleUserGet client session).1 packet.speaking data opus event
    StepsTo session client packet (eventsIn session x mem) (x.value mem) := by
  intro x
  let start := returning hhost (.onUserStartSpeaking session)
  let speak := returning hhost (.onUserSpeak (event (data.value mem) (opus.value mem)))
  let stop := returning hhost (.onUserStopSpeaking session)
  have hstart : NoPacket start := noPacket_returning hhost _
  have hspeak : NoPacket speak := noPacket_returning hhost _
  have hstop : NoPacket stop := noPacket_returning hhost _
  cases hwas : (mumbleUserGet client session).1.speaking with
  | false =>
      cases hspeaking : packet.speaking with
      | false =>
          -- a packet that is a whole utterance
          refine ⟨start ++ speak ++ stop, (hstart.append hspeak).append hstop, ?_⟩
          simp [x, start, speak, stop, returning, speakingHooks, eventsIn_bind, hdata, hopus,
            hevent, speakingEvent, hwas, hspeaking, hnull, Machine.outputs, Machine.final,
            Nesting.step, Nesting.outside, Nesting.mumbleHandleSpeakingHooks,
            Nesting.hookReturned, Nesting.onUserSpeak, Nesting.onUserStopSpeaking]
      | true =>
          refine ⟨start ++ speak, hstart.append hspeak, ?_⟩
          simp [x, start, speak, returning, speakingHooks, eventsIn_bind, hdata, hopus,
            hevent, speakingEvent, hwas, hspeaking, hnull, Machine.outputs, Machine.final,
            Nesting.step, Nesting.outside, Nesting.mumbleHandleSpeakingHooks,
            Nesting.hookReturned, Nesting.onUserSpeak, Nesting.onUserStopSpeaking]
  | true =>
      cases hspeaking : packet.speaking with
      | false =>
          refine ⟨speak ++ stop, hspeak.append hstop, ?_⟩
          simp [x, speak, stop, returning, speakingHooks, eventsIn_bind, hdata, hopus,
            hevent, speakingEvent, hwas, hspeaking, hnull, Machine.outputs, Machine.final,
            Nesting.step, Nesting.outside, Nesting.mumbleHandleSpeakingHooks,
            Nesting.hookReturned, Nesting.onUserSpeak, Nesting.onUserStopSpeaking]
      | true =>
          refine ⟨speak, hspeak, ?_⟩
          simp [x, speak, returning, speakingHooks, eventsIn_bind, hdata, hopus,
            hevent, speakingEvent, hwas, hspeaking, hnull, Machine.outputs, Machine.final,
            Nesting.step, Nesting.outside, Nesting.mumbleHandleSpeakingHooks,
            Nesting.hookReturned, Nesting.onUserSpeak, Nesting.onUserStopSpeaking]

/-- Both formats: what the functions do with a packet is its steps. -/
theorem handleVoicePacket_steps (hhost : KeepsSpeaker host session) (packet : VoicePacket)
    (hnull : packet.dataNull = false) :
    let handled := handleVoicePacket host session client packet
    StepsTo session client packet handled.1 handled.2 := by
  cases packet with
  | legacy buffer codec target =>
      let read := (Traced.value (utilGetVarint (E := Action) 0 0) buffer).2
      let header := (readFrameHeader 0 codec read).value buffer
      simp only [handleVoicePacket, mumbleHandleSpeakingHooksLegacy, eventsIn_bind,
        eventsIn_utilGetVarint, eventsIn_readFrameHeader, List.nil_append]
      exact speakingHooks_steps hhost (.legacy buffer codec target) rfl
        (slice (0 + header.read) header.payloadLen) (opusPacketGet host (0 + header.read))
        rfl rfl fun _ _ => rfl
  | protobuf audio dataNull =>
      exact speakingHooks_steps hhost (.protobuf audio dataNull) hnull
        (pure audio.opusData) (pure (host.opusPacket (audio.opusData.headD 0)))
        rfl rfl fun _ _ => rfl

end Agreement

end Alone

end LuaMumble.Voice
