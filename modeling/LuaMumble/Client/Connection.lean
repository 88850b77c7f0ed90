import LuaMumble.Lib.Machine
import LuaMumble.Voice.UdpPing

/-!
What a client knows of its connection: whether it is synced, whether voice goes through the TCP
tunnel, and whether the server is an old one. The members get their values in
`mumble_client_new` and from the packets of a server; `connect` and `mumble_disconnect` only
write `connecting` and `connected`. A client that connects again keeps the rest.
-/

namespace LuaMumble.Client.Connection

open Lib

/-- `pinging` counts the calls of `mumble_ping_udp` whose hook is not over. -/
structure MumbleClient where
  versionMajor : UInt64
  versionMinor : UInt64
  connecting : Bool
  connected : Bool
  synced : Bool
  legacy : Bool
  tcpUdpTunnel : Bool
  udpPingAcc : UInt8
  pinging : Nat

/-- `MUMBLE_LEGACY_CLIENT` -/
def mumbleLegacyClient (versionMajor versionMinor : UInt64) : Bool :=
  decide (versionMajor ≤ 1) && decide (versionMinor < 5)

/-- `mumble_client_new` -/
def mumbleClientNew (versionMajor versionMinor : UInt64) : MumbleClient :=
  { versionMajor := versionMajor
    versionMinor := versionMinor
    connecting := false
    connected := false
    synced := false
    legacy := mumbleLegacyClient versionMajor versionMinor
    tcpUdpTunnel := true
    udpPingAcc := 0
    pinging := 0 }

/-- What happens to the connection. A packet is one that was unpacked; a version packet comes
with `version_v2` or without it. Each event is what runs before a hook is called, or behind it:
what a hook does are the events in between. -/
inductive Event where
  | connect
  | handshake (ok : Bool)
  | version (versionV2 : Option UInt64)
  | serverSync
  | ping (cryptIsValid : Bool)
  | pingHookReturned
  | pong (udp : Bool)
  | disconnect
  deriving DecidableEq

namespace MumbleClient

/-- The end of a `mumble_client_connect` that succeeds. -/
def mumbleClientConnect (client : MumbleClient) : MumbleClient :=
  { client with connecting := true }

/-- `socket_write_event_tcp` at the end of the handshake; where it failed the handles are
closed. -/
def socketWriteEventTcp (client : MumbleClient) (ok : Bool) : MumbleClient :=
  if client.connecting && !client.connected && ok then { client with connected := true }
  else client

/-- `packet_server_version` -/
def packetServerVersion (client : MumbleClient) (versionV2 : Option UInt64) : MumbleClient :=
  if versionV2.isSome then client
  else if client.legacy then client
  else { client with legacy := true }

/-- `packet_server_sync` -/
def packetServerSync (client : MumbleClient) : MumbleClient :=
  { client with synced := true }

/-- `mumble_ping_udp` up to its hook -/
def mumblePingUdp (client : MumbleClient) (cryptIsValid : Bool) : MumbleClient :=
  if cryptIsValid then
    let client :=
      if Voice.udpTcpFallback ≤ client.udpPingAcc && !client.tcpUdpTunnel then
        { client with tcpUdpTunnel := true }
      else client
    { client with pinging := client.pinging + 1 }
  else client

/-- `mumble_ping_udp` behind its hook -/
def pingHookReturned (client : MumbleClient) : MumbleClient :=
  if 0 < client.pinging then
    { client with udpPingAcc := client.udpPingAcc + 1, pinging := client.pinging - 1 }
  else client

/-- `mumble_update_ping_udp`, for a reply by UDP or through the tunnel. -/
def mumbleUpdatePingUdp (client : MumbleClient) (udp : Bool) : MumbleClient :=
  let client :=
    if client.tcpUdpTunnel && udp then { client with tcpUdpTunnel := false } else client
  { client with udpPingAcc := 0 }

/-- `mumble_disconnect` -/
def mumbleDisconnect (client : MumbleClient) : MumbleClient :=
  if client.connecting then { client with connecting := false, connected := false } else client

def handle (client : MumbleClient) : Event → MumbleClient
  | .connect => client.mumbleClientConnect
  | .handshake ok => client.socketWriteEventTcp ok
  | .version versionV2 => client.packetServerVersion versionV2
  | .serverSync => client.packetServerSync
  | .ping cryptIsValid => client.mumblePingUdp cryptIsValid
  | .pingHookReturned => client.pingHookReturned
  | .pong udp => client.mumbleUpdatePingUdp udp
  | .disconnect => client.mumbleDisconnect

end MumbleClient

/-- The client, and what has happened to it, the last event first. -/
structure State where
  client : MumbleClient
  past : List Event

def created (versionMajor versionMinor : UInt64) : State :=
  { client := mumbleClientNew versionMajor versionMinor
    past := [] }

def step (s : State) (e : Event) : Unit × State :=
  ((), { client := s.client.handle e
         past := e :: s.past })

/-- What has happened since the most recent `connect`. -/
def State.since (s : State) : List Event :=
  s.past.takeWhile (· ≠ .connect)

/-- The members tell of this connection only. Where it has brought no version packet, `legacy`
is what it is in a client that was never connected. -/
structure Scoped (s : State) : Prop where
  synced : s.client.synced = true → .serverSync ∈ s.since
  tunnel : .pong true ∉ s.since → s.client.tcpUdpTunnel = true
  legacy : (∀ versionV2, .version versionV2 ∉ s.since) →
    s.client.legacy = mumbleLegacyClient s.client.versionMajor s.client.versionMinor

/-- The calls of `mumble_ping_udp` that sent a ping and whose hook is not over. -/
def pending : List Event → Nat
  | [] => 0
  | .ping true :: past => pending past + 1
  | .pingHookReturned :: past => pending past - 1
  | _ :: past => pending past

/-- The pings that came to their end since the last reply. -/
def unanswered : List Event → Nat
  | [] => 0
  | .pong _ :: _ => 0
  | .pingHookReturned :: past =>
      if 0 < pending past then unanswered past + 1 else unanswered past
  | _ :: past => unanswered past

/-- Behind every reply by UDP came a ping that found `UDP_TCP_FALLBACK` of them unanswered, as
eight bits count them. -/
def BackInTunnel (past : List Event) : Prop :=
  ∀ later before, past = later ++ .pong true :: before →
    ∃ after between, later = after ++ .ping true :: between ∧
      Voice.udpTcpFallback.toNat ≤ unanswered (between ++ .pong true :: before) % 256

/-- What an earlier connection may have brought when a client connects: no `ServerSync`, no
version packet without `version_v2` unless the client is legacy by its own version, and no reply
by UDP since the tunnel was last taken up. -/
def ConnectsAsNew (s : State) : Event → Prop
  | .connect =>
      .serverSync ∉ s.past ∧
        (mumbleLegacyClient s.client.versionMajor s.client.versionMinor = true ∨
          .version none ∉ s.past) ∧
        BackInTunnel s.past
  | _ => True

section Members

/-! What the members tell of the past, over all connections. -/

theorem backInTunnel_nil : BackInTunnel [] := by
  intro later before hpast
  simp at hpast

/-- A reply by UDP leaves the tunnel, and a ping may take it up again. -/
theorem backInTunnel_cons_iff (e : Event) (past : List Event) :
    BackInTunnel (e :: past) ↔ e ≠ .pong true ∧
      (BackInTunnel past ∨
        (e = .ping true ∧ Voice.udpTcpFallback.toNat ≤ unanswered past % 256)) := by
  constructor
  · intro h
    constructor
    · rintro rfl
      obtain ⟨after, between, hnil, -⟩ := h [] past rfl
      simp at hnil
    · by_cases htakes : e = .ping true ∧ Voice.udpTcpFallback.toNat ≤ unanswered past % 256
      · exact Or.inr htakes
      · refine Or.inl ?_
        rintro later before rfl
        obtain ⟨after, between, hlater, hmany⟩ := h (e :: later) before rfl
        cases after with
        | nil =>
            obtain ⟨rfl, rfl⟩ := List.cons.inj hlater
            exact (htakes ⟨rfl, hmany⟩).elim
        | cons first rest =>
            obtain ⟨rfl, rfl⟩ := List.cons.inj hlater
            exact ⟨rest, between, rfl, hmany⟩
  · rintro ⟨hne, hback⟩ later before hpast
    cases later with
    | nil => exact (hne (List.cons.inj hpast).1).elim
    | cons first rest =>
        obtain ⟨rfl, rfl⟩ := List.cons.inj hpast
        rcases hback with hback | ⟨rfl, hmany⟩
        · obtain ⟨after, between, rfl, hmany⟩ := hback rest before rfl
          exact ⟨e :: after, between, rfl, hmany⟩
        · exact ⟨[], rest, rfl, hmany⟩

/-- The members as the past has left them. -/
structure Told (s : State) : Prop where
  synced : s.client.synced = true ↔ .serverSync ∈ s.past
  legacy : s.client.legacy = true ↔
    mumbleLegacyClient s.client.versionMajor s.client.versionMinor = true ∨
      .version none ∈ s.past
  tunnel : s.client.tcpUdpTunnel = true ↔ BackInTunnel s.past
  pinging : s.client.pinging = pending s.past
  udpPingAcc : s.client.udpPingAcc.toNat = unanswered s.past % 256

theorem told_created (versionMajor versionMinor : UInt64) :
    Told (created versionMajor versionMinor) :=
  ⟨by simp [created, mumbleClientNew], by simp [created, mumbleClientNew],
    iff_of_true rfl backInTunnel_nil, rfl, rfl⟩

theorem toNat_succ {pings : UInt8} {count : Nat} (h : pings.toNat = count % 256) :
    (pings + 1).toNat = (count + 1) % 256 := by
  rw [UInt8.toNat_add, h]
  change (count % 256 + 1) % 256 = _
  omega

/-- What an event does to the members. -/
structure Handled (client client' : MumbleClient) (e : Event) : Prop where
  versionMajor : client'.versionMajor = client.versionMajor
  versionMinor : client'.versionMinor = client.versionMinor
  synced : client'.synced = true ↔ client.synced = true ∨ e = .serverSync
  legacy : client'.legacy = true ↔ client.legacy = true ∨ e = .version none
  tunnel : client'.tcpUdpTunnel = true ↔ e ≠ .pong true ∧
    (client.tcpUdpTunnel = true ∨ (e = .ping true ∧ Voice.udpTcpFallback ≤ client.udpPingAcc))
  pinging : client'.pinging =
    if e = .ping true then client.pinging + 1
    else if e = .pingHookReturned then client.pinging - 1
    else client.pinging
  udpPingAcc : client'.udpPingAcc =
    if e = .pong true ∨ e = .pong false then 0
    else if e = .pingHookReturned ∧ 0 < client.pinging then client.udpPingAcc + 1
    else client.udpPingAcc

/-- An event that is for none of the members. -/
theorem handled_of_same {client client' : MumbleClient} {e : Event}
    (hother : e ≠ .serverSync ∧ e ≠ .version none ∧ e ≠ .pong true ∧ e ≠ .pong false ∧
      e ≠ .ping true ∧ e ≠ .pingHookReturned)
    (hsame : client' = { client with
      connecting := client'.connecting, connected := client'.connected }) :
    Handled client client' e := by
  obtain ⟨hsync, hversion, hudp, htcp, hping, hreturned⟩ := hother
  rw [hsame]
  exact ⟨rfl, rfl, by simp [hsync], by simp [hversion], by simp [hudp, hping],
    by simp [hping, hreturned], by simp [hudp, htcp, hreturned]⟩

theorem handled_handle (client : MumbleClient) (e : Event) :
    Handled client (client.handle e) e := by
  cases e with
  | connect => exact handled_of_same (by simp) rfl
  | handshake ok =>
      refine handled_of_same (by simp) ?_
      simp only [MumbleClient.handle, MumbleClient.socketWriteEventTcp]
      split
      · rfl
      · rfl
  | version versionV2 =>
      cases versionV2 with
      | some version => exact handled_of_same (by simp) rfl
      | none =>
          refine ⟨?_, ?_, ?_, ?_, ?_, ?_, ?_⟩
          all_goals
            cases hlegacy : client.legacy <;>
              simp [MumbleClient.handle, MumbleClient.packetServerVersion, hlegacy]
  | serverSync =>
      refine ⟨rfl, rfl, ?_, ?_, ?_, ?_, ?_⟩ <;>
        simp [MumbleClient.handle, MumbleClient.packetServerSync]
  | ping cryptIsValid =>
      cases cryptIsValid with
      | false => exact handled_of_same (by simp) rfl
      | true =>
          refine ⟨?_, ?_, ?_, ?_, ?_, ?_, ?_⟩
          all_goals
            cases htunnel : client.tcpUdpTunnel <;>
              by_cases hmany : Voice.udpTcpFallback ≤ client.udpPingAcc <;>
                simp [MumbleClient.handle, MumbleClient.mumblePingUdp, htunnel, hmany]
  | pingHookReturned =>
      refine ⟨?_, ?_, ?_, ?_, ?_, ?_, ?_⟩
      all_goals
        rcases Nat.eq_zero_or_pos client.pinging with hpinging | hpinging <;>
          simp [MumbleClient.handle, MumbleClient.pingHookReturned, hpinging]
  | pong udp =>
      refine ⟨?_, ?_, ?_, ?_, ?_, ?_, ?_⟩
      all_goals
        cases udp <;> cases htunnel : client.tcpUdpTunnel <;>
          simp [MumbleClient.handle, MumbleClient.mumbleUpdatePingUdp, htunnel]
  | disconnect =>
      refine handled_of_same (by simp) ?_
      simp only [MumbleClient.handle, MumbleClient.mumbleDisconnect]
      split
      · rfl
      · rfl

theorem pending_cons (e : Event) (past : List Event) :
    pending (e :: past) =
      if e = .ping true then pending past + 1
      else if e = .pingHookReturned then pending past - 1
      else pending past := by
  cases e with
  | ping cryptIsValid => cases cryptIsValid <;> rfl
  | _ => rfl

theorem unanswered_cons (e : Event) (past : List Event) :
    unanswered (e :: past) =
      if e = .pong true ∨ e = .pong false then 0
      else if e = .pingHookReturned ∧ 0 < pending past then unanswered past + 1
      else unanswered past := by
  cases e with
  | pong udp => cases udp <;> rfl
  | pingHookReturned => simp [unanswered]
  | _ => simp [unanswered]

theorem Told.step {s : State} (h : Told s) (e : Event) : Told (step s e).2 := by
  have hhandled := handled_handle s.client e
  refine ⟨?_, ?_, ?_, ?_, ?_⟩
  · change (s.client.handle e).synced = true ↔ .serverSync ∈ e :: s.past
    rw [hhandled.synced, h.synced, List.mem_cons, eq_comm, or_comm]
  · change (s.client.handle e).legacy = true ↔
      mumbleLegacyClient (s.client.handle e).versionMajor (s.client.handle e).versionMinor = true ∨
        .version none ∈ e :: s.past
    rw [hhandled.legacy, h.legacy, hhandled.versionMajor, hhandled.versionMinor, List.mem_cons,
      or_assoc, or_comm (b := e = .version none), @eq_comm _ e]
  · change (s.client.handle e).tcpUdpTunnel = true ↔ BackInTunnel (e :: s.past)
    rw [hhandled.tunnel, h.tunnel, backInTunnel_cons_iff, UInt8.le_iff_toNat_le, h.udpPingAcc]
  · change (s.client.handle e).pinging = pending (e :: s.past)
    rw [hhandled.pinging, h.pinging, pending_cons]
  · change (s.client.handle e).udpPingAcc.toNat = unanswered (e :: s.past) % 256
    rw [hhandled.udpPingAcc, h.pinging, unanswered_cons]
    split_ifs
    · rfl
    · exact toNat_succ h.udpPingAcc
    · exact h.udpPingAcc

end Members

/-- Between two calls of `connect` the members follow what the connection brings. -/
theorem Scoped.handled {s : State} (h : Scoped s) {e : Event} (hother : e ≠ .connect) :
    Scoped (step s e).2 := by
  have hhandled := handled_handle s.client e
  have hsince : (step s e).2.since = e :: s.since := by
    simp [step, State.since, hother]
  refine ⟨?_, ?_, ?_⟩
  · intro hsynced
    rw [hsince]
    rcases hhandled.synced.mp hsynced with hbefore | rfl
    · exact List.mem_cons_of_mem _ (h.synced hbefore)
    · exact List.mem_cons_self
  · intro hnone
    rw [hsince, List.mem_cons, not_or] at hnone
    exact hhandled.tunnel.mpr ⟨fun heq => hnone.1 heq.symm, Or.inl (h.tunnel hnone.2)⟩
  · intro hnone
    rw [hsince] at hnone
    have hbefore := h.legacy fun versionV2 hmem => hnone versionV2 (List.mem_cons_of_mem _ hmem)
    have hversion : e ≠ .version none := by
      rintro rfl
      exact hnone none List.mem_cons_self
    have hsame : (s.client.handle e).legacy = s.client.legacy := by
      rw [Bool.eq_iff_iff, hhandled.legacy, or_iff_left hversion]
    change (s.client.handle e).legacy =
      mumbleLegacyClient (s.client.handle e).versionMajor (s.client.handle e).versionMinor
    rw [hhandled.versionMajor, hhandled.versionMinor, hsame, hbefore]

/-- `connect` leaves the members as they are. -/
theorem scoped_connect_iff (s : State) : Scoped (step s .connect).2 ↔
    s.client.synced = false ∧
      s.client.legacy = mumbleLegacyClient s.client.versionMajor s.client.versionMinor ∧
      s.client.tcpUdpTunnel = true := by
  have hsince : (step s .connect).2.since = [] := rfl
  constructor
  · intro h
    refine ⟨?_, h.legacy ?_, h.tunnel ?_⟩
    · apply Bool.eq_false_iff.mpr
      intro hsynced
      have hmem := h.synced hsynced
      rw [hsince] at hmem
      cases hmem
    · rw [hsince]
      intro versionV2 hmem
      cases hmem
    · rw [hsince]
      intro hmem
      cases hmem
  · rintro ⟨hsynced, hlegacy, htunnel⟩
    refine ⟨?_, fun _ => htunnel, fun _ => hlegacy⟩
    intro hafter
    change s.client.synced = true at hafter
    rw [hsynced] at hafter
    cases hafter

/-- The members are as `mumble_client_new` sets them just when no earlier connection has left
them otherwise. -/
theorem Told.connectsAsNew_iff {s : State} (h : Told s) : ConnectsAsNew s .connect ↔
    s.client.synced = false ∧
      s.client.legacy = mumbleLegacyClient s.client.versionMajor s.client.versionMinor ∧
      s.client.tcpUdpTunnel = true := by
  rw [ConnectsAsNew, ← h.synced, ← h.tunnel, Bool.not_eq_true]
  refine and_congr_right fun _ => and_congr_left fun _ => ?_
  have hsame : s.client.legacy = mumbleLegacyClient s.client.versionMajor s.client.versionMinor ↔
      (s.client.legacy = true ↔
        mumbleLegacyClient s.client.versionMajor s.client.versionMinor = true) :=
    Bool.eq_iff_iff
  rw [hsame, h.legacy]
  tauto

theorem scoped_step_iff {s : State} (htold : Told s) (h : Scoped s) (e : Event) :
    Scoped (step s e).2 ↔ ConnectsAsNew s e := by
  by_cases hconnect : e = .connect
  · subst hconnect
    rw [scoped_connect_iff, htold.connectsAsNew_iff]
  · refine iff_of_true (h.handled hconnect) ?_
    cases e with
    | connect => exact (hconnect rfl).elim
    | _ => trivial

theorem scoped_created (versionMajor versionMinor : UInt64) :
    Scoped (created versionMajor versionMinor) := by
  refine ⟨?_, fun _ => rfl, fun _ => rfl⟩
  intro hsynced
  cases hsynced

/-- For every run of a client: after every event its members tell of this connection only, just
when at each `connect` no earlier connection has left them otherwise than
`mumble_client_new`. -/
theorem connection_scoped_iff (versionMajor versionMinor : UInt64) (events : List Event) :
    (∀ n ≤ events.length,
        Scoped (Machine.final step (created versionMajor versionMinor) (events.take n))) ↔
      Machine.Along step ConnectsAsNew (created versionMajor versionMinor) events :=
  Machine.holds_along_iff_of_invariant step Told Scoped (fun _ e htold _ => htold.step e)
    (fun _ e htold h => scoped_step_iff htold h e) _ events
    (told_created versionMajor versionMinor) (scoped_created versionMajor versionMinor)

/-- The second connection begins synced, without the tunnel, and in legacy mode. -/
theorem reconnect_not_reset :
    ¬ ∀ (versionMajor versionMinor : UInt64) (events : List Event),
      Scoped (Machine.final step (created versionMajor versionMinor) events) := by
  intro h
  have hscoped := h 1 5
    [.connect, .handshake true, .version none, .serverSync, .pong true, .disconnect, .connect]
  exact absurd (hscoped.synced rfl) (by decide)

end LuaMumble.Client.Connection
