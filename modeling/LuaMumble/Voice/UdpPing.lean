import LuaMumble.Lib.Machine
import LuaMumble.Voice.Bounds

/-!
When voice goes through the TCP connection. `mumble_ping_udp` counts the pings of
`udp_ping_acc` and falls back to the tunnel when the count reaches `UDP_TCP_FALLBACK`;
`mumble_update_ping_udp` leaves the tunnel on a reply by UDP, and starts the count anew on a
reply by either transport. What is asked of the two counts the pings since the last reply by
UDP.
-/

namespace LuaMumble.Voice

open Lib Lib.TracedRead

/-- How many dropped UDP pings result in falling back to the TCP tunnel. -/
def udpTcpFallback : UInt8 := 2

/-- A host that also has callbacks for `OnPingUDP`, called with the timestamp. -/
structure PingHost extends Host where
  onPingUdp : MumbleClient → UInt64 → MumbleClient

/-- `mumble_ping_udp`; the packet that it sends changes nothing of the client. -/
def mumblePingUdp (host : PingHost) (client : MumbleClient) (cryptIsValid : Bool) :
    MumbleClient :=
  if cryptIsValid then
    let client :=
      if udpTcpFallback ≤ client.udpPingAcc && !client.tcpUdpTunnel then
        { client with tcpUdpTunnel := true }
      else client
    let client := host.onPingUdp client host.hrtime
    { client with udpPingAcc := client.udpPingAcc + 1 }
  else client

/-- A ping round, or a reply by UDP or through the tunnel. -/
inductive PingEvent where
  | ping (cryptIsValid : Bool)
  | pong (timestamp : UInt64) (udp : Bool)

/-- The client, whether a reply came by UDP, and how many pings were sent since the last. -/
structure Pinging where
  client : MumbleClient
  replied : Bool
  sent : Nat

/-- The client before its first ping. -/
def pinging (client : MumbleClient) : Pinging :=
  { client := { client with tcpUdpTunnel := true, udpPingAcc := 0 }
    replied := false
    sent := 0 }

def pingStep (host : PingHost) (s : Pinging) : PingEvent → Unit × Pinging
  | .ping cryptIsValid =>
      ((), { s with
        client := mumblePingUdp host s.client cryptIsValid
        sent := if cryptIsValid then s.sent + 1 else s.sent })
  | .pong timestamp udp =>
      ((), { client :=
              (mumbleUpdatePingUdp host.toHost s.client timestamp udp).value fun _ => 0
             replied := s.replied || udp
             sent := if udp then 0 else s.sent })

/-- Callbacks cannot write the two members: scripts have no function for it. -/
structure KeepsTransport (host : PingHost) : Prop where
  ping : ∀ client timestamp, (host.onPingUdp client timestamp).tcpUdpTunnel = client.tcpUdpTunnel ∧
    (host.onPingUdp client timestamp).udpPingAcc = client.udpPingAcc
  pong : ∀ client hook, (host.callbacks client hook).tcpUdpTunnel = client.tcpUdpTunnel ∧
    (host.callbacks client hook).udpPingAcc = client.udpPingAcc

/-- Voice goes by UDP only where the server answers by UDP. -/
def Answered (s : Pinging) : Prop :=
  s.client.tcpUdpTunnel = false → s.replied = true ∧ s.sent ≤ 2

/-- The same, and however many pings follow. -/
def StaysAnswered (host : PingHost) (s : Pinging) : Prop :=
  ∀ pings, Answered (Machine.final (pingStep host) s (List.replicate pings (.ping true)))

/-- The tunnel is left only on a reply by UDP. -/
def LeavesOnReply (s : Pinging) (e : PingEvent) (s' : Pinging) : Prop :=
  s.client.tcpUdpTunnel = true → s'.client.tcpUdpTunnel = false →
    ∃ timestamp, e = .pong timestamp true

/-- A reply through the tunnel finds no UDP ping unanswered, unless voice goes through the
tunnel already. -/
def NotMasked (s : Pinging) : PingEvent → Prop
  | .pong _ false => s.client.tcpUdpTunnel = true ∨ s.client.udpPingAcc = 0
  | _ => True

/-- What holds on every run: outside the tunnel the count has not passed the limit, and it
counts no ping that was not sent. -/
structure Pinging.Counted (s : Pinging) : Prop where
  replied : s.client.tcpUdpTunnel = false → s.replied = true
  limit : s.client.tcpUdpTunnel = false → s.client.udpPingAcc.toNat ≤ 2
  sent : s.client.tcpUdpTunnel = false → s.client.udpPingAcc.toNat ≤ s.sent

/-- Outside the tunnel the count misses no ping either. -/
def Pinging.Exact (s : Pinging) : Prop :=
  s.client.tcpUdpTunnel = false → s.sent = s.client.udpPingAcc.toNat

section Steps

variable {host : PingHost} {s : Pinging}

theorem pingStep_invalid : (pingStep host s (.ping false)).2 = s := rfl

/-- A ping leaves the tunnel alone below the limit, and otherwise chooses it. -/
theorem tunnel_ping (hhost : KeepsTransport host) :
    (pingStep host s (.ping true)).2.client.tcpUdpTunnel =
      (s.client.tcpUdpTunnel || decide (udpTcpFallback ≤ s.client.udpPingAcc)) := by
  simp only [pingStep, mumblePingUdp, if_true, (hhost.ping _ _).1]
  split
  · rename_i hfallback
    simp only [Bool.and_eq_true] at hfallback
    rw [hfallback.1, Bool.or_true]
  · rename_i hkeep
    cases htunnel : s.client.tcpUdpTunnel with
    | true => rfl
    | false => simpa [htunnel] using hkeep

theorem acc_ping (hhost : KeepsTransport host) :
    (pingStep host s (.ping true)).2.client.udpPingAcc = s.client.udpPingAcc + 1 := by
  simp only [pingStep, mumblePingUdp, if_true, (hhost.ping _ _).2]
  split <;> rfl

theorem tunnel_pong (hhost : KeepsTransport host) (timestamp : UInt64) (udp : Bool) :
    (pingStep host s (.pong timestamp udp)).2.client.tcpUdpTunnel =
      (s.client.tcpUdpTunnel && !udp) :=
  (hhost.pong _ _).1

theorem acc_pong (hhost : KeepsTransport host) (timestamp : UInt64) (udp : Bool) :
    (pingStep host s (.pong timestamp udp)).2.client.udpPingAcc = 0 :=
  (hhost.pong _ _).2

/-- Outside the tunnel a ping is one that found the count below the limit. -/
theorem ping_below_limit (hhost : KeepsTransport host)
    (htunnel : (pingStep host s (.ping true)).2.client.tcpUdpTunnel = false) :
    s.client.tcpUdpTunnel = false ∧ s.client.udpPingAcc.toNat < 2 ∧
      (pingStep host s (.ping true)).2.client.udpPingAcc.toNat = s.client.udpPingAcc.toNat + 1 := by
  rw [tunnel_ping hhost, Bool.or_eq_false_iff, decide_eq_false_iff_not] at htunnel
  obtain ⟨hsame, hlimit⟩ := htunnel
  have hlt : s.client.udpPingAcc.toNat < 2 := by
    rw [udpTcpFallback, UInt8.le_iff_toNat_le] at hlimit
    simpa using hlimit
  refine ⟨hsame, hlt, ?_⟩
  rw [acc_ping hhost, UInt8.toNat_add]
  simp
  omega

/-- The tunnel is left only on a reply by UDP. -/
theorem leavesOnReply_step (hhost : KeepsTransport host) (e : PingEvent) :
    LeavesOnReply s e (pingStep host s e).2 := by
  intro hbefore hafter
  cases e with
  | ping cryptIsValid =>
      cases cryptIsValid with
      | true =>
          rw [tunnel_ping hhost, hbefore] at hafter
          cases hafter
      | false =>
          rw [pingStep_invalid, hbefore] at hafter
          cases hafter
  | pong timestamp udp =>
      rw [tunnel_pong hhost, hbefore] at hafter
      cases udp with
      | true => exact ⟨timestamp, rfl⟩
      | false => cases hafter

theorem Pinging.Counted.step (hhost : KeepsTransport host) (h : s.Counted) (e : PingEvent) :
    (pingStep host s e).2.Counted := by
  cases e with
  | ping cryptIsValid =>
      cases cryptIsValid with
      | false => exact h
      | true =>
          refine ⟨?_, ?_, ?_⟩
          · intro htunnel
            exact h.replied (ping_below_limit hhost htunnel).1
          · intro htunnel
            obtain ⟨hsame, hlt, hacc⟩ := ping_below_limit hhost htunnel
            rw [hacc]
            exact hlt
          · intro htunnel
            obtain ⟨hsame, hlt, hacc⟩ := ping_below_limit hhost htunnel
            rw [hacc]
            exact Nat.succ_le_succ (h.sent hsame)
  | pong timestamp udp =>
      have hzero := congrArg UInt8.toNat (acc_pong (s := s) hhost timestamp udp)
      refine ⟨?_, ?_, ?_⟩
      · intro htunnel
        rw [tunnel_pong hhost] at htunnel
        cases udp with
        | true => exact Bool.or_true _
        | false =>
            have hreplied := h.replied (by simpa using htunnel)
            exact Bool.or_eq_true_iff.mpr (Or.inl hreplied)
      · intro _
        rw [hzero]
        exact Nat.zero_le _
      · intro _
        rw [hzero]
        exact Nat.zero_le _

/-- One event: the count misses a ping just when a reply through the tunnel hides it. -/
theorem Pinging.Exact.step_iff (hhost : KeepsTransport host) (h : s.Exact) (e : PingEvent) :
    (pingStep host s e).2.Exact ↔ NotMasked s e := by
  cases e with
  | ping cryptIsValid =>
      refine iff_of_true ?_ trivial
      cases cryptIsValid with
      | false => exact h
      | true =>
          intro htunnel
          obtain ⟨hsame, hlt, hacc⟩ := ping_below_limit hhost htunnel
          rw [hacc]
          exact congrArg Nat.succ (h hsame)
  | pong timestamp udp =>
      have hzero := congrArg UInt8.toNat (acc_pong (s := s) hhost timestamp udp)
      cases udp with
      | true => exact iff_of_true (fun _ => hzero.symm) trivial
      | false =>
          simp only [Pinging.Exact, tunnel_pong hhost, hzero, NotMasked, Bool.not_false,
            Bool.and_true]
          cases htunnel : s.client.tcpUdpTunnel with
          | true => exact iff_of_true (fun hfalse => by cases hfalse) (Or.inl rfl)
          | false =>
              have hsent : s.sent = s.client.udpPingAcc.toNat := h htunnel
              constructor
              · intro hexact
                have hnone : s.sent = 0 := hexact rfl
                refine Or.inr (UInt8.toNat_inj.mp ?_)
                rw [← hsent, hnone]
                rfl
              · rintro (hfalse | hacc)
                · cases hfalse
                · intro _
                  show s.sent = 0
                  rw [hsent, hacc]
                  rfl

/-- Below the limit a ping keeps out of the tunnel. -/
theorem ping_keeps_out (hhost : KeepsTransport host) (htunnel : s.client.tcpUdpTunnel = false)
    (hlt : s.client.udpPingAcc.toNat < 2) :
    (pingStep host s (.ping true)).2.client.tcpUdpTunnel = false ∧
      (pingStep host s (.ping true)).2.client.udpPingAcc.toNat =
        s.client.udpPingAcc.toNat + 1 := by
  have hafter : (pingStep host s (.ping true)).2.client.tcpUdpTunnel = false := by
    have hlimit : ¬ udpTcpFallback ≤ s.client.udpPingAcc := by
      rw [udpTcpFallback, UInt8.le_iff_toNat_le]
      simpa using hlt
    rw [tunnel_ping hhost, htunnel, decide_eq_false hlimit]
    rfl
  exact ⟨hafter, (ping_below_limit hhost hafter).2.2⟩

/-- So many unanswered pings keep out of the tunnel as bring the count to the limit. -/
theorem pings_keep_out (hhost : KeepsTransport host) (pings : Nat) :
    ∀ s : Pinging, s.client.tcpUdpTunnel = false → s.client.udpPingAcc.toNat + pings ≤ 2 →
      (Machine.final (pingStep host) s
          (List.replicate pings (.ping true))).client.tcpUdpTunnel = false ∧
        (Machine.final (pingStep host) s (List.replicate pings (.ping true))).sent =
          s.sent + pings := by
  induction pings with
  | zero =>
      intro s htunnel _
      exact ⟨htunnel, rfl⟩
  | succ pings ih =>
      intro s htunnel hlimit
      obtain ⟨hafter, hacc⟩ := ping_keeps_out hhost htunnel (by omega)
      obtain ⟨hout, hsent⟩ := ih (pingStep host s (.ping true)).2 hafter (by omega)
      refine ⟨hout, ?_⟩
      rw [List.replicate_succ, Machine.final, hsent]
      simp only [pingStep, if_true]
      omega

/-- No number of pings breaks the law just when the count misses none. -/
theorem Pinging.Counted.exact_iff (hhost : KeepsTransport host) (h : s.Counted) :
    StaysAnswered host s ↔ s.Exact := by
  constructor
  · intro hanswered htunnel
    have hlimit := h.limit htunnel
    obtain ⟨hout, hsent⟩ := pings_keep_out hhost (2 - s.client.udpPingAcc.toNat) s htunnel
      (by omega)
    have hfew := (hanswered (2 - s.client.udpPingAcc.toNat) hout).2
    have hcounted := h.sent htunnel
    omega
  · intro hexact pings
    induction pings generalizing s with
    | zero =>
        intro htunnel
        have hsent : s.sent = s.client.udpPingAcc.toNat := hexact htunnel
        refine ⟨h.replied htunnel, ?_⟩
        show s.sent ≤ 2
        rw [hsent]
        exact h.limit htunnel
    | succ pings ih =>
        exact ih (h.step hhost (.ping true)) ((hexact.step_iff hhost (.ping true)).mpr trivial)

end Steps

/-- For every sequence of ping rounds and replies: the tunnel is left only on a reply by UDP;
and outside it at most two pings are sent without a reply by UDP, whatever number of pings
follows, just when no reply through the tunnel hides an unanswered ping. -/
theorem udp_answered_iff (host : PingHost) (hhost : KeepsTransport host) (client : MumbleClient)
    (events : List PingEvent) :
    (∀ s e, LeavesOnReply s e (pingStep host s e).2) ∧
      ((∀ n ≤ events.length,
          StaysAnswered host (Machine.final (pingStep host) (pinging client) (events.take n))) ↔
        Machine.Along (pingStep host) NotMasked (pinging client) events) := by
  refine ⟨fun s e => leavesOnReply_step hhost e, ?_⟩
  have hcounted : (pinging client).Counted := by
    refine ⟨?_, ?_, ?_⟩ <;> intro htunnel <;> cases htunnel
  refine Machine.holds_along_iff_of_invariant (pingStep host) Pinging.Counted
    (StaysAnswered host) (fun s e h _ => h.step hhost e) ?_ (pinging client) events hcounted ?_
  · intro s e h hgood
    rw [(h.step hhost e).exact_iff hhost]
    exact Pinging.Exact.step_iff hhost ((h.exact_iff hhost).mp hgood) e
  · rw [hcounted.exact_iff hhost]
    intro htunnel
    cases htunnel

/-- Callbacks that leave the client alone. -/
def quietPingHost : PingHost :=
  { quietHost with onPingUdp := fun client _ => client }

theorem keepsTransport_quiet : KeepsTransport quietPingHost :=
  ⟨fun _ _ => ⟨rfl, rfl⟩, fun _ _ => ⟨rfl, rfl⟩⟩

/-- With replies by UDP only, the law holds. -/
theorem udp_answered_quiet :
    StaysAnswered quietPingHost
      (Machine.final (pingStep quietPingHost) (pinging legacyClient) [.pong 0 true, .ping true]) :=
  (udp_answered_iff quietPingHost keepsTransport_quiet legacyClient
    [.pong 0 true, .ping true]).2.mpr ⟨trivial, trivial, trivial⟩ 2 (Nat.le_refl 2)

/-- A reply through the tunnel makes up for two lost pings: a third is sent, and voice still
goes by UDP. -/
theorem tunneled_reply_masks_loss :
    ¬ ∀ (host : PingHost) (client : MumbleClient) (events : List PingEvent),
      KeepsTransport host → ∀ n ≤ events.length,
        Answered (Machine.final (pingStep host) (pinging client) (events.take n)) := by
  intro h
  have hanswered := h quietPingHost legacyClient
    [.pong 0 true, .ping true, .ping true, .pong 0 false, .ping true] keepsTransport_quiet 5
    (Nat.le_refl 5) rfl
  exact absurd hanswered.2 (by decide)

end LuaMumble.Voice
