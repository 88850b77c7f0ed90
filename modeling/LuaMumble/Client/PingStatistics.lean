import LuaMumble.Lib.RunningMean

/-!
The ping statistics that a client keeps of the replies by UDP and by TCP and
reports with its next ping, in exact arithmetic. The average is a running mean.
What is reported as the variance is the squared deviation of the last delay.
-/

namespace LuaMumble.Client.PingStatistics

open Lib.RunningMean

/-- `*_packets`, `*_ping_avg` and `*_ping_var` of one transport. -/
structure Statistics where
  packets : UInt32
  pingAvg : ℚ
  pingVar : ℚ

/-- What the two update functions have in common. -/
def Statistics.update (s : Statistics) (delay : ℚ) : Statistics :=
  let n : ℚ := (s.packets + 1).toNat
  let average := s.pingAvg * (n - 1) / n + delay / n
  { packets := s.packets + 1
    pingAvg := average
    pingVar := |delay - average| ^ 2 }

structure PingClient where
  tcp : Statistics
  udp : Statistics

/-- `mumble_client_new` sets all of them to 0. -/
def newClient : PingClient := ⟨⟨0, 0, 0⟩, ⟨0, 0, 0⟩⟩

/-- `(double) (now - timestamp) / 1e6` on `uint64_t`. -/
def pingDelay (now timestamp : UInt64) : ℚ :=
  (now - timestamp).toNat / 1000000

/-- `mumble_update_ping_udp`, as far as the statistics go. -/
def mumbleUpdatePingUdp (client : PingClient) (now timestamp : UInt64) : PingClient :=
  { client with udp := client.udp.update (pingDelay now timestamp) }

/-- `mumble_update_ping_tcp` with the delay it returns. -/
def mumbleUpdatePingTcp (client : PingClient) (now timestamp : UInt64) : ℚ × PingClient :=
  let delay := pingDelay now timestamp
  (delay, { client with tcp := client.tcp.update delay })

/-- The fields of the Ping message on the statistics. -/
structure Ping where
  tcpPackets : UInt32
  tcpPingAvg : ℚ
  tcpPingVar : ℚ
  udpPackets : UInt32
  udpPingAvg : ℚ
  udpPingVar : ℚ

/-- The message of `mumble_ping_tcp`. -/
def mumblePingTcp (client : PingClient) : Ping :=
  { tcpPackets := client.tcp.packets
    tcpPingAvg := client.tcp.pingAvg
    tcpPingVar := client.tcp.pingVar
    udpPackets := client.udp.packets
    udpPingAvg := client.udp.pingAvg
    udpPingVar := client.udp.pingVar }

inductive Transport where
  | udp
  | tcp
  deriving DecidableEq

/-- A reply to a ping, with the time at which it is handled. -/
structure Reply where
  transport : Transport
  now : UInt64
  timestamp : UInt64

def receive (client : PingClient) (reply : Reply) : PingClient :=
  match reply.transport with
  | .udp => mumbleUpdatePingUdp client reply.now reply.timestamp
  | .tcp => (mumbleUpdatePingTcp client reply.now reply.timestamp).2

/-- The client after these replies. -/
def afterReplies (replies : List Reply) : PingClient :=
  replies.foldl receive newClient

/-- The delays of the replies by one transport. -/
def delays (transport : Transport) (replies : List Reply) : List ℚ :=
  replies.filterMap fun reply =>
    if reply.transport = transport then some (pingDelay reply.now reply.timestamp) else none

/-- The message reports mean and variance of these delays. -/
def Reports (ping : Ping) (values : List ℚ) : Transport → Prop
  | .udp => ping.udpPingAvg = mean values ∧ ping.udpPingVar = variance values
  | .tcp => ping.tcpPingAvg = mean values ∧ ping.tcpPingVar = variance values

/-- The statistics of one transport. -/
def PingClient.statistics (client : PingClient) : Transport → Statistics
  | .udp => client.udp
  | .tcp => client.tcp

theorem reports_iff (client : PingClient) (values : List ℚ) (transport : Transport) :
    Reports (mumblePingTcp client) values transport ↔
      (client.statistics transport).pingAvg = mean values ∧
        (client.statistics transport).pingVar = variance values := by
  cases transport <;> rfl

/-- A reply updates the statistics of its own transport only. -/
theorem statistics_receive (client : PingClient) (reply : Reply) (transport : Transport) :
    (receive client reply).statistics transport =
      if reply.transport = transport then
        (client.statistics transport).update (pingDelay reply.now reply.timestamp)
      else client.statistics transport := by
  obtain ⟨replied, now, timestamp⟩ := reply
  cases replied <;> cases transport <;> rfl

theorem statistics_foldl (client : PingClient) (replies : List Reply) (transport : Transport) :
    (replies.foldl receive client).statistics transport =
      (delays transport replies).foldl Statistics.update (client.statistics transport) := by
  induction replies generalizing client with
  | nil => rfl
  | cons reply rest ih =>
      rw [List.foldl_cons, ih, statistics_receive, delays, delays, List.filterMap_cons]
      by_cases h : reply.transport = transport
      · rw [if_pos h, if_pos h, List.foldl_cons]
      · rw [if_neg h, if_neg h]

/-- One more delay: the running mean stays the mean, and the deviation is that of
the delay itself. -/
theorem update_spec {s : Statistics} {values : List ℚ} (hpackets : s.packets.toNat = values.length)
    (hlength : values.length + 1 < 2 ^ 32) (havg : s.pingAvg = mean values) (x : ℚ) :
    (s.update x).packets.toNat = (values ++ [x]).length ∧
      (s.update x).pingAvg = mean (values ++ [x]) ∧
        (s.update x).pingVar = (x - mean (values ++ [x])) ^ 2 := by
  have hnext : (s.packets + 1).toNat = values.length + 1 := by
    rw [UInt32.toNat_add, hpackets]
    exact Nat.mod_eq_of_lt hlength
  have haverage : (s.update x).pingAvg = mean (values ++ [x]) := by
    rw [mean_append, Statistics.update, hnext, havg]
    push_cast
    rfl
  refine ⟨?_, haverage, ?_⟩
  · rw [Statistics.update, hnext, List.length_append]
    rfl
  · rw [← haverage]
    exact sq_abs _

/-- The run, by induction on the delays from the last one on. -/
theorem run_spec (values : List ℚ) (hlength : values.length < 2 ^ 32) :
    ((values.foldl Statistics.update ⟨0, 0, 0⟩).packets.toNat = values.length ∧
      (values.foldl Statistics.update ⟨0, 0, 0⟩).pingAvg = mean values) ∧
        ((values.foldl Statistics.update ⟨0, 0, 0⟩).pingVar = variance values ↔
          LastDeviates values) := by
  induction values using List.reverseRecOn with
  | nil =>
      refine ⟨⟨rfl, ?_⟩, ?_⟩
      · norm_num [mean]
      · apply iff_of_true
        · norm_num [variance, mean]
        · intro x hx
          cases hx
  | append_singleton values x ih =>
      rw [List.length_append, List.length_singleton] at hlength
      obtain ⟨⟨hpackets, havg⟩, -⟩ := ih (by omega)
      obtain ⟨hpackets', havg', hvar'⟩ := update_spec hpackets hlength havg x
      rw [List.foldl_append, List.foldl_cons, List.foldl_nil]
      refine ⟨⟨hpackets', havg'⟩, ?_⟩
      rw [hvar', LastDeviates]
      simp

/-- The initial parts of the delays are the delays of the initial parts. -/
theorem forall_take_delays (transport : Transport) (replies : List Reply) (p : List ℚ → Prop) :
    (∀ n ≤ replies.length, p (delays transport (replies.take n))) ↔
      ∀ k ≤ (delays transport replies).length, p ((delays transport replies).take k) := by
  constructor
  · intro h k hk
    have hsplit := (List.take_append_drop k (delays transport replies)).symm
    obtain ⟨first, last, hreplies, hfirst, -⟩ := List.filterMap_eq_append_iff.mp hsplit
    have hpart := h first.length (by rw [hreplies, List.length_append]; omega)
    rw [hreplies, List.take_left, delays, hfirst] at hpart
    exact hpart
  · intro h n hn
    have hjoin : delays transport replies =
        delays transport (replies.take n) ++ delays transport (replies.drop n) := by
      rw [delays, delays, delays, ← List.filterMap_append, List.take_append_drop]
    have hpart := h (delays transport (replies.take n)).length (by
      rw [hjoin, List.length_append]
      exact Nat.le_add_right _ _)
    rwa [hjoin, List.take_left] at hpart

theorem reports_iff_lastDeviates (transport : Transport) (replies : List Reply)
    (hlength : replies.length < 2 ^ 32) :
    Reports (mumblePingTcp (afterReplies replies)) (delays transport replies) transport ↔
      LastDeviates (delays transport replies) := by
  have hdelays : (delays transport replies).length < 2 ^ 32 :=
    (List.length_filterMap_le _ _).trans_lt hlength
  have hstatistics : (afterReplies replies).statistics transport =
      (delays transport replies).foldl Statistics.update ⟨0, 0, 0⟩ := by
    rw [afterReplies, statistics_foldl]
    cases transport <;> rfl
  obtain ⟨⟨-, havg⟩, hvar⟩ := run_spec _ hdelays
  rw [reports_iff, hstatistics, hvar]
  exact and_iff_right havg

/-- The reported average is always the mean. -/
theorem average_is_mean (transport : Transport) (replies : List Reply)
    (hlength : replies.length < 2 ^ 32) :
    ((afterReplies replies).statistics transport).pingAvg = mean (delays transport replies) := by
  have hdelays : (delays transport replies).length < 2 ^ 32 :=
    (List.length_filterMap_le _ _).trans_lt hlength
  rw [afterReplies, statistics_foldl]
  cases transport
  · exact (run_spec _ hdelays).1.2
  · exact (run_spec _ hdelays).1.2

/-- Mean and variance are reported after each reply just where a transport has at
most two replies or all its delays are equal. -/
theorem statistics_reported_iff (transport : Transport) (replies : List Reply)
    (hlength : replies.length < 2 ^ 32) :
    (∀ n ≤ replies.length, Reports (mumblePingTcp (afterReplies (replies.take n)))
      (delays transport (replies.take n)) transport) ↔
      (delays transport replies).length ≤ 2 ∨ Constant (delays transport replies) := by
  rw [← lastDeviates_prefixes_iff, ← forall_take_delays transport replies LastDeviates]
  apply forall_congr'
  intro n
  apply forall_congr'
  intro hn
  exact reports_iff_lastDeviates transport (replies.take n)
    ((List.length_take_le' n replies).trans_lt hlength)

/-- Three replies by UDP with delays of 1, 1 and 4 milliseconds. -/
def threeReplies : List Reply :=
  [⟨.udp, 1000000, 0⟩, ⟨.udp, 1000000, 0⟩, ⟨.udp, 4000000, 0⟩]

theorem statistics_reported_iff_three :
    (∀ n ≤ threeReplies.length, Reports (mumblePingTcp (afterReplies (threeReplies.take n)))
      (delays .udp (threeReplies.take n)) .udp) ↔
      (delays .udp threeReplies).length ≤ 2 ∨ Constant (delays .udp threeReplies) :=
  statistics_reported_iff .udp threeReplies (by decide)

/-- Their variance is 2; 4 is reported. -/
theorem variance_not_reported :
    ¬ ∀ (transport : Transport) (replies : List Reply), replies.length < 2 ^ 32 →
      Reports (mumblePingTcp (afterReplies replies)) (delays transport replies) transport := by
  intro h
  have hdeviates := (reports_iff_lastDeviates .udp threeReplies (by decide)).mp
    (h .udp threeReplies (by decide))
  have hone : pingDelay 1000000 0 = 1 := by
    rw [pingDelay, show ((1000000 : UInt64) - 0).toNat = 1000000 from rfl]
    norm_num
  have hfour : pingDelay 4000000 0 = 4 := by
    rw [pingDelay, show ((4000000 : UInt64) - 0).toNat = 4000000 from rfl]
    norm_num
  have hdelays : delays .udp threeReplies = [1, 1, 4] := by
    change [pingDelay 1000000 0, pingDelay 1000000 0, pingDelay 4000000 0] = _
    rw [hone, hfour]
  rw [hdelays] at hdeviates
  have hequal := (eq_of_lastDeviates_three hdeviates).1
  norm_num at hequal

end LuaMumble.Client.PingStatistics
