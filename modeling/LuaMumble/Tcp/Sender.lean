import LuaMumble.Lib.Machine
import LuaMumble.Tcp.Reader

/-!
The sender of the TLS connection, `packet_sendex`. It lays a frame out in a
buffer of its own, hands the buffer to `SSL_write` once and frees it. The mode
`SSL_MODE_ENABLE_PARTIAL_WRITE` lets that call accept a part of the frame. The
rest is then lost: the caller gets -1, and the next call starts a new frame in
the middle of the unfinished one.
-/

namespace LuaMumble.Tcp

open Lib Lib.LittleEndian

/-- The TLS layer towards the server: the bytes accepted so far, and what its
calls to come do. An entry is WANT_WRITE or the most bytes the call accepts,
less one. -/
structure SslOutput where
  accepted : List UInt8
  schedule : List (Option Nat)
  deriving DecidableEq

/-- How many of `num` bytes the next call accepts. -/
def SslOutput.room (ssl : SslOutput) (num : Int) : Nat :=
  match ssl.schedule with
  | some n :: _ => min (n + 1) num.toNat
  | _ => 0

def sslWrite (ssl : SslOutput) (buf : List UInt8) (num : Int) : Int × SslOutput :=
  let count := ssl.room num
  (if count = 0 then -1 else count, ⟨ssl.accepted ++ buf.take count, ssl.schedule.tail⟩)

/-- What the generated code does with a message: `packed` is what the
`__pack` function of a packet type writes, as many bytes as its
`__get_packed_size` says, and `bytes` are those behind the pointer of a
UDPTUNNEL. -/
structure Codec (Message : Type*) where
  packed : Int → Message → List UInt8
  bytes : Message → List UInt8

/-- A call of `packet_sendex`, and whether `malloc` has memory for it. -/
structure Send (Message : Type*) where
  type : Int
  message : Message
  length : Nat
  allocated : Bool

def packetUdpTunnel : Int := 1

/-- The other cases of the `switch`, from PACKET_VERSION to PACKET_PLUGINDATA. -/
def packedTypes : List Int :=
  [0, 2, 3, 6, 7, 8, 9, 10, 11, 13, 14, 15, 17, 20, 18, 19, 21, 22, 23, 26]

def htons (n : Int) : List UInt8 := (digits 2 (n % 2 ^ 16).toNat).reverse

def htonl (n : Nat) : List UInt8 := (digits 4 n).reverse

variable {Message : Type*} (codec : Codec Message)

def Send.payload (call : Send Message) : Option (List UInt8) :=
  if call.type = packetUdpTunnel then some ((codec.bytes call.message).take call.length)
  else if call.type ∈ packedTypes then some (codec.packed call.type call.message)
  else none

/-- The contents of `packet_out`. -/
def Send.frame (call : Send Message) : Option (List UInt8) :=
  (call.payload codec).map fun payload => htons call.type ++ htonl payload.length ++ payload

/-- `packet_sendex`; an unknown type has no frame. -/
def packetSendex (ssl : SslOutput) (call : Send Message) : Int × SslOutput :=
  match call.frame codec with
  | none => (1, ssl)
  | some packetOut =>
      if call.allocated then
        let (written, ssl) := sslWrite ssl packetOut (toInt packetOut.length)
        (if written = packetOut.length then 0 else -1, ssl)
      else (2, ssl)

/-- What the stream may be after calls with these frames and these results: the
frames in order, where a call that reported failure may be left out. -/
def streams : List (Option (List UInt8) × Int) → List (List UInt8)
  | [] => [[]]
  | (frame, ret) :: rest =>
      (frame.toList.flatMap fun bytes => (streams rest).map (bytes ++ ·)) ++
        if ret = 0 then [] else streams rest

/-- The calls of a run, each with what it returned. -/
def results (ssl : SslOutput) (calls : List (Send Message)) :
    List (Option (List UInt8) × Int) :=
  (calls.map (Send.frame codec)).zip (Machine.outputs (packetSendex codec) ssl calls)

/-- The number of bytes that `SSL_write` accepts of the frame of a call. -/
def acceptance (ssl : SslOutput) (call : Send Message) : Nat :=
  match call.frame codec with
  | none => 0
  | some frame => if call.allocated then ssl.room (toInt frame.length) else 0

/-- The call has nothing accepted, or its whole frame. -/
def WholeOrNothing (ssl : SslOutput) (call : Send Message) : Prop :=
  acceptance codec ssl call = 0 ∨
    (call.frame codec).map List.length = some (acceptance codec ssl call)

instance (ssl : SslOutput) (call : Send Message) : Decidable (WholeOrNothing codec ssl call) :=
  inferInstanceAs (Decidable (_ ∨ _))

/-- Once a call has only a part of its frame accepted, the calls after it have
nothing accepted. -/
def SilentAfterCut : SslOutput → List (Send Message) → Prop
  | _, [] => True
  | ssl, call :: later =>
      if WholeOrNothing codec ssl call then SilentAfterCut (packetSendex codec ssl call).2 later
      else Machine.Along (packetSendex codec) (fun ssl call => acceptance codec ssl call = 0)
        (packetSendex codec ssl call).2 later

variable {codec}

theorem room_le (ssl : SslOutput) (num : Int) : ssl.room num ≤ num.toNat := by
  unfold SslOutput.room
  split
  · exact min_le_right _ _
  · exact Nat.zero_le _

theorem toInt_toNat_le (n : Nat) : (toInt n).toNat ≤ n := by
  rw [toInt, BitVec.toInt_eq_toNat_cond, BitVec.toNat_ofNat]
  have hmod := Nat.mod_le n (2 ^ 32)
  split <;> omega

theorem Send.frame_length_pos {call : Send Message} {frame : List UInt8}
    (h : call.frame codec = some frame) : 0 < frame.length := by
  obtain ⟨payload, _, rfl⟩ := Option.map_eq_some_iff.mp h
  simp only [List.length_append, htons, List.length_reverse, digits_length]
  omega

/-- What a call does: the TLS layer accepts a prefix of its frame, and the call
reports success only where that is the whole. -/
theorem packetSendex_accepted (codec : Codec Message) (ssl : SslOutput) (call : Send Message) :
    (packetSendex codec ssl call).2.accepted =
        ssl.accepted ++ ((call.frame codec).getD []).take (acceptance codec ssl call) ∧
      ((packetSendex codec ssl call).1 = 0 ↔
        (call.frame codec).map List.length = some (acceptance codec ssl call)) := by
  cases hframe : call.frame codec with
  | none => simp [packetSendex, hframe]
  | some frame =>
      have hpos := Send.frame_length_pos hframe
      cases hmemory : call.allocated with
      | false =>
          have hne : frame.length ≠ 0 := hpos.ne'
          simp [packetSendex, acceptance, hframe, hmemory, hne]
      | true =>
          have hle : ssl.room (toInt frame.length) ≤ frame.length :=
            (room_le _ _).trans (toInt_toNat_le _)
          simp only [packetSendex, acceptance, hframe, hmemory, sslWrite, if_true, Option.getD_some,
            Option.map_some, Option.some.injEq, true_and]
          by_cases hzero : ssl.room (toInt frame.length) = 0
          · have hne : frame.length ≠ 0 := hpos.ne'
            simp only [hzero, if_true]
            refine ⟨?_, ?_⟩
            · intro h
              split at h <;> omega
            · intro h
              exact absurd h hne
          · simp only [hzero, if_false]
            refine ⟨?_, ?_⟩
            · intro h
              split at h <;> omega
            · intro h
              rw [← h, if_pos rfl]

/-- A call that has nothing accepted may be left out. -/
theorem streams_omit {ssl : SslOutput} {call : Send Message} {later : List (Send Message)}
    {stream : List UInt8} (hnothing : acceptance codec ssl call = 0)
    (hmem : stream ∈ streams (results codec (packetSendex codec ssl call).2 later)) :
    stream ∈ streams (results codec ssl (call :: later)) := by
  have hfailed : (packetSendex codec ssl call).1 ≠ 0 := by
    intro hzero
    obtain ⟨frame, hframe, hlength⟩ :=
      Option.map_eq_some_iff.mp ((packetSendex_accepted codec ssl call).2.mp hzero)
    have hpos := Send.frame_length_pos hframe
    omega
  simp only [results, List.map_cons, Machine.outputs, List.zip_cons_cons, streams,
    if_neg hfailed]
  exact List.mem_append_right _ hmem

theorem streams_keep {ssl : SslOutput} {call : Send Message} {later : List (Send Message)}
    {frame stream : List UInt8} (hframe : call.frame codec = some frame)
    (hmem : stream ∈ streams (results codec (packetSendex codec ssl call).2 later)) :
    frame ++ stream ∈ streams (results codec ssl (call :: later)) := by
  simp only [results, List.map_cons, Machine.outputs, List.zip_cons_cons, streams, hframe]
  apply List.mem_append_left _
  exact List.mem_flatMap.mpr ⟨frame, by simp, List.mem_map_of_mem hmem⟩

/-- Calls that have nothing accepted leave the stream alone and may all be left
out. -/
theorem silent_run (ssl : SslOutput) (calls : List (Send Message))
    (h : Machine.Along (packetSendex codec) (fun ssl call => acceptance codec ssl call = 0)
      ssl calls) :
    (Machine.final (packetSendex codec) ssl calls).accepted = ssl.accepted ∧
      [] ∈ streams (results codec ssl calls) := by
  induction calls generalizing ssl with
  | nil => exact ⟨rfl, List.mem_singleton_self _⟩
  | cons call later ih =>
      obtain ⟨hnothing, hlater⟩ := h
      obtain ⟨haccepted, _⟩ := packetSendex_accepted codec ssl call
      rw [hnothing, List.take_zero, List.append_nil] at haccepted
      obtain ⟨hfinal, hmem⟩ := ih _ hlater
      exact ⟨hfinal.trans haccepted, streams_omit hnothing hmem⟩

/-- The run lemma, with anything accepted before. -/
theorem accepted_run (ssl : SslOutput) (calls : List (Send Message))
    (h : SilentAfterCut codec ssl calls) :
    ∃ stream ∈ streams (results codec ssl calls), ∃ sent, sent <+: stream ∧
      (Machine.final (packetSendex codec) ssl calls).accepted = ssl.accepted ++ sent := by
  induction calls generalizing ssl with
  | nil => exact ⟨[], List.mem_singleton_self _, [], List.nil_prefix, by simp [Machine.final]⟩
  | cons call later ih =>
      obtain ⟨haccepted, _⟩ := packetSendex_accepted codec ssl call
      unfold SilentAfterCut at h
      by_cases hwhole : WholeOrNothing codec ssl call
      · rw [if_pos hwhole] at h
        obtain ⟨stream, hmem, sent, hprefix, hfinal⟩ := ih _ h
        rcases hwhole with hnothing | hall
        · refine ⟨stream, streams_omit hnothing hmem, sent, hprefix, ?_⟩
          rw [Machine.final, hfinal, haccepted, hnothing, List.take_zero, List.append_nil]
        · obtain ⟨frame, hframe, hlength⟩ := Option.map_eq_some_iff.mp hall
          refine ⟨frame ++ stream, streams_keep hframe hmem, frame ++ sent,
            (List.prefix_append_right_inj frame).mpr hprefix, ?_⟩
          rw [Machine.final, hfinal, haccepted, hframe, Option.getD_some, ← hlength,
            List.take_length, List.append_assoc]
      · rw [if_neg hwhole] at h
        obtain ⟨hfinal, hmem⟩ := silent_run _ _ h
        cases hframe : call.frame codec with
        | none => exact absurd (Or.inl (by simp [acceptance, hframe])) hwhole
        | some frame =>
            refine ⟨frame ++ [], streams_keep hframe hmem,
              frame.take (acceptance codec ssl call), ?_, ?_⟩
            · rw [List.append_nil]
              exact List.take_prefix _ _
            · rw [Machine.final, hfinal, haccepted, hframe, Option.getD_some]

theorem silentAfterCut_take (ssl : SslOutput) (calls : List (Send Message)) (n : Nat)
    (h : SilentAfterCut codec ssl calls) : SilentAfterCut codec ssl (calls.take n) := by
  induction calls generalizing ssl n with
  | nil => simpa using h
  | cons call later ih =>
      cases n with
      | zero => trivial
      | succ n =>
          unfold SilentAfterCut at h
          rw [List.take_succ_cons]
          unfold SilentAfterCut
          split
          · rename_i hwhole
            rw [if_pos hwhole] at h
            exact ih _ n h
          · rename_i hcut
            rw [if_neg hcut] at h
            exact Machine.along_take _ _ n h

/-- In runs in which no call has bytes accepted after a call that was cut, the
server has received whole frames and at most a part of one more, at every moment. -/
theorem accepted_prefix (codec : Codec Message) (schedule : List (Option Nat))
    (calls : List (Send Message)) (h : SilentAfterCut codec ⟨[], schedule⟩ calls) :
    ∀ n ≤ calls.length, ∃ stream ∈ streams (results codec ⟨[], schedule⟩ (calls.take n)),
      (Machine.final (packetSendex codec) ⟨[], schedule⟩ (calls.take n)).accepted <+: stream := by
  intro n _
  obtain ⟨stream, hmem, sent, hprefix, hfinal⟩ :=
    accepted_run _ _ (silentAfterCut_take _ _ n h)
  refine ⟨stream, hmem, ?_⟩
  rw [hfinal, List.nil_append]
  exact hprefix

/-- Messages that are their own bytes. -/
def plainCodec : Codec (List UInt8) := ⟨fun _ message => message, id⟩

/-- A voice packet, a ping that finds no room, and a ping of which three bytes are accepted. -/
theorem accepted_prefix_ping :
    let calls : List (Send (List UInt8)) :=
      [⟨1, [1, 2, 3, 4], 3, true⟩, ⟨3, [8, 1], 0, true⟩, ⟨3, [8, 2], 0, true⟩]
    ∀ n ≤ calls.length,
      ∃ stream ∈ streams (results plainCodec ⟨[], [some 20, none, some 2]⟩ (calls.take n)),
        (Machine.final (packetSendex plainCodec) ⟨[], [some 20, none, some 2]⟩
          (calls.take n)).accepted <+: stream := by
  intro calls
  apply accepted_prefix plainCodec [some 20, none, some 2] calls
  unfold SilentAfterCut
  rw [if_pos (by decide)]
  unfold SilentAfterCut
  rw [if_pos (by decide)]
  unfold SilentAfterCut
  rw [if_neg (by decide)]
  trivial

/-- A voice packet of which the first five bytes are accepted, then a ping. -/
theorem cut_frame_followed :
    ¬ ∀ (codec : Codec (List UInt8)) (schedule : List (Option Nat))
      (calls : List (Send (List UInt8))),
      ∀ n ≤ calls.length, ∃ stream ∈ streams (results codec ⟨[], schedule⟩ (calls.take n)),
        (Machine.final (packetSendex codec) ⟨[], schedule⟩ (calls.take n)).accepted
          <+: stream := by
  intro h
  have hend := h plainCodec [some 4, some 20] [⟨1, [1, 2, 3], 3, true⟩, ⟨3, [8, 1], 0, true⟩]
    2 (by decide)
  revert hend
  decide

end LuaMumble.Tcp
