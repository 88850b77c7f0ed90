import LuaMumble.Lib.Machine
import LuaMumble.Tcp.Reader

/-!
Frames on the TLS stream and what the reader makes of them. A frame arrives
whole when one event reads its header in one call and its body in the next. The
client's `tcp_read_packet` is never written, so whatever an event has read of an
unfinished frame is gone when the event returns, and the bytes that follow are
taken for a header.
-/

namespace LuaMumble.Tcp

open Lib Lib.LittleEndian

/-- A message as `packet_sendex` lays it out; its length has 32 bits. -/
structure Frame where
  type : UInt16
  body : List UInt8
  body_length_lt : body.length < 2 ^ 32
  deriving DecidableEq

/-- `htons(type)` and `htonl(payload_size)`. -/
def Frame.header (frame : Frame) : List UInt8 :=
  (digits 2 frame.type.toNat).reverse ++ (digits 4 frame.body.length).reverse

def Frame.bytes (frame : Frame) : List UInt8 :=
  frame.header ++ frame.body

/-- The decrypted byte stream of the server. -/
def stream (frames : List Frame) : List UInt8 :=
  frames.flatMap Frame.bytes

/-- The type is one of the table, and there is a body. -/
def Frame.Known (frame : Frame) : Prop :=
  frame.type.toNat < packetHandler.length ∧ frame.body ≠ []

instance (frame : Frame) : Decidable frame.Known :=
  inferInstanceAs (Decidable (_ ∧ _))

/-- The call that a frame is due: one for each type that has a handler. -/
def Frame.dispatch (frame : Frame) : Option Dispatch :=
  (packetHandler.getD frame.type.toNat none).map fun handler =>
    ⟨handler, frame.type.toNat, frame.body⟩

def handled (frames : List Frame) : List Dispatch :=
  frames.filterMap Frame.dispatch

/-- The next calls take a frame whole or not at all: the first one wants to
read, or it returns a whole header and, with memory for it, the second one the
whole body, whose length fits an `int`. -/
def WholeCalls (malloc : Bool) (ssl : Ssl) : Prop :=
  match ssl.schedule with
  | some n :: some m :: _ =>
      malloc = true ∧ packetHeaderSize ≤ n + 1 ∧ ntohl (ssl.pending.drop 2) ≤ m + 1 ∧
        ntohl (ssl.pending.drop 2) < 2 ^ 31
  | some _ :: _ => False
  | _ => True

instance (malloc : Bool) (ssl : Ssl) : Decidable (WholeCalls malloc ssl) := by
  unfold WholeCalls
  split <;> infer_instance

/-- The event reads nothing, or it takes a frame whole. -/
def TakesWholeFrame (client : MumbleClient) (event : PollEvent) : Prop :=
  event.status < 0 ∨ event.readable = false ∨ client.connected = false ∨
    client.ssl.pending = [] ∨ WholeCalls event.malloc client.ssl

instance (client : MumbleClient) (event : PollEvent) :
    Decidable (TakesWholeFrame client event) :=
  inferInstanceAs (Decidable (_ ∨ _ ∨ _ ∨ _ ∨ _))

theorem Frame.header_length (frame : Frame) : frame.header.length = packetHeaderSize := by
  simp [Frame.header, digits_length, packetHeaderSize]

theorem Frame.header_ne_nil (frame : Frame) : frame.header ≠ [] := by
  intro h
  have hlength := frame.header_length
  rw [h] at hlength
  cases hlength

theorem stream_eq_nil {frames : List Frame} (h : stream frames = []) : frames = [] := by
  cases frames with
  | nil => rfl
  | cons frame rest =>
      obtain ⟨hfirst, _⟩ := List.append_eq_nil_iff.mp h
      obtain ⟨hheader, _⟩ := List.append_eq_nil_iff.mp hfirst
      exact absurd hheader frame.header_ne_nil

theorem Frame.ntohs_header (frame : Frame) : ntohs frame.header = frame.type.toNat := by
  have hlt := frame.type.toNat_lt
  have htake : frame.header.take 2 = (digits 2 frame.type.toNat).reverse :=
    List.take_left' (by simp [digits_length])
  rw [ntohs, htake, List.reverse_reverse, value_digits]
  omega

theorem Frame.ntohl_header (frame : Frame) (rest : List UInt8) :
    ntohl ((frame.header ++ rest).drop 2) = frame.body.length := by
  have hlt := frame.body_length_lt
  have hdrop : (frame.header ++ rest).drop 2 = (digits 4 frame.body.length).reverse ++ rest := by
    rw [Frame.header, List.append_assoc]
    exact List.drop_left' (by simp [digits_length])
  rw [ntohl, hdrop, List.take_left' (by simp [digits_length]), List.reverse_reverse,
    value_digits]
  omega

theorem toInt_of_lt {n : Nat} (h : n < 2 ^ 31) : toInt n = n := by
  rw [toInt, BitVec.toInt_ofNat', Int.bmod_eq_of_le] <;> omega

/-- A call of `SSL_read` that may return as much as it is asked for does. -/
theorem sslRead_all {xs ys : List UInt8} {n : Nat} {rest : List (Option Nat)}
    (hne : xs ≠ []) (hbound : xs.length ≤ n + 1) :
    sslRead ⟨xs ++ ys, some n :: rest⟩ xs.length = (.data xs, ⟨ys, rest⟩) := by
  have hcount : min (n + 1) xs.length = xs.length := min_eq_right hbound
  have hsign : ¬ ((xs.length : Int) < 0) := by omega
  simp only [sslRead, hsign, if_false, Int.toNat_natCast, hcount, List.take_left, List.drop_left,
    hne]

theorem startPacket_empty {packet : MumblePacket} (h : packet = .empty) :
    startPacket packet = ⟨0, 0, some [], none⟩ := by
  rw [h]
  rfl

/-- The first half of an event on a frame whose header it reads in one call. -/
theorem readHeader_frame (client : MumbleClient) {frame : Frame} {pending : List UInt8} {n : Nat}
    {rest : List (Option Nat)} (hpacket : client.tcpReadPacket = .empty)
    (hssl : client.ssl = ⟨frame.bytes ++ pending, some n :: rest⟩)
    (hheader : packetHeaderSize ≤ n + 1) :
    readHeader true client (startPacket client.tcpReadPacket) =
      (if frame.type.toNat ≥ packetHandler.length then none
        else some ⟨frame.type.toNat, frame.body.length, some frame.header, some []⟩,
        { client with ssl := ⟨frame.body ++ pending, rest⟩ }) := by
  have hread : sslRead client.ssl (toInt (packetHeaderSize - 0)) =
      (.data frame.header, ⟨frame.body ++ pending, rest⟩) := by
    have hlength : toInt (packetHeaderSize - 0) = frame.header.length := by
      rw [frame.header_length]
      rfl
    rw [hssl, hlength, Frame.bytes, List.append_assoc]
    exact sslRead_all frame.header_ne_nil (frame.header_length.trans_le hheader)
  have hlength : ntohl (frame.header.drop 2) = frame.body.length := by
    simpa using frame.ntohl_header []
  have hempty : 0 < packetHeaderSize := Nat.succ_pos 5
  rw [startPacket_empty hpacket]
  simp only [readHeader, Option.getD_some, List.length_nil, hempty, if_true, List.nil_append,
    hread, frame.header_length, frame.ntohs_header, hlength]
  split
  · rfl
  · rfl

/-- One event on a frame that it takes whole. -/
theorem socketReadEventTcp_frame (client : MumbleClient) {event : PollEvent} {frame : Frame}
    {pending : List UInt8} {n m : Nat} {rest : List (Option Nat)}
    (hstatus : ¬ event.status < 0) (hreadable : event.readable = true)
    (hmalloc : event.malloc = true) (hconnected : client.connected = true)
    (hpacket : client.tcpReadPacket = .empty) (hknown : frame.Known)
    (hssl : client.ssl = ⟨frame.bytes ++ pending, some n :: some m :: rest⟩)
    (hheader : packetHeaderSize ≤ n + 1) (hbody : frame.body.length ≤ m + 1)
    (hint : frame.body.length < 2 ^ 31) :
    socketReadEventTcp client event =
      (frame.dispatch.toList, { client with ssl := ⟨pending, rest⟩ }) := by
  obtain ⟨htype, hne⟩ := hknown
  have hpositive : 0 < frame.body.length := List.length_pos_iff.mpr hne
  have hfirst := readHeader_frame client hpacket hssl hheader
  rw [if_neg (Nat.not_le.mpr htype)] at hfirst
  have hsecond : sslRead ⟨frame.body ++ pending, some m :: rest⟩ (toInt frame.body.length) =
      (.data frame.body, ⟨pending, rest⟩) := by
    rw [toInt_of_lt hint]
    exact sslRead_all hne hbody
  simp only [socketReadEventTcp, hstatus, hreadable, hmalloc, hconnected, hfirst, Bool.and_self,
    if_true, if_false, readBody, Option.getD_some, frame.header_length, List.length_nil, hpositive,
    and_self, Nat.sub_zero, hsecond, List.nil_append, Frame.dispatch]
  cases packetHandler.getD frame.type.toNat none with
  | none => rfl
  | some handler => rfl

/-- The event takes some frames off the stream, makes the calls they are due and
leaves nothing in `tcp_read_packet`. -/
def TakesFrames (frames : List Frame) (client : MumbleClient) (event : PollEvent) : Prop :=
  ∃ done rest, frames = done ++ rest ∧ (socketReadEventTcp client event).1 = handled done ∧
    (socketReadEventTcp client event).2.ssl.pending = stream rest ∧
    (socketReadEventTcp client event).2.tcpReadPacket = .empty

/-- Where the first call of an event returns nothing, or there is no call, the
event takes no frame. -/
theorem takesFrames_idle {client : MumbleClient} {event : PollEvent} {frames : List Frame}
    (hpacket : client.tcpReadPacket = .empty) (hpending : client.ssl.pending = stream frames)
    (hidle : event.status < 0 ∨ event.readable = false ∨ client.connected = false ∨
      ∃ schedule, sslRead client.ssl packetHeaderSize =
        (.wantRead, ⟨client.ssl.pending, schedule⟩)) :
    TakesFrames frames client event := by
  refine ⟨[], frames, rfl, ?_⟩
  unfold socketReadEventTcp
  split
  · unfold mumbleDisconnect
    split
    · exact ⟨rfl, hpending, hpacket⟩
    · exact ⟨rfl, hpending, hpacket⟩
  · rename_i hstatus
    split
    · rename_i hreads
      obtain ⟨hreadable, hconnected⟩ := Bool.and_eq_true_iff.mp hreads
      obtain ⟨schedule, hread⟩ : ∃ schedule, sslRead client.ssl packetHeaderSize =
          (.wantRead, ⟨client.ssl.pending, schedule⟩) := by
        simpa [hstatus, hreadable, hconnected] using hidle
      have hask : toInt (packetHeaderSize - 0) = packetHeaderSize := rfl
      have hempty : 0 < packetHeaderSize := by decide
      have hfirst : readHeader event.malloc client (startPacket client.tcpReadPacket) =
          (none, { client with ssl := ⟨client.ssl.pending, schedule⟩ }) := by
        rw [startPacket_empty hpacket]
        simp only [readHeader, Option.getD_some, List.length_nil, hempty, if_true, hask, hread,
          handleSslReadError]
      rw [hfirst]
      exact ⟨rfl, hpending, hpacket⟩
    · exact ⟨rfl, hpending, hpacket⟩

theorem sslRead_nothing (schedule : List (Option Nat)) :
    ∃ schedule', sslRead ⟨[], schedule⟩ packetHeaderSize = (.wantRead, ⟨[], schedule'⟩) := by
  match schedule with
  | [] => exact ⟨[], rfl⟩
  | none :: rest => exact ⟨rest, rfl⟩
  | some n :: rest => exact ⟨rest, by simp [sslRead, packetHeaderSize]⟩

/-- The step: an event whose calls take frames whole takes frames. -/
theorem takesFrames_of_whole {client : MumbleClient} {event : PollEvent} {frames : List Frame}
    (hpacket : client.tcpReadPacket = .empty) (hpending : client.ssl.pending = stream frames)
    (hknown : ∀ frame ∈ frames, frame.Known) (hwhole : TakesWholeFrame client event) :
    TakesFrames frames client event := by
  by_cases hreads : event.status < 0 ∨ event.readable = false ∨ client.connected = false
  · apply takesFrames_idle hpacket hpending
    rcases hreads with hstatus | hreadable | hconnected
    · exact Or.inl hstatus
    · exact Or.inr (Or.inl hreadable)
    · exact Or.inr (Or.inr (Or.inl hconnected))
  obtain ⟨hstatus, hreadable, hconnected⟩ : ¬ event.status < 0 ∧ event.readable = true ∧
      client.connected = true := by
    simpa [not_or] using hreads
  have hcalls : client.ssl.pending = [] ∨ WholeCalls event.malloc client.ssl := by
    simpa [TakesWholeFrame, hstatus, hreadable, hconnected] using hwhole
  obtain ⟨connecting, connected, packet, ⟨pending, schedule⟩⟩ := client
  dsimp only at hpacket hpending hconnected hcalls
  have hidle (h : ∃ schedule', sslRead ⟨pending, schedule⟩ packetHeaderSize =
      (.wantRead, ⟨pending, schedule'⟩)) :
      TakesFrames frames ⟨connecting, connected, packet, ⟨pending, schedule⟩⟩ event :=
    takesFrames_idle hpacket hpending (Or.inr (Or.inr (Or.inr h)))
  cases frames with
  | nil =>
      obtain rfl : pending = [] := hpending
      exact hidle (sslRead_nothing schedule)
  | cons frame rest =>
      have hpending' : pending = frame.bytes ++ stream rest := hpending
      have hnonempty : pending ≠ [] := fun h => by
        cases stream_eq_nil (hpending.symm.trans h)
      have hlength : ntohl (pending.drop 2) = frame.body.length := by
        rw [hpending', Frame.bytes, List.append_assoc]
        exact frame.ntohl_header _
      have hwhole' := hcalls.resolve_left hnonempty
      match schedule, hwhole' with
      | [], _ => exact hidle ⟨[], rfl⟩
      | none :: later, _ => exact hidle ⟨later, rfl⟩
      | some n :: some m :: later, ⟨hmalloc, hheader, hbody, hint⟩ =>
          rw [hlength] at hbody hint
          have hevent := socketReadEventTcp_frame
            ⟨connecting, connected, packet, ⟨pending, some n :: some m :: later⟩⟩
            hstatus hreadable hmalloc hconnected hpacket (hknown frame (List.mem_cons_self ..))
            (by rw [hpending']) hheader hbody hint
          refine ⟨[frame], rest, rfl, ?_⟩
          rw [hevent]
          refine ⟨?_, rfl, hpacket⟩
          cases hdue : frame.dispatch with
          | none => simp [handled, hdue]
          | some call => simp [handled, hdue]

/-- The run, by induction on the events. -/
theorem dispatched_run (client : MumbleClient) (events : List PollEvent) (frames : List Frame)
    (hpacket : client.tcpReadPacket = .empty) (hpending : client.ssl.pending = stream frames)
    (hknown : ∀ frame ∈ frames, frame.Known)
    (hwhole : Machine.Along socketReadEventTcp TakesWholeFrame client events) :
    ∃ done rest, frames = done ++ rest ∧
      (Machine.outputs socketReadEventTcp client events).flatten = handled done ∧
      (Machine.final socketReadEventTcp client events).ssl.pending = stream rest := by
  induction events generalizing client frames with
  | nil => exact ⟨[], frames, rfl, rfl, hpending⟩
  | cons event later ih =>
      obtain ⟨done, rest, rfl, hcalls, hleft, hempty⟩ :=
        takesFrames_of_whole hpacket hpending hknown hwhole.1
      have hknown' : ∀ frame ∈ rest, frame.Known := by
        intro frame hmem
        exact hknown frame (List.mem_append_right _ hmem)
      obtain ⟨done', rest', rfl, hcalls', hleft'⟩ := ih _ rest hempty hleft hknown' hwhole.2
      refine ⟨done ++ done', rest', (List.append_assoc ..).symm, ?_, hleft'⟩
      rw [Machine.outputs, List.flatten_cons, hcalls, hcalls', handled, handled, handled,
        List.filterMap_append]

/-- Runs in which every event takes frames whole call the handlers for the frames
of the stream, in order and each with its body, and for all of them once the
stream has been returned. -/
theorem dispatched_frames (client : MumbleClient) (events : List PollEvent) (frames : List Frame)
    (hpacket : client.tcpReadPacket = .empty) (hpending : client.ssl.pending = stream frames)
    (hknown : ∀ frame ∈ frames, frame.Known)
    (hwhole : Machine.Along socketReadEventTcp TakesWholeFrame client events) :
    let dispatched := (Machine.outputs socketReadEventTcp client events).flatten
    dispatched <+: handled frames ∧
      ((Machine.final socketReadEventTcp client events).ssl.pending = [] →
        dispatched = handled frames) := by
  obtain ⟨done, rest, rfl, hcalls, hleft⟩ :=
    dispatched_run client events frames hpacket hpending hknown hwhole
  have hsplit : handled (done ++ rest) = handled done ++ handled rest := List.filterMap_append
  refine ⟨⟨handled rest, by rw [hcalls, hsplit]⟩, ?_⟩
  intro hall
  obtain rfl : rest = [] := stream_eq_nil (hleft.symm.trans hall)
  rw [hcalls, List.append_nil]

/-- A connected client with nothing read yet. -/
def connectedClient (frames : List Frame) (schedule : List (Option Nat)) : MumbleClient where
  connecting := true
  connected := true
  tcpReadPacket := .empty
  ssl := ⟨stream frames, schedule⟩

/-- A ping between two events that want to read, and a message without handler. -/
theorem dispatched_two_frames :
    let frames : List Frame := [⟨3, [7, 8], by decide⟩, ⟨2, [9], by decide⟩]
    let client := connectedClient frames [none, some 5, some 1, none, some 9, some 0]
    let dispatched := (Machine.outputs socketReadEventTcp client
      (List.replicate 4 ⟨0, true, true⟩)).flatten
    dispatched <+: handled frames ∧
      ((Machine.final socketReadEventTcp client
          (List.replicate 4 ⟨0, true, true⟩)).ssl.pending = [] →
        dispatched = handled frames) := by
  intro frames client
  refine dispatched_frames client (List.replicate 4 ⟨0, true, true⟩) frames rfl rfl (by decide) ?_
  exact ⟨by decide, by decide, by decide, by decide, trivial⟩

/-- A header in two chunks: the first three bytes are read and forgotten. -/
theorem split_header_lost :
    ¬ ∀ (client : MumbleClient) (events : List PollEvent) (frames : List Frame),
      client.connected = true → client.tcpReadPacket = .empty →
      client.ssl.pending = stream frames → (∀ frame ∈ frames, frame.Known) →
      (∀ event ∈ events, event.status = 0 ∧ event.readable = true ∧ event.malloc = true) →
      let dispatched := (Machine.outputs socketReadEventTcp client events).flatten
      dispatched <+: handled frames ∧
        ((Machine.final socketReadEventTcp client events).ssl.pending = [] →
          client.ssl.schedule.length ≤ events.length → dispatched = handled frames) := by
  intro h
  have hall := (h (connectedClient [⟨3, [7], by decide⟩] [some 2, some 3])
    [⟨0, true, true⟩, ⟨0, true, true⟩] [⟨3, [7], by decide⟩] rfl rfl rfl (by decide) (by decide)).2
  revert hall
  decide

end LuaMumble.Tcp
