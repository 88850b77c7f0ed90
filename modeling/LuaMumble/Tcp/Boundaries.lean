import LuaMumble.Tcp.Framing

/-!
The reader against a TLS layer that returns all it is asked for. An event reads
one header and at most one body. Where it returns between the two, on a type
that the table does not have, the body stays in front of the next header; where
there is no body to read, the second half of the event is skipped and with it
the handler. What the layer has decrypted and the event has not read stays in
its buffer, which the poll on the socket does not see.
-/

namespace LuaMumble.Tcp

open Lib Lib.LittleEndian

/-- The calls of the next `k` events return all the bytes they ask for, as far
as there are bytes: they may return as many as an `int` can ask for. -/
def Ample (k : Nat) (schedule : List (Option Nat)) : Prop :=
  2 * k ≤ schedule.length ∧ ∀ entry ∈ schedule, ∃ n, entry = some n ∧ 2 ^ 31 ≤ n + 1

/-- The event is a UV_READABLE without error, and a body can be allocated. -/
def PollEvent.Reads (event : PollEvent) : Prop :=
  0 ≤ event.status ∧ event.readable = true ∧ event.malloc = true

instance (event : PollEvent) : Decidable event.Reads :=
  inferInstanceAs (Decidable (_ ∧ _ ∧ _))

/-- The frames that the reader takes from the stream and hands on: one of a known
type needs a body if it has a handler, of a length that is an `int`, and one of
an unknown type must have none. -/
def Frame.Deliverable (frame : Frame) : Prop :=
  if frame.type.toNat < packetHandler.length then
    (frame.dispatch ≠ none → frame.body ≠ []) ∧ frame.body.length < 2 ^ 31
  else frame.body = []

instance (frame : Frame) : Decidable frame.Deliverable := by
  unfold Frame.Deliverable
  infer_instance

/-- The calls are those that the frames are due, and after each event what is
left of the stream begins with a header. -/
def Delivers (client : MumbleClient) (events : List PollEvent) (frames : List Frame) : Prop :=
  (Machine.outputs socketReadEventTcp client events).flatten = handled frames ∧
    ∀ k ≤ events.length, ∃ rest, rest <:+ frames ∧
      (Machine.final socketReadEventTcp client (events.take k)).ssl.pending = stream rest

/-- Some bytes in a row are a frame. -/
def HoldsFrame (bytes : List UInt8) : Prop :=
  ∃ frame : Frame, frame.bytes <:+: bytes

/-- The frames that one event can take: one, if `SSL_read` can be asked for its
body. A longer body stays in the buffer, which is harmless only where nobody
waits for it and where it does not look like a frame. -/
def FitsOneEvent : List Frame → Prop
  | [] => True
  | [frame] => frame.body.length < 2 ^ 31 ∨ (frame.dispatch = none ∧ ¬ HoldsFrame frame.body)
  | _ => False

theorem Ample.split {k : Nat} {schedule : List (Option Nat)} (h : Ample (k + 1) schedule) :
    ∃ n m rest, schedule = some n :: some m :: rest ∧ 2 ^ 31 ≤ n + 1 ∧ 2 ^ 31 ≤ m + 1 ∧
      Ample k rest ∧ Ample k (some m :: rest) := by
  obtain ⟨hlength, hall⟩ := h
  match schedule, hlength, hall with
  | first :: second :: rest, hlength, hall =>
      obtain ⟨n, rfl, hn⟩ := hall first (List.mem_cons_self ..)
      obtain ⟨m, rfl, hm⟩ := hall second (List.mem_cons_of_mem _ (List.mem_cons_self ..))
      have htail : ∀ entry ∈ some m :: rest, ∃ n, entry = some n ∧ 2 ^ 31 ≤ n + 1 := by
        intro entry hmem
        exact hall entry (List.mem_cons_of_mem _ hmem)
      simp only [List.length_cons] at hlength
      refine ⟨n, m, rest, rfl, hn, hm, ⟨by omega, ?_⟩, ⟨by rw [List.length_cons]; omega, htail⟩⟩
      intro entry hmem
      exact htail entry (List.mem_cons_of_mem _ hmem)
  | [_], hlength, _ => simp at hlength; omega
  | [], hlength, _ => simp at hlength

theorem toInt_neg {n : Nat} (hlow : 2 ^ 31 ≤ n) (hhigh : n < 2 ^ 32) : toInt n < 0 := by
  rw [toInt, BitVec.toInt_eq_toNat_cond, BitVec.toNat_ofNat, Nat.mod_eq_of_lt hhigh]
  split <;> omega

theorem Frame.dispatch_of_unknown {frame : Frame}
    (h : ¬ frame.type.toNat < packetHandler.length) : frame.dispatch = none := by
  have hnone : packetHandler.getD frame.type.toNat none = none := by
    rw [List.getD_eq_getElem?_getD, List.getElem?_eq_none (Nat.not_lt.mp h), Option.getD_none]
  rw [Frame.dispatch, hnone, Option.map_none]

theorem Frame.bytes_length (frame : Frame) :
    frame.bytes.length = packetHeaderSize + frame.body.length := by
  rw [Frame.bytes, List.length_append, frame.header_length]

theorem stream_append (xs ys : List Frame) : stream (xs ++ ys) = stream xs ++ stream ys :=
  List.flatMap_append

section Step

variable {client : MumbleClient} {event : PollEvent} {frame : Frame} {pending : List UInt8}
  {n m : Nat} {rest : List (Option Nat)}

/-- One event where the reader is in front of a frame that it can take. -/
theorem socketReadEventTcp_deliverable (client : MumbleClient) (hreads : event.Reads)
    (hconnected : client.connected = true)
    (hpacket : client.tcpReadPacket = .empty)
    (hssl : client.ssl = ⟨frame.bytes ++ pending, some n :: some m :: rest⟩)
    (hn : 2 ^ 31 ≤ n + 1) (hm : 2 ^ 31 ≤ m + 1) (hframe : frame.Deliverable) :
    ∃ schedule, (schedule = rest ∨ schedule = some m :: rest) ∧
      socketReadEventTcp client event =
        (frame.dispatch.toList, { client with ssl := ⟨pending, schedule⟩ }) := by
  have hstatus : ¬ event.status < 0 := not_lt.mpr hreads.1
  have hheader : packetHeaderSize ≤ n + 1 := by
    rw [packetHeaderSize]
    omega
  unfold Frame.Deliverable at hframe
  split at hframe
  · rename_i htype
    obtain ⟨hhandler, hint⟩ := hframe
    by_cases hbody : frame.body = []
    · have hnone : frame.dispatch = none := not_not.mp fun h => hhandler h hbody
      refine ⟨some m :: rest, Or.inr rfl, ?_⟩
      have hfirst := readHeader_frame client hpacket hssl hheader
      rw [if_neg (Nat.not_le.mpr htype), hbody, List.nil_append] at hfirst
      simp [socketReadEventTcp, hstatus, hreads.2.1, hreads.2.2, hconnected, hfirst, readBody,
        hnone]
    · refine ⟨rest, Or.inl rfl, ?_⟩
      exact socketReadEventTcp_frame client hstatus hreads.2.1 hreads.2.2 hconnected hpacket
        ⟨htype, hbody⟩ hssl hheader (by omega) hint
  · rename_i htype
    refine ⟨some m :: rest, Or.inr rfl, ?_⟩
    have hfirst := readHeader_frame client hpacket hssl hheader
    rw [if_pos (Nat.not_lt.mp htype), hframe, List.nil_append] at hfirst
    simp [socketReadEventTcp, hstatus, hreads.2.1, hreads.2.2, hconnected, hfirst,
      Frame.dispatch_of_unknown htype]

/-- One event that leaves a body behind: the type is unknown, or `SSL_read` is
asked for a negative number of bytes. -/
theorem socketReadEventTcp_leaves (client : MumbleClient) (hreads : event.Reads)
    (hconnected : client.connected = true)
    (hpacket : client.tcpReadPacket = .empty)
    (hssl : client.ssl = ⟨frame.bytes ++ pending, some n :: some m :: rest⟩)
    (hn : 2 ^ 31 ≤ n + 1)
    (hleft : ¬ frame.type.toNat < packetHandler.length ∨ 2 ^ 31 ≤ frame.body.length) :
    (socketReadEventTcp client event).1 = [] ∧
      (socketReadEventTcp client event).2.ssl.pending = frame.body ++ pending := by
  have hstatus : ¬ event.status < 0 := not_lt.mpr hreads.1
  have hheader : packetHeaderSize ≤ n + 1 := by
    rw [packetHeaderSize]
    omega
  have hfirst := readHeader_frame client hpacket hssl hheader
  by_cases htype : frame.type.toNat < packetHandler.length
  · have hlong : 2 ^ 31 ≤ frame.body.length := hleft.resolve_left (not_not.mpr htype)
    have hpositive : 0 < frame.body.length := by omega
    have hnegative : toInt frame.body.length < 0 := toInt_neg hlong frame.body_length_lt
    rw [if_neg (Nat.not_le.mpr htype)] at hfirst
    simp only [socketReadEventTcp, hstatus, hreads.2.1, hreads.2.2, hconnected, hfirst,
      Bool.and_self, if_true, if_false, readBody, Option.getD_some, frame.header_length,
      List.length_nil, hpositive, and_self, Nat.sub_zero, sslRead, hnegative, handleSslReadError,
      mumbleDisconnect, true_and]
    split
    · rfl
    · rfl
  · rw [if_pos (Nat.not_lt.mp htype)] at hfirst
    simp [socketReadEventTcp, hstatus, hreads.2.1, hreads.2.2, hconnected, hfirst]

theorem socketReadEventTcp_drained (client : MumbleClient) (hreads : event.Reads)
    (hconnected : client.connected = true)
    (hpacket : client.tcpReadPacket = .empty) (hssl : client.ssl = ⟨[], some n :: rest⟩) :
    socketReadEventTcp client event = ([], { client with ssl := ⟨[], rest⟩ }) := by
  have hstatus : ¬ event.status < 0 := not_lt.mpr hreads.1
  have hask : ¬ toInt (packetHeaderSize - 0) < 0 := by
    rw [Nat.sub_zero, toInt_of_lt (by rw [packetHeaderSize]; omega)]
    exact not_lt.mpr (Int.natCast_nonneg _)
  have hempty : 0 < packetHeaderSize := Nat.succ_pos 5
  have hfirst : readHeader event.malloc client (startPacket client.tcpReadPacket) =
      (none, { client with ssl := ⟨[], rest⟩ }) := by
    rw [startPacket_empty hpacket]
    simp only [readHeader, Option.getD_some, List.length_nil, hempty, if_true, hssl, sslRead, hask,
      if_false, List.take_nil, handleSslReadError]
  simp [socketReadEventTcp, hstatus, hreads.2.1, hconnected, hfirst]

/-- A handler is called with the whole of a body, which is not empty. -/
theorem dispatched_ne_nil (client : MumbleClient) (event : PollEvent) :
    ∀ call ∈ (socketReadEventTcp client event).1, call.body ≠ [] := by
  intro call hmem
  have hbody (client : MumbleClient) (packet : MumblePacket)
      (hmem : call ∈ (readBody client packet).1) : call.body ≠ [] := by
    unfold readBody at hmem
    dsimp only at hmem
    split at hmem
    · rename_i hmore
      split at hmem
      · split at hmem
        · rename_i hall
          split at hmem
          · obtain rfl := List.mem_singleton.mp hmem
            dsimp only
            intro hnil
            rw [hnil] at hall
            have hlength := hmore.2
            rw [← hall] at hlength
            exact Nat.not_lt_zero _ hlength
          · cases hmem
        · cases hmem
      · cases hmem
    · cases hmem
  unfold socketReadEventTcp at hmem
  split at hmem
  · cases hmem
  · split at hmem
    · split at hmem
      · exact hbody _ _ hmem
      · cases hmem
    · cases hmem

end Step

/-- The run over frames that can be taken, by induction on the events; bytes
behind the frames stay where they are. -/
theorem delivered_run (client : MumbleClient) (events : List PollEvent) (frames : List Frame)
    (tail : List UInt8) (k : Nat) (hreads : ∀ event ∈ events, event.Reads)
    (hconnected : client.connected = true) (hpacket : client.tcpReadPacket = .empty)
    (hpending : client.ssl.pending = stream frames ++ tail)
    (hample : Ample (k + events.length) client.ssl.schedule)
    (hframes : ∀ frame ∈ frames, frame.Deliverable)
    (htail : events.length ≤ frames.length ∨ tail = []) :
    (Machine.outputs socketReadEventTcp client events).flatten =
        handled (frames.take events.length) ∧
      ∃ schedule, Ample k schedule ∧ Machine.final socketReadEventTcp client events =
        { client with ssl := ⟨stream (frames.drop events.length) ++ tail, schedule⟩ } := by
  induction events generalizing client frames with
  | nil =>
      refine ⟨rfl, client.ssl.schedule, hample, ?_⟩
      rw [List.length_nil, List.drop_zero, ← hpending]
      rfl
  | cons event later ih =>
      obtain ⟨connecting, connected, packet, ⟨bytes, schedule⟩⟩ := client
      dsimp only at hconnected hpacket hpending hample
      subst hpending
      have hevent : event.Reads := hreads event (List.mem_cons_self ..)
      have hlater : ∀ event ∈ later, event.Reads := by
        intro event hmem
        exact hreads event (List.mem_cons_of_mem _ hmem)
      rw [List.length_cons, ← Nat.add_assoc] at hample
      obtain ⟨n, m, rest, rfl, hn, hm, hrest, hmore⟩ := hample.split
      cases frames with
      | nil =>
          obtain rfl : tail = [] := htail.resolve_left (by simp)
          have hstep := socketReadEventTcp_drained
            ⟨connecting, connected, packet, ⟨[], some n :: some m :: rest⟩⟩
            hevent hconnected hpacket rfl
          obtain ⟨hcalls, left, hleft, hfinal⟩ := ih
            ⟨connecting, connected, packet, ⟨[], some m :: rest⟩⟩ [] hlater hconnected hpacket rfl
            hmore hframes (Or.inr rfl)
          refine ⟨?_, left, hleft, ?_⟩
          · simpa [Machine.outputs, stream, hstep] using hcalls
          · simpa [Machine.final, stream, hstep] using hfinal
      | cons frame frames =>
          have hssl : (⟨stream (frame :: frames) ++ tail, some n :: some m :: rest⟩ : Ssl) =
              ⟨frame.bytes ++ (stream frames ++ tail), some n :: some m :: rest⟩ := by
            rw [← List.append_assoc]
            rfl
          obtain ⟨schedule, hschedule, hstep⟩ := socketReadEventTcp_deliverable
            ⟨connecting, connected, packet,
              ⟨stream (frame :: frames) ++ tail, some n :: some m :: rest⟩⟩
            hevent hconnected hpacket hssl hn hm (hframes frame (List.mem_cons_self ..))
          have hample' : Ample (k + later.length) schedule := by
            rcases hschedule with rfl | rfl
            · exact hrest
            · exact hmore
          obtain ⟨hcalls, left, hleft, hfinal⟩ := ih
            ⟨connecting, connected, packet, ⟨stream frames ++ tail, schedule⟩⟩ frames hlater
            hconnected hpacket rfl hample'
            (fun frame hmem => hframes frame (List.mem_cons_of_mem _ hmem))
            (htail.imp_left (by simp))
          refine ⟨?_, left, hleft, ?_⟩
          · rw [Machine.outputs, List.flatten_cons, hstep, hcalls]
            cases hdue : frame.dispatch with
            | none => simp [handled, hdue]
            | some call => simp [handled, hdue]
          · rw [Machine.final, hstep, hfinal, List.length_cons, List.drop_succ_cons]

/-- A body left in front of a header is not the beginning of any frame of the
list: what is left is too long for the frames behind it, and too short for more. -/
theorem left_body_not_boundary {before rest later : List Frame} {frame : Frame}
    (hbody : frame.body ≠ []) (hsuffix : later <:+ before ++ frame :: rest) :
    frame.body ++ stream rest ≠ stream later := by
  intro heq
  have hpositive : 0 < frame.body.length := List.length_pos_iff.mpr hbody
  have hlengths : frame.body.length + (stream rest).length = (stream later).length := by
    rw [← List.length_append, heq]
  have hlong (done : List Frame) : (stream (done ++ frame :: rest)).length =
      (stream done).length + (packetHeaderSize + frame.body.length + (stream rest).length) := by
    have hcons : (stream (frame :: rest)).length = frame.bytes.length + (stream rest).length :=
      List.length_append
    rw [stream_append, List.length_append, hcons, frame.bytes_length]
  rcases List.suffix_or_suffix_of_suffix hsuffix (List.suffix_append _ _) with hshort | hmore
  · rcases List.suffix_cons_iff.mp hshort with rfl | ⟨done, rfl⟩
    · have hall := hlong []
      rw [List.nil_append] at hall
      rw [packetHeaderSize] at hall
      omega
    · rw [stream_append, List.length_append] at hlengths
      omega
  · obtain ⟨done, rfl⟩ := hmore
    have hall := hlong done
    rw [packetHeaderSize] at hall
    omega

theorem dispatched_run_ne_nil (client : MumbleClient) (events : List PollEvent) :
    ∀ call ∈ (Machine.outputs socketReadEventTcp client events).flatten, call.body ≠ [] := by
  induction events generalizing client with
  | nil =>
      intro call hmem
      cases hmem
  | cons event later ih =>
      intro call hmem
      rw [Machine.outputs, List.flatten_cons, List.mem_append] at hmem
      rcases hmem with hfirst | hlater
      · exact dispatched_ne_nil client event call hfirst
      · exact ih _ call hlater

theorem exists_first_undeliverable {frames : List Frame}
    (h : ¬ ∀ frame ∈ frames, frame.Deliverable) :
    ∃ before frame rest, frames = before ++ frame :: rest ∧
      (∀ frame ∈ before, frame.Deliverable) ∧ ¬ frame.Deliverable := by
  induction frames with
  | nil => exact absurd (by simp) h
  | cons first frames ih =>
      by_cases hfirst : first.Deliverable
      · have htail : ¬ ∀ frame ∈ frames, frame.Deliverable := by
          intro hall
          exact h (List.forall_mem_cons.mpr ⟨hfirst, hall⟩)
        obtain ⟨before, frame, rest, rfl, hbefore, hbad⟩ := ih htail
        exact ⟨first :: before, frame, rest, rfl, List.forall_mem_cons.mpr ⟨hfirst, hbefore⟩, hbad⟩
      · exact ⟨[], first, frames, rfl, by simp, hfirst⟩

theorem Ample.mono {j k : Nat} {schedule : List (Option Nat)} (h : Ample k schedule)
    (hle : j ≤ k) : Ample j schedule :=
  ⟨(Nat.mul_le_mul_left 2 hle).trans h.1, h.2⟩

theorem not_holdsFrame_nil : ¬ HoldsFrame [] := by
  rintro ⟨frame, hinfix⟩
  obtain ⟨hheader, _⟩ := List.append_eq_nil_iff.mp (List.infix_nil.mp hinfix)
  exact frame.header_ne_nil hheader

theorem holdsFrame_stream (bytes : List UInt8) (frame : Frame) (rest : List Frame) :
    HoldsFrame (bytes ++ stream (frame :: rest)) :=
  ⟨frame, bytes, stream rest, List.append_assoc ..⟩

/-- One event on a buffer of complete frames takes all of them just when there is
at most one, of a length that can be read. -/
theorem drains_iff (client : MumbleClient) (event : PollEvent) (frames : List Frame)
    (hreads : event.Reads) (hconnected : client.connected = true)
    (hpacket : client.tcpReadPacket = .empty) (hpending : client.ssl.pending = stream frames)
    (hample : Ample 1 client.ssl.schedule) (hknown : ∀ frame ∈ frames, frame.Known) :
    ((socketReadEventTcp client event).1 = handled frames ∧
      ¬ HoldsFrame (socketReadEventTcp client event).2.ssl.pending) ↔ FitsOneEvent frames := by
  obtain ⟨connecting, connected, packet, ⟨bytes, schedule⟩⟩ := client
  dsimp only at hconnected hpacket hpending hample
  subst hpending
  obtain ⟨n, m, left, rfl, hn, hm, _, _⟩ := hample.split
  cases frames with
  | nil =>
      have hstep := socketReadEventTcp_drained
        ⟨connecting, connected, packet, ⟨[], some n :: some m :: left⟩⟩
        hreads hconnected hpacket rfl
      have hempty : stream [] = [] := rfl
      rw [hempty, hstep]
      exact iff_of_true ⟨rfl, not_holdsFrame_nil⟩ trivial
  | cons frame rest =>
      obtain ⟨htype, hbody⟩ := hknown frame (List.mem_cons_self ..)
      have hstream : stream (frame :: rest) = frame.bytes ++ stream rest := rfl
      by_cases hlong : 2 ^ 31 ≤ frame.body.length
      · obtain ⟨hcalls, hleft⟩ := socketReadEventTcp_leaves
          ⟨connecting, connected, packet, ⟨stream (frame :: rest), some n :: some m :: left⟩⟩
          hreads hconnected hpacket (by rw [hstream]) hn (Or.inr hlong)
        rw [hcalls, hleft]
        cases rest with
        | nil =>
            have hnil : stream [] = [] := rfl
            rw [FitsOneEvent, hnil, List.append_nil, or_iff_right (Nat.not_lt.mpr hlong)]
            cases hdue : frame.dispatch with
            | none => simp [handled, hdue]
            | some call => simp [handled, hdue]
        | cons next rest =>
            exact iff_of_false (fun h => h.2 (holdsFrame_stream _ _ _)) id
      · have hstatus : ¬ event.status < 0 := not_lt.mpr hreads.1
        have hstep := socketReadEventTcp_frame
          ⟨connecting, connected, packet, ⟨stream (frame :: rest), some n :: some m :: left⟩⟩
          hstatus hreads.2.1 hreads.2.2 hconnected hpacket ⟨htype, hbody⟩ (by rw [hstream])
          (by rw [packetHeaderSize]; omega) (by omega) (Nat.not_le.mp hlong)
        rw [hstep]
        cases rest with
        | nil =>
            refine iff_of_true ⟨?_, not_holdsFrame_nil⟩ (Or.inl (Nat.not_le.mp hlong))
            cases hdue : frame.dispatch with
            | none => simp [handled, hdue]
            | some call => simp [handled, hdue]
        | cons next rest =>
            exact iff_of_false (fun h => h.2 (holdsFrame_stream [] _ _)) id

/-- One ping in the buffer. -/
theorem drains_ping :
    let client := connectedClient [⟨3, [7], by decide⟩] [some (2 ^ 31), some (2 ^ 31)]
    ((socketReadEventTcp client ⟨0, true, true⟩).1 = handled [⟨3, [7], by decide⟩] ∧
      ¬ HoldsFrame (socketReadEventTcp client ⟨0, true, true⟩).2.ssl.pending) ↔
      FitsOneEvent [⟨3, [7], by decide⟩] := by
  refine drains_iff (connectedClient [⟨3, [7], by decide⟩] [some (2 ^ 31), some (2 ^ 31)])
    ⟨0, true, true⟩ [⟨3, [7], by decide⟩] (by decide) rfl rfl rfl ?_ (by decide)
  exact ⟨by decide, fun entry hmem => ⟨2 ^ 31, List.eq_of_mem_replicate (n := 2) hmem, by decide⟩⟩

/-- Two pings in the buffer: the second one stays there. -/
theorem second_frame_stranded :
    ¬ ∀ (client : MumbleClient) (event : PollEvent) (frames : List Frame),
      event.Reads → client.connected = true → client.tcpReadPacket = .empty →
      client.ssl.pending = stream frames → Ample 1 client.ssl.schedule →
      (∀ frame ∈ frames, frame.Known) →
      ¬ HoldsFrame (socketReadEventTcp client event).2.ssl.pending := by
  intro h
  have hleft := h (connectedClient [⟨3, [7], by decide⟩, ⟨3, [8], by decide⟩]
    [some (2 ^ 31), some (2 ^ 31)]) ⟨0, true, true⟩ [⟨3, [7], by decide⟩, ⟨3, [8], by decide⟩]
    (by decide) rfl rfl rfl
    ⟨by decide, fun entry hmem => ⟨2 ^ 31, List.eq_of_mem_replicate (n := 2) hmem, by decide⟩⟩
    (by decide)
  refine hleft ⟨⟨3, [8], by decide⟩, [], [], ?_⟩
  decide

end LuaMumble.Tcp
