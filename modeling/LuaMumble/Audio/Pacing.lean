import LuaMumble.Audio.Bandwidth
import LuaMumble.Lib.Machine
import LuaMumble.Lib.Ticker

/-!
The pace of the audio. A thread of its own looks at the clock, and wakes the main thread when the
time of a packet is over; the main thread then mixes one packet and sends one. The threads share
the packet size, a flag and the handle of the loop; a step is what a thread does between two uses of
them. The thread may wake up late, and also early. A `uint64_t` of nanoseconds does not run over.
-/

namespace LuaMumble.Audio.Pacing

open Lib Bandwidth
open Ticker (Turn catchUp Moved InTime total)

variable {E : Type}

/-- Where `mumble_audio_playback_thread` is. With the time that it read from the clock it raises the
flag, calls `uv_async_send` and moves `audio_playback_next`. -/
inductive PlaybackThread where
  | looking
  | raising (now : Nat)
  | signalling (now : Nat)
  | advancing (now : Nat)
  | finished
  deriving DecidableEq

/-- A call of `audio_encode_event`: how many turns were over when the flag was raised, the time of
the clock in the turn that raised it, and the time of the call. -/
structure Tick where
  turn : Nat
  due : Nat
  time : Nat
  deriving DecidableEq

/-- `signalled` says that the loop has the callback of `audio_playback_async` to run. The last two
members are the history, from the last one back; `raised` says which turn raised the flag. -/
structure State (E : Type) where
  client : MumbleClient E
  connected : Bool
  clock : Nat
  audioPlaybackThreadRunning : Bool
  audioPlaybackAsyncPending : Bool
  audioPlaybackNext : Nat
  audioPlaybackLast : Nat
  signalled : Bool
  thread : PlaybackThread
  raised : Nat × Nat
  turns : List Turn
  ticks : List Tick

/-- `AUDIO_DEFAULT_FRAMES` -/
def audioDefaultFrames : UInt32 := 20

/-- `mumble_client_new` at a time of the clock. -/
def mumbleClientNew (encoder : E) (maxBandwidth : UInt32) (start : Nat) : State E where
  client := ⟨audioDefaultFrames, maxBandwidth, encoder⟩
  connected := false
  clock := start
  audioPlaybackThreadRunning := true
  audioPlaybackAsyncPending := false
  audioPlaybackNext := start
  audioPlaybackLast := start
  signalled := false
  thread := .looking
  raised := (0, 0)
  turns := []
  ticks := []

inductive Event where
  /-- Nanoseconds go by. -/
  | elapse (time : Nat)
  | playbackThread
  | playbackAsync
  | setAudioPacketSize (size : Int)
  | serverSync (maxBandwidth : UInt32)
  | setConnected (connected : Bool)
  | shutdown

/-- `client_setAudioPacketSize`; other sizes are an error. -/
def clientSetAudioPacketSize (client : MumbleClient E) (size : Int) : MumbleClient E :=
  if size ∈ [(10 : Int), 20, 40, 60] then { client with audioFrames := UInt32.ofInt size }
  else client

namespace State

variable (s : State E)

/-- `frame_interval_ns` -/
def frameInterval : Nat := (s.client.audioFrames * 1000000).toNat

/-- The end of a turn. -/
def advance (now : Nat) : Option (State E) :=
  (catchUp s.frameInterval now (now - s.audioPlaybackNext + 2) s.audioPlaybackNext).map fun next =>
    { s with
      audioPlaybackNext := next
      thread := .looking
      turns := ⟨now, s.frameInterval⟩ :: s.turns }

/-- A step of `mumble_audio_playback_thread`. -/
def playbackThread : Option (State E) :=
  match s.thread with
  | .looking =>
      some (if s.audioPlaybackThreadRunning then
        if s.audioPlaybackNext ≤ s.clock then
          { s with audioPlaybackLast := s.clock, thread := .raising s.clock }
        else s
      else { s with thread := .finished })
  | .raising now =>
      some (if s.connected then
        { s with
          audioPlaybackAsyncPending := true
          raised := (s.turns.length, now)
          thread := .signalling now }
      else { s with thread := .advancing now })
  | .signalling now => some { s with signalled := true, thread := .advancing now }
  | .advancing now => s.advance now
  | .finished => some s

/-- `mumble_audio_playback_async`, if the loop has to run it. -/
def playbackAsync : State E :=
  if s.signalled then
    let s := { s with signalled := false }
    if s.audioPlaybackAsyncPending then
      let s := { s with audioPlaybackAsyncPending := false }
      if s.connected then { s with ticks := ⟨s.raised.1, s.raised.2, s.clock⟩ :: s.ticks } else s
    else s
  else s

end State

def step (opus : Opus E) (s : Option (State E)) (e : Event) : Unit × Option (State E) :=
  ((), s.bind fun s =>
    match e with
    | .elapse time => some { s with clock := s.clock + time }
    | .playbackThread => s.playbackThread
    | .playbackAsync => some s.playbackAsync
    | .setAudioPacketSize size => some { s with client := clientSetAudioPacketSize s.client size }
    | .serverSync maxBandwidth =>
        some { s with client := packetServerSync opus s.client maxBandwidth }
    | .setConnected connected => some { s with connected := connected }
    | .shutdown => some { s with audioPlaybackThreadRunning := false })

section Invariant

variable {opus : Opus E} {start : Nat} {s : State E}

/-- `frame_interval_ns` for packets of 10 milliseconds. -/
def shortestInterval : Nat := 10 * 1000000

/-- The turn that the thread is taking. -/
def PlaybackThread.now : PlaybackThread → Option Nat
  | .looking | .finished => none
  | .raising now | .signalling now | .advancing now => some now

/-- The thread can raise the flag before it has moved `audio_playback_next`. -/
def PlaybackThread.mayRaise : PlaybackThread → Bool
  | .looking | .raising _ | .finished => true
  | .signalling _ | .advancing _ => false

/-- The times of the clock in all turns, the first one first. -/
def State.times (s : State E) : List Nat :=
  (s.turns.map Turn.now).reverse ++ s.thread.now.toList

/-- The flag was raised in the turn with this number, at this time, and not since. -/
structure RaisedAt (s : State E) (turn due : Nat) : Prop where
  due : s.times[turn]? = some due
  earlier : turn < s.turns.length ∨ s.thread.mayRaise = false

structure Inv (start : Nat) (s : State E) : Prop where
  frames : s.client.audioFrames ∈ packetSizes
  intervals : ∀ turn ∈ s.turns, shortestInterval ≤ turn.interval
  moved : Moved start s.turns s.audioPlaybackNext
  due : ∀ now, s.thread.now = some now → s.audioPlaybackNext ≤ now
  past : ∀ time ∈ s.times, time ≤ s.clock
  started : start ≤ s.clock
  ticked : ∀ tick ∈ s.ticks, RaisedAt s tick.turn tick.due ∧ tick.due ≤ tick.time
  pending : s.audioPlaybackAsyncPending = true →
    RaisedAt s s.raised.1 s.raised.2 ∧ ∀ tick ∈ s.ticks, tick.turn < s.raised.1
  distinct : s.ticks.Pairwise fun later earlier => earlier.turn < later.turn

theorem inv_new (encoder : E) (maxBandwidth : UInt32) :
    Inv start (mumbleClientNew encoder maxBandwidth start) where
  frames := (by decide : audioDefaultFrames ∈ packetSizes)
  intervals := by simp [mumbleClientNew]
  moved := rfl
  due := by simp [mumbleClientNew, PlaybackThread.now]
  past := by simp [mumbleClientNew, State.times, PlaybackThread.now]
  started := Nat.le_refl _
  ticked := by simp [mumbleClientNew]
  pending := by simp [mumbleClientNew]
  distinct := List.Pairwise.nil

/-- The allowed sizes are from 10 to 60 milliseconds. -/
theorem Inv.frameInterval (h : Inv start s) : shortestInterval ≤ s.frameInterval := by
  have hframes := h.frames
  simp only [packetSizes, List.mem_cons, List.not_mem_nil, or_false] at hframes
  rcases hframes with heq | heq | heq | heq <;> rw [State.frameInterval, heq] <;> decide

theorem audioFrames_set {client : MumbleClient E} (hframes : client.audioFrames ∈ packetSizes)
    (size : Int) : (clientSetAudioPacketSize client size).audioFrames ∈ packetSizes := by
  unfold clientSetAudioPacketSize
  split
  · next hsize =>
      simp only [List.mem_cons, List.not_mem_nil, or_false] at hsize
      have hall : ∀ size ∈ [(10 : Int), 20, 40, 60], UInt32.ofInt size ∈ packetSizes := by decide
      exact hall size (by simpa using hsize)
  · exact hframes

/-- Other sizes, and time that goes by. -/
theorem Inv.other (h : Inv start s) {client : MumbleClient E} {clock : Nat}
    {connected running : Bool}
    (hframes : client.audioFrames ∈ packetSizes) (hclock : s.clock ≤ clock) :
    Inv start { s with
      client := client, clock := clock, connected := connected,
      audioPlaybackThreadRunning := running } where
  frames := hframes
  intervals := h.intervals
  moved := h.moved
  due := h.due
  past := fun time htime => (h.past time htime).trans hclock
  started := h.started.trans hclock
  ticked := fun tick htick => ⟨⟨(h.ticked tick htick).1.due, (h.ticked tick htick).1.earlier⟩,
    (h.ticked tick htick).2⟩
  pending := fun hpending => ⟨⟨(h.pending hpending).1.due, (h.pending hpending).1.earlier⟩,
    (h.pending hpending).2⟩
  distinct := h.distinct

theorem times_length : s.times.length = s.turns.length + s.thread.now.toList.length := by
  simp [State.times]

/-- What was raised stays raised while the turns go on. -/
theorem RaisedAt.mono {turn due : Nat} (h : RaisedAt s turn due) {s' : State E}
    (htimes : s.times <+: s'.times)
    (hearlier : turn < s'.turns.length ∨ s'.thread.mayRaise = false) : RaisedAt s' turn due where
  due := by
    obtain ⟨rest, hrest⟩ := htimes
    have hlt := (List.getElem?_eq_some_iff.mp h.due).1
    rw [← hrest, List.getElem?_append_left hlt, h.due]
  earlier := hearlier

/-- Where the thread can still raise the flag, the turn in which it was raised is over. -/
theorem RaisedAt.over {turn due : Nat} (h : RaisedAt s turn due)
    (hraise : s.thread.mayRaise = true) : turn < s.turns.length := by
  rcases h.earlier with hlt | hno
  · exact hlt
  · rw [hraise] at hno
    cases hno

/-- A step of the thread between two turns, or in one. -/
theorem Inv.move (h : Inv start s) (thread : PlaybackThread) (last : Nat) (signalled : Bool)
    (htimes : s.times <+: (s.turns.map Turn.now).reverse ++ thread.now.toList)
    (hdue : ∀ now, thread.now = some now → s.audioPlaybackNext ≤ now ∧ now ≤ s.clock)
    (hraise : s.thread.mayRaise = false → thread.mayRaise = false) :
    Inv start { s with
      thread := thread, audioPlaybackLast := last, signalled := signalled } where
  frames := h.frames
  intervals := h.intervals
  moved := h.moved
  due := fun now hnow => (hdue now hnow).1
  past := by
    intro time htime
    rcases List.mem_append.mp htime with hturn | hnow
    · exact h.past time (List.mem_append_left _ hturn)
    · exact (hdue time (by simpa using hnow)).2
  started := h.started
  ticked := by
    intro tick htick
    obtain ⟨hraised, htime⟩ := h.ticked tick htick
    exact ⟨hraised.mono htimes (hraised.earlier.imp_right hraise), htime⟩
  pending := by
    intro hpending
    obtain ⟨hraised, hafter⟩ := h.pending hpending
    exact ⟨hraised.mono htimes (hraised.earlier.imp_right hraise), hafter⟩
  distinct := h.distinct

/-- The end of a turn. -/
theorem Inv.advance (h : Inv start s) {now : Nat} (hthread : s.thread = .advancing now) :
    ∃ s', s.advance now = some s' ∧ Inv start s' := by
  have hdue := h.due now (by rw [hthread]; rfl)
  have hinterval := h.frameInterval
  obtain ⟨next, hrun, hmoves⟩ := Ticker.catchUp_moves
    (Nat.lt_of_lt_of_le (by decide) hinterval) hdue (Nat.le_refl _)
  refine ⟨_, by rw [State.advance, hrun]; rfl, ?_⟩
  have htimes : s.times <+: ((⟨now, s.frameInterval⟩ :: s.turns).map Turn.now).reverse := by
    rw [State.times, hthread, List.map_cons, List.reverse_cons]
    exact List.prefix_refl _
  have hover : ∀ {turn due : Nat}, RaisedAt s turn due → turn < s.turns.length + 1 := by
    intro turn due hraised
    have hlt := (List.getElem?_eq_some_iff.mp hraised.due).1
    rw [times_length, hthread] at hlt
    exact hlt
  exact {
    frames := h.frames
    intervals := by
      intro turn hturn
      rcases List.mem_cons.mp hturn with rfl | hturn
      · exact hinterval
      · exact h.intervals turn hturn
    moved := ⟨_, h.moved, hmoves⟩
    due := by
      intro now hnow
      cases hnow
    past := by
      intro time htime
      have hsame : time ∈ s.times := by
        simpa [State.times, hthread, PlaybackThread.now, or_comm] using htime
      exact h.past time hsame
    started := h.started
    ticked := by
      intro tick htick
      obtain ⟨hraised, htime⟩ := h.ticked tick htick
      exact ⟨hraised.mono (by simpa [State.times, PlaybackThread.now] using htimes)
        (Or.inl (hover hraised)), htime⟩
    pending := by
      intro hpending
      obtain ⟨hraised, hafter⟩ := h.pending hpending
      exact ⟨hraised.mono (by simpa [State.times, PlaybackThread.now] using htimes)
        (Or.inl (hover hraised)), hafter⟩
    distinct := h.distinct }

/-- A step of the thread. -/
theorem Inv.playbackThread (h : Inv start s) :
    ∃ s', s.playbackThread = some s' ∧ Inv start s' := by
  unfold State.playbackThread
  have htimes : s.times = (s.turns.map Turn.now).reverse ++ s.thread.now.toList := rfl
  cases hthread : s.thread with
  | looking =>
      rw [hthread] at htimes
      refine ⟨_, rfl, ?_⟩
      split_ifs with hrunning hdue
      · exact h.move _ _ _ ⟨[s.clock], by rw [htimes]; simp [PlaybackThread.now]⟩
          (fun now hnow => by cases hnow; exact ⟨hdue, Nat.le_refl _⟩)
          (by rw [hthread]; exact Bool.noConfusion)
      · exact h
      · exact h.move _ _ _ (by rw [htimes]; exact List.prefix_refl _)
          (fun now hnow => by cases hnow)
          (by rw [hthread]; exact Bool.noConfusion)
  | raising now =>
      rw [hthread] at htimes
      have hnow := h.due now (by rw [hthread]; rfl)
      have hpast := h.past now (by
        rw [htimes]
        exact List.mem_append_right _ (List.mem_singleton_self _))
      refine ⟨_, rfl, ?_⟩
      split_ifs with hconnected
      · have hmoved := h.move (.signalling now) s.audioPlaybackLast s.signalled
          (by rw [htimes]; exact List.prefix_refl _)
          (fun now' hnow' => by cases hnow'; exact ⟨hnow, hpast⟩) (fun _ => rfl)
        refine ⟨hmoved.frames, hmoved.intervals, hmoved.moved, hmoved.due, hmoved.past,
          hmoved.started, ?_, ?_, hmoved.distinct⟩
        · intro tick htick
          exact ⟨⟨(hmoved.ticked tick htick).1.due, (hmoved.ticked tick htick).1.earlier⟩,
            (hmoved.ticked tick htick).2⟩
        · intro _
          refine ⟨⟨?_, Or.inr rfl⟩, ?_⟩
          · simp [State.times, PlaybackThread.now]
          · intro tick htick
            exact (h.ticked tick htick).1.over (by rw [hthread]; rfl)
      · exact h.move _ _ _ (by rw [htimes]; exact List.prefix_refl _)
          (fun now' hnow' => by cases hnow'; exact ⟨hnow, hpast⟩) (fun _ => rfl)
  | signalling now =>
      rw [hthread] at htimes
      have hnow := h.due now (by rw [hthread]; rfl)
      have hpast := h.past now (by
        rw [htimes]
        exact List.mem_append_right _ (List.mem_singleton_self _))
      exact ⟨_, rfl, h.move _ _ _ (by rw [htimes]; exact List.prefix_refl _)
        (fun now' hnow' => by cases hnow'; exact ⟨hnow, hpast⟩) (fun _ => rfl)⟩
  | advancing now => exact h.advance hthread
  | finished => exact ⟨s, rfl, h⟩

/-- The callback on the main thread. -/
theorem Inv.playbackAsync (h : Inv start s) : Inv start s.playbackAsync := by
  unfold State.playbackAsync
  split_ifs with hsignalled
  · simp only
    split_ifs with hpending hconnected
    · obtain ⟨hraised, hafter⟩ := h.pending hpending
      refine ⟨h.frames, h.intervals, h.moved, h.due, h.past, h.started, ?_, by rintro ⟨⟩, ?_⟩
      · intro tick htick
        rcases List.mem_cons.mp htick with rfl | htick
        · refine ⟨⟨hraised.due, hraised.earlier⟩, ?_⟩
          exact h.past _ (List.mem_of_getElem? hraised.due)
        · exact ⟨⟨(h.ticked tick htick).1.due, (h.ticked tick htick).1.earlier⟩,
            (h.ticked tick htick).2⟩
      · exact List.pairwise_cons.mpr ⟨hafter, h.distinct⟩
    · exact ⟨h.frames, h.intervals, h.moved, h.due, h.past, h.started,
        fun tick htick => ⟨⟨(h.ticked tick htick).1.due, (h.ticked tick htick).1.earlier⟩,
          (h.ticked tick htick).2⟩, by rintro ⟨⟩, h.distinct⟩
    · exact h.move _ _ _ (List.prefix_refl _)
        (fun now hnow => ⟨h.due now hnow, h.past now (by simp [State.times, hnow])⟩) id
  · exact h

theorem Inv.step (h : Inv start s) (opus : Opus E) (e : Event) :
    ∃ s', (step opus (some s) e).2 = some s' ∧ Inv start s' := by
  cases e with
  | elapse time => exact ⟨_, rfl, h.other h.frames (Nat.le_add_right _ _)⟩
  | playbackThread => exact h.playbackThread
  | playbackAsync => exact ⟨_, rfl, h.playbackAsync⟩
  | setAudioPacketSize size =>
      exact ⟨_, rfl, h.other (audioFrames_set h.frames size) (Nat.le_refl _)⟩
  | serverSync maxBandwidth =>
      exact ⟨_, rfl, h.other (adjust_audioFrames h.frames) (Nat.le_refl _)⟩
  | setConnected connected => exact ⟨_, rfl, h.other h.frames (Nat.le_refl _)⟩
  | shutdown => exact ⟨_, rfl, h.other h.frames (Nat.le_refl _)⟩

theorem inv_run (opus : Opus E) (events : List Event) (h : Inv start s) :
    ∃ s', Machine.final (step opus) (some s) events = some s' ∧ Inv start s' :=
  Machine.invariant_final (fun s : Option (State E) => ∃ t, s = some t ∧ Inv start t)
    (by
      rintro s e ⟨t, rfl, h⟩
      exact h.step opus e)
    (some s) events ⟨s, rfl, h⟩

/-- Different turns are as many as there are numbers for them. -/
theorem pairwise_length {ticks : List Tick} (hdistinct : ticks.Pairwise fun later earlier =>
    earlier.turn < later.turn) {n : Nat} (hbound : ∀ tick ∈ ticks, tick.turn < n) :
    ticks.length ≤ n := by
  induction ticks generalizing n with
  | nil => exact Nat.zero_le _
  | cons last earlier ih =>
      obtain ⟨hbefore, hrest⟩ := List.pairwise_cons.mp hdistinct
      have hlast := hbound last List.mem_cons_self
      have hlength := ih hrest hbefore
      rw [List.length_cons]
      omega

/-- There is at most one call of `audio_encode_event` in each of the shortest packet times. -/
theorem Inv.ticks_le (h : Inv start s) :
    (s.ticks.length - 1) * shortestInterval ≤ s.clock - start := by
  have hlength : s.ticks.length ≤ s.times.length := pairwise_length h.distinct fun tick htick =>
    (List.getElem?_eq_some_iff.mp (h.ticked tick htick).1.due).1
  have hturns : (s.times.length - 1) * shortestInterval ≤ s.clock - start := by
    rw [times_length]
    cases hnow : s.thread.now with
    | none =>
        apply h.moved.length_pred_mul_le h.intervals
        intro turn hturn
        exact h.past _ (by simpa [State.times] using Or.inl ⟨turn, hturn, rfl⟩)
    | some now =>
        have hdue := h.due now hnow
        have hpast := h.past now (by simp [State.times, hnow])
        have htotal := h.moved.total_le
        have hall := Ticker.length_mul_le h.intervals
        rw [Option.toList_some, List.length_singleton, Nat.add_sub_cancel]
        omega
  exact (Nat.mul_le_mul_right _ (Nat.sub_le_sub_right hlength 1)).trans hturns

end Invariant

/-- **The audio keeps pace with the clock.** However late or early the threads get to run, and
however the packet size is changed meanwhile: between two turns of the playback thread lies more
time than the packets of the turns between them last; `audio_encode_event` runs at most once for
each turn, and behind it; so it never runs more often than once in each of the shortest packet
times. And `audio_playback_next` does not drift where no turn is late by a packet. -/
theorem keeps_pace (opus : Opus E) (encoder : E) (maxBandwidth : UInt32) (start : Nat)
    (events : List Event) :
    ∃ s, Machine.final (step opus) (some (mumbleClientNew encoder maxBandwidth start)) events =
        some s ∧
      (∀ later between earlier last first,
        s.turns = later ++ last :: (between ++ first :: earlier) →
          first.now + total between < last.now) ∧
      s.ticks.Pairwise (fun later earlier => earlier.turn < later.turn) ∧
      (∀ tick ∈ s.ticks, s.times[tick.turn]? = some tick.due ∧ tick.due ≤ tick.time) ∧
      (s.ticks.length - 1) * shortestInterval ≤ s.clock - start ∧
      (InTime start s.turns → s.audioPlaybackNext = start + total s.turns) := by
  obtain ⟨s, hrun, h⟩ := inv_run opus events (inv_new encoder maxBandwidth)
  refine ⟨s, hrun, ?_, h.distinct, ?_, h.ticks_le, h.moved.no_drift⟩
  · intro later between earlier last first hturns
    have hmoved := h.moved
    rw [hturns] at hmoved
    exact hmoved.spaced
  · intro tick htick
    exact ⟨(h.ticked tick htick).1.due, (h.ticked tick htick).2⟩

end LuaMumble.Audio.Pacing
