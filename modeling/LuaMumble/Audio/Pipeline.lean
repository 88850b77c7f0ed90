import LuaMumble.Audio.Encode
import LuaMumble.Lib.LinkedQueue
import LuaMumble.Lib.Machine
import Mathlib.Data.List.Infix

/-!
The way of a packet from the mixer to the network. `encode_audio` puts work on the queue of the
encode thread, which puts what it has encoded on the queue that `audio_send_event` empties. A
step is one operation on a queue, under the mutex of that queue, or what a thread does between
two of them; a step that follows a bad pointer has no result. The node of a push is allocated
at the address that the step is given.
-/

namespace LuaMumble.Audio.Transmission

open Lib Encode

/-- An `audio_work_t`. The pointer to it is its number in the order of creation. -/
structure Work (P E : Type*) extends AudioWork where
  id : Nat
  pcm : P
  encoded : Option E

variable {P E : Type*}

/-- The work as `encode_audio` made it. -/
def Work.unencoded (work : Work P E) : Work P E :=
  { work with encoded := none }

/-- Where the encode thread is: at the head of its loop, in `audio_queue_pop`, between the two
queues, or out of the loop. -/
inductive EncodeThread (P E : Type*) where
  | looping
  | popping
  | encoding (work : Work P E)
  | pushing (work : Work P E)
  | finished

/-- The two queues, the thread between them and what the two sides use of the client. The last
members are the history: the work that was created and that was handed to
`send_legacy_audio` or `send_protobuf_audio`, how often the sequence number was drawn, and the
running flag and the emptiness of the queue wherever `audio_queue_pop` returned `NULL`. -/
structure Pipeline (P E : Type*) where
  client : MumbleClient
  audioEncodeQueue : LinkedQueue (Work P E)
  audioSendQueue : LinkedQueue (Work P E)
  audioEncodeThreadRunning : Bool
  encodeThread : EncodeThread P E
  created : List (Work P E)
  handed : List (Work P E)
  drawn : Nat
  nullPops : List (Bool × Bool)

/-- `mumble_client_new` -/
def mumbleClientNew : Pipeline P E where
  client := ⟨false, 0⟩
  audioEncodeQueue := LinkedQueue.empty
  audioSendQueue := LinkedQueue.empty
  audioEncodeThreadRunning := true
  encodeThread := .looping
  created := []
  handed := []
  drawn := 0
  nullPops := []

/-- What happens next: the mixer calls `encode_audio` with what it mixed; `client:transmit`
draws a sequence number; the main thread runs `audio_send_event`; the encode thread takes a
step, where Opus would return `encoded`; `mumble_audio_queue_shutdown` clears the flag. -/
inductive Event (P E : Type*) where
  | encodeAudio (frameSize : Nat) (endFrame : Bool) (pcm : P) (address : Nat)
  | transmit
  | audioSendEvent
  | encodeThread (address : Nat) (encoded : E)
  | shutdown

section Queues

variable {A : Type*}

/-- The common end of the two pops: the front node is taken out and freed. -/
def popNode (queue : LinkedQueue A) (front : Nat) : Option (A × LinkedQueue A) :=
  (queue.nodes front).bind fun node =>
    queue.pop.map fun (_, queue) => (node.data, queue.free front)

/-- `audio_queue_pop_nonblocking` -/
def audioQueuePopNonblocking (queue : LinkedQueue A) : Option (Option A × LinkedQueue A) :=
  match queue.front with
  | none => some (none, queue)
  | some front => (popNode queue front).map fun (work, queue) => (some work, queue)

/-- A thread in `audio_queue_pop` waits on the condition, or it returns with a pointer. -/
inductive Popped (A : Type*) where
  | waiting
  | returned (work : Option A)

/-- `audio_queue_pop`, from one look at the queue under the mutex to the next. -/
def audioQueuePop (queue : LinkedQueue A) (running : Bool) :
    Option (Popped A × LinkedQueue A) :=
  match queue.front, running with
  | none, true => some (.waiting, queue)
  | none, false => some (.returned none, queue)
  | some front, _ =>
      (popNode queue front).map fun (work, queue) => (.returned (some work), queue)

end Queues

namespace Pipeline

variable (s : Pipeline P E)

/-- `malloc` returns no address that is in use. -/
def Unused (address : Nat) : Prop :=
  s.audioEncodeQueue.nodes address = none ∧ s.audioSendQueue.nodes address = none

instance (address : Nat) : Decidable (s.Unused address) :=
  decidable_of_iff ((s.audioEncodeQueue.nodes address).isNone ∧
    (s.audioSendQueue.nodes address).isNone) (by simp [Unused])

/-- `encode_audio`, with the samples that the mixer left in `audio_output`. -/
def encodeAudio (frameSize : Nat) (endFrame : Bool) (pcm : P) (address : Nat) :
    Option (Pipeline P E) :=
  match Encode.encodeAudio s.client frameSize endFrame with
  | (none, _) => some s
  | (some made, client) =>
      let work : Work P E := { made with id := s.created.length, pcm := pcm, encoded := none }
      if s.Unused address then
        (s.audioEncodeQueue.push address work).map fun queue =>
          { s with
            client := client
            audioEncodeQueue := queue
            created := s.created ++ [work]
            drawn := s.drawn + 1 }
      else some s

/-- `client:transmit`, as far as it goes here. -/
def transmit : Pipeline P E :=
  { s with
    client := { s.client with audioSequence := s.client.audioSequence + 1 }
    drawn := s.drawn + 1 }

/-- `audio_send_event` -/
def audioSendEvent : Option (Pipeline P E) :=
  (audioQueuePopNonblocking s.audioSendQueue).map fun (work, queue) =>
    { s with audioSendQueue := queue, handed := s.handed ++ work.toList }

/-- A step of `mumble_audio_encode_thread`. -/
def encodeStep (address : Nat) (encoded : E) : Option (Pipeline P E) :=
  match s.encodeThread with
  | .looping =>
      some { s with
        encodeThread := if s.audioEncodeThreadRunning then .popping else .finished }
  | .popping =>
      (audioQueuePop s.audioEncodeQueue s.audioEncodeThreadRunning).map fun (popped, queue) =>
        match popped with
        | .waiting => { s with audioEncodeQueue := queue }
        | .returned none =>
            { s with
              audioEncodeQueue := queue
              encodeThread := .finished
              nullPops := s.nullPops ++
                [(s.audioEncodeThreadRunning, s.audioEncodeQueue.front.isNone)] }
        | .returned (some work) =>
            { s with audioEncodeQueue := queue, encodeThread := .encoding work }
  | .encoding work => some { s with encodeThread := .pushing { work with encoded := some encoded } }
  | .pushing work =>
      if s.Unused address then
        (s.audioSendQueue.push address work).map fun queue =>
          { s with audioSendQueue := queue, encodeThread := .looping }
      else some s
  | .finished => some s

end Pipeline

def step (s : Option (Pipeline P E)) (e : Event P E) : Unit × Option (Pipeline P E) :=
  ((), s.bind fun s =>
    match e with
    | .encodeAudio frameSize endFrame pcm address => s.encodeAudio frameSize endFrame pcm address
    | .transmit => some s.transmit
    | .audioSendEvent => s.audioSendEvent
    | .encodeThread address encoded => s.encodeStep address encoded
    | .shutdown => some { s with audioEncodeThreadRunning := false })

namespace Pipeline

variable {s : Pipeline P E}

/-- The work between the two queues. -/
def inHand (s : Pipeline P E) : List (Work P E) :=
  match s.encodeThread with
  | .encoding work | .pushing work => [work]
  | _ => []

/-- Work is handed on exactly once and in the order of its creation, with sequence numbers that
rise until the counter wraps; `NULL` ends the encode thread at shutdown only, with nothing left
to do; and the ends of the queues agree. -/
structure InOrder (s : Pipeline P E) : Prop where
  handed : s.handed.map Work.unencoded <+: s.created
  created : s.created.map Work.id = List.range s.created.length
  rising : s.drawn ≤ 2 ^ 32 → s.handed.Pairwise fun a b => a.audioSequence < b.audioSequence
  null : ∀ pop ∈ s.nullPops, pop = (false, true)
  encodeEnds : s.audioEncodeQueue.front = none ↔ s.audioEncodeQueue.rear = none
  sendEnds : s.audioSendQueue.front = none ↔ s.audioSendQueue.rear = none

/-- The invariant: all work created is handed on, in the second queue, in hand or in the first
queue, in this order. -/
structure Inv (s : Pipeline P E) (waiting sending : List (Nat × Work P E)) : Prop where
  encodeQueue : s.audioEncodeQueue.Represents waiting
  sendQueue : s.audioSendQueue.Represents sending
  order : s.created = (s.handed ++ sending.map Prod.snd ++ s.inHand ++
    waiting.map Prod.snd).map Work.unencoded
  ids : s.created.map Work.id = List.range s.created.length
  sequence : s.client.audioSequence = UInt32.ofNat s.drawn
  rising : s.drawn ≤ 2 ^ 32 → s.created.Pairwise (fun a b => a.audioSequence < b.audioSequence) ∧
    ∀ work ∈ s.created, work.audioSequence.toNat < s.drawn
  null : ∀ pop ∈ s.nullPops, pop = (false, true)

theorem popNode_represents {A : Type*} {queue : LinkedQueue A} {a : Nat} {x : A}
    {cells : List (Nat × A)} (h : queue.Represents ((a, x) :: cells)) :
    ∃ queue', popNode queue a = some (x, queue') ∧ queue'.Represents cells := by
  obtain ⟨queue', hpop, hrepresents, -⟩ := h.pop
  obtain ⟨next, hnode⟩ := h.links.allocated (List.mem_cons_self ..)
  have hdistinct := h.distinct
  rw [List.map_cons, List.nodup_cons] at hdistinct
  refine ⟨queue'.free a, ?_, hrepresents.free hdistinct.1⟩
  simp only [popNode, hnode, hpop, Option.bind_some, Option.map_some]

variable {waiting sending : List (Nat × Work P E)}

theorem inv_new : Inv (mumbleClientNew : Pipeline P E) [] [] := by
  refine ⟨LinkedQueue.represents_empty, LinkedQueue.represents_empty, rfl, rfl, rfl, ?_, ?_⟩
  · intro _
    exact ⟨List.Pairwise.nil, by simp [mumbleClientNew]⟩
  · simp [mumbleClientNew]

theorem Inv.inOrder (h : Inv s waiting sending) : InOrder s := by
  have hhanded : s.handed.map Work.unencoded <+: s.created := by
    rw [h.order, List.append_assoc, List.append_assoc, List.map_append]
    exact List.prefix_append ..
  refine ⟨hhanded, h.ids, ?_, h.null, h.encodeQueue.front_none_iff, h.sendQueue.front_none_iff⟩
  intro hdrawn
  have hpairwise := (h.rising hdrawn).1.sublist hhanded.sublist
  rw [List.pairwise_map] at hpairwise
  exact hpairwise

/-- Sequence numbers rise until the counter wraps. -/
theorem rising_snoc {created : List (Work P E)} {work : Work P E} {drawn : Nat}
    (h : drawn ≤ 2 ^ 32 →
      created.Pairwise (fun a b => a.audioSequence < b.audioSequence) ∧
        ∀ other ∈ created, other.audioSequence.toNat < drawn)
    (hwork : work.audioSequence = UInt32.ofNat drawn) (hdrawn : drawn + 1 ≤ 2 ^ 32) :
    (created ++ [work]).Pairwise (fun a b => a.audioSequence < b.audioSequence) ∧
      ∀ other ∈ created ++ [work], other.audioSequence.toNat < drawn + 1 := by
  obtain ⟨hpairwise, hbelow⟩ := h (by omega)
  have hnumber : work.audioSequence.toNat = drawn := by
    rw [hwork]
    exact UInt32.toNat_ofNat_of_lt' (Nat.lt_of_succ_le hdrawn)
  constructor
  · rw [List.pairwise_append]
    refine ⟨hpairwise, List.pairwise_singleton _ _, ?_⟩
    intro a ha b hb
    rw [List.mem_singleton.mp hb, UInt32.lt_iff_toNat_lt, hnumber]
    exact hbelow a ha
  · intro other hother
    rcases List.mem_append.mp hother with hin | hin
    · exact Nat.lt_succ_of_lt (hbelow other hin)
    · rw [List.mem_singleton.mp hin, hnumber]
      exact Nat.lt_succ_self _

theorem Inv.encodeAudio (h : Inv s waiting sending) (frameSize : Nat) (endFrame : Bool) (pcm : P)
    (address : Nat) :
    ∃ s', s.encodeAudio frameSize endFrame pcm address = some s' ∧
      ∃ waiting' sending', Inv s' waiting' sending' := by
  by_cases hlarge : frameSize > maxPcmFrames
  · refine ⟨s, ?_, waiting, sending, h⟩
    simp only [Pipeline.encodeAudio, Encode.encodeAudio, if_pos hlarge]
  · simp only [Pipeline.encodeAudio, Encode.encodeAudio, if_neg hlarge]
    split
    · rename_i hunused
      obtain ⟨queue, hpush, hwaiting, -⟩ := h.encodeQueue.push hunused.1
        (⟨⟨frameSize, endFrame, s.client.audioSequence⟩, s.created.length, pcm, none⟩ : Work P E)
      rw [hpush]
      refine ⟨_, rfl, _, sending, hwaiting, h.sendQueue, ?_, ?_, ?_, ?_, h.null⟩
      · have horder := h.order
        simp only [inHand] at horder ⊢
        rw [horder]
        simp [Work.unencoded]
      · simp [h.ids, List.range_succ]
      · rw [h.sequence, UInt32.ofNat_add]
        rfl
      · intro hdrawn
        exact rising_snoc h.rising h.sequence hdrawn
    · exact ⟨s, rfl, waiting, sending, h⟩

theorem Inv.transmit (h : Inv s waiting sending) : Inv s.transmit waiting sending := by
  refine ⟨h.encodeQueue, h.sendQueue, h.order, h.ids, ?_, ?_, h.null⟩
  · simp only [Pipeline.transmit]
    rw [h.sequence, UInt32.ofNat_add]
    rfl
  · intro hdrawn
    simp only [Pipeline.transmit] at hdrawn ⊢
    obtain ⟨hpairwise, hbelow⟩ := h.rising (by omega)
    exact ⟨hpairwise, fun work hwork => Nat.lt_succ_of_lt (hbelow work hwork)⟩

theorem Inv.audioSendEvent (h : Inv s waiting sending) :
    ∃ s', s.audioSendEvent = some s' ∧ ∃ waiting' sending', Inv s' waiting' sending' := by
  cases sending with
  | nil =>
      have hfront : s.audioSendQueue.front = none := h.sendQueue.front_eq
      refine ⟨s, ?_, waiting, [], h⟩
      simp [Pipeline.audioSendEvent, audioQueuePopNonblocking, hfront]
  | cons cell rest =>
      obtain ⟨address, work⟩ := cell
      have hfront : s.audioSendQueue.front = some address := h.sendQueue.front_eq
      obtain ⟨queue, hpop, hsending⟩ := popNode_represents h.sendQueue
      refine ⟨{ s with audioSendQueue := queue, handed := s.handed ++ [work] }, ?_, waiting, rest,
        h.encodeQueue, hsending, ?_, h.ids, h.sequence, h.rising, h.null⟩
      · simp [Pipeline.audioSendEvent, audioQueuePopNonblocking, hfront, hpop]
      · have horder := h.order
        simp only [inHand] at horder ⊢
        rw [horder]
        simp

/-- `audio_queue_pop` takes the first cell into the hand, or returns `NULL` at shutdown. -/
theorem Inv.encodeStep_popping (h : Inv s waiting sending) (hthread : s.encodeThread = .popping)
    (address : Nat) (encoded : E) :
    ∃ s', s.encodeStep address encoded = some s' ∧
      ∃ waiting' sending', Inv s' waiting' sending' := by
  have horder := h.order
  simp only [inHand, hthread] at horder
  cases waiting with
  | nil =>
      have hfront : s.audioEncodeQueue.front = none := h.encodeQueue.front_eq
      cases hrunning : s.audioEncodeThreadRunning with
      | true =>
          -- a spurious wake-up finds the queue still empty
          refine ⟨{ s with audioEncodeThreadRunning := true, encodeThread := .popping }, ?_, [],
            sending, h.encodeQueue, h.sendQueue, horder, h.ids, h.sequence, h.rising, h.null⟩
          simp only [Pipeline.encodeStep, hthread, audioQueuePop, hfront, hrunning,
            Option.map_some]
      | false =>
          refine ⟨{ s with
              encodeThread := .finished
              nullPops := s.nullPops ++ [(false, true)] }, ?_, [], sending, h.encodeQueue,
            h.sendQueue, horder, h.ids, h.sequence, h.rising, ?_⟩
          · simp [Pipeline.encodeStep, hthread, audioQueuePop, hfront, hrunning]
          · intro pop hpop
            rcases List.mem_append.mp hpop with hin | hin
            · exact h.null pop hin
            · exact List.mem_singleton.mp hin
  | cons cell rest =>
      obtain ⟨front, work⟩ := cell
      have hfront : s.audioEncodeQueue.front = some front := h.encodeQueue.front_eq
      obtain ⟨queue, hpop, hwaiting⟩ := popNode_represents h.encodeQueue
      refine ⟨{ s with audioEncodeQueue := queue, encodeThread := .encoding work }, ?_, rest,
        sending, hwaiting, h.sendQueue, ?_, h.ids, h.sequence, h.rising, h.null⟩
      · simp [Pipeline.encodeStep, hthread, audioQueuePop, hfront, hpop]
      · simpa [inHand] using horder

/-- A step of the encode thread. -/
theorem Inv.encodeStep (h : Inv s waiting sending) (address : Nat) (encoded : E) :
    ∃ s', s.encodeStep address encoded = some s' ∧
      ∃ waiting' sending', Inv s' waiting' sending' := by
  have horder := h.order
  cases hthread : s.encodeThread with
  | looping =>
      simp only [Pipeline.encodeStep, hthread]
      simp only [inHand, hthread] at horder
      refine ⟨_, rfl, waiting, sending, { h with order := ?_ }⟩
      cases s.audioEncodeThreadRunning with
      | true => exact horder
      | false => exact horder
  | popping => exact h.encodeStep_popping hthread address encoded
  | encoding work =>
      simp only [Pipeline.encodeStep, hthread]
      simp only [inHand, hthread] at horder
      refine ⟨_, rfl, waiting, sending, { h with order := ?_ }⟩
      rw [horder]
      simp [inHand, Work.unencoded]
  | pushing work =>
      simp only [Pipeline.encodeStep, hthread]
      split
      · rename_i hunused
        obtain ⟨queue, hpush, hsending, -⟩ := h.sendQueue.push hunused.2 work
        rw [hpush]
        simp only [inHand, hthread] at horder
        refine ⟨_, rfl, waiting, _, { h with sendQueue := hsending, order := ?_ }⟩
        rw [horder]
        simp [inHand]
      · exact ⟨s, rfl, waiting, sending, h⟩
  | finished =>
      refine ⟨s, ?_, waiting, sending, h⟩
      simp only [Pipeline.encodeStep, hthread]

theorem Inv.step (h : Inv s waiting sending) (e : Event P E) :
    ∃ s', (Transmission.step (some s) e).2 = some s' ∧
      ∃ waiting' sending', Inv s' waiting' sending' := by
  cases e with
  | encodeAudio frameSize endFrame pcm address => exact h.encodeAudio frameSize endFrame pcm address
  | transmit => exact ⟨_, rfl, waiting, sending, h.transmit⟩
  | audioSendEvent => exact h.audioSendEvent
  | encodeThread address encoded => exact h.encodeStep address encoded
  | shutdown =>
      exact ⟨_, rfl, waiting, sending, { h with }⟩

end Pipeline

open Pipeline

/-- For every interleaving of the mixer, the encode thread, the sender and a shutdown: no bad
pointer is followed, and what is handed on to the network is the first part of the work that
was created. -/
theorem handed_in_order (events : List (Event P E)) :
    ∃ s, Machine.final step (some mumbleClientNew) events = some s ∧ InOrder s := by
  have hrun := Machine.invariant_final
    (fun s : Option (Pipeline P E) =>
      ∃ t, s = some t ∧ ∃ waiting sending, Inv t waiting sending)
    (by
      rintro s e ⟨t, rfl, waiting, sending, h⟩
      exact h.step e)
    (some mumbleClientNew) events ⟨_, rfl, [], [], inv_new⟩
  obtain ⟨s, hs, waiting, sending, h⟩ := hrun
  exact ⟨s, hs, h.inOrder⟩

end LuaMumble.Audio.Transmission
