import LuaMumble.Audio.Pipeline

/-!
The end of the encode thread. It sleeps on the condition of its queue while there is nothing to
encode, and `mumble_audio_queue_shutdown` clears its flag, wakes it, waits for its end and frees
what is left in the two queues. A critical section of the mutex of the queue is one step; the
condition wakes the thread, which may also wake up without it. There is memory for every node: where
`audio_queue_push` gets none, it returns, and nobody frees the work.
-/

namespace LuaMumble.Audio.Shutdown

open Lib Transmission

variable {P E : Type*}

/-- Where the main thread is: in the loop, at `uv_thread_join`, or behind the cleanup. -/
inductive MainThread where
  | running
  | joining
  | cleanedUp
  deriving DecidableEq

/-- `asleep` is true while the encode thread is in `uv_cond_wait`, and `freed` are the numbers of
the work that was freed, in order. -/
structure State (P E : Type*) where
  pipeline : Pipeline P E
  asleep : Bool
  mainThread : MainThread
  freed : List Nat

def State.new : State P E where
  pipeline := mumbleClientNew
  asleep := false
  mainThread := .running
  freed := []

/-- The first three are steps of the main thread in its loop. -/
inductive Event (P E : Type*) where
  | encodeAudio (frameSize : Nat) (endFrame : Bool) (pcm : P) (address : Nat)
  | transmit
  | audioSendEvent
  | encodeThread (address : Nat) (encoded : E)
  | wakeUp
  | shutdown
  | join

/-- `audio_queue_cleanup`, with the numbers of the work freed. -/
def audioQueueCleanup (fuel : Nat) (queue : LinkedQueue (Work P E)) :
    Option (List Nat × LinkedQueue (Work P E)) :=
  (LinkedQueue.walk queue.nodes fuel queue.front).map fun (work, nodes) =>
    (work.map Work.id, { nodes := nodes, front := none, rear := none })

namespace State

variable (s : State P E)

/-- `encode_audio`, whose push signals the condition. -/
def encodeAudio (frameSize : Nat) (endFrame : Bool) (pcm : P) (address : Nat) :
    Option (State P E) :=
  (s.pipeline.encodeAudio frameSize endFrame pcm address).map fun pipeline =>
    { s with
      pipeline := pipeline
      asleep := s.asleep && pipeline.created.length == s.pipeline.created.length }

/-- `audio_send_event`, which frees the work that it has sent. -/
def audioSendEvent : Option (State P E) :=
  s.pipeline.audioSendEvent.map fun pipeline =>
    { s with
      pipeline := pipeline
      freed := s.freed ++ (pipeline.handed.drop s.pipeline.handed.length).map Work.id }

/-- The thread is in `audio_queue_pop` and is going to wait. -/
def sleeps : Bool :=
  match s.pipeline.encodeThread with
  | .popping => s.pipeline.audioEncodeQueue.front.isNone && s.pipeline.audioEncodeThreadRunning
  | _ => false

/-- A step of the encode thread, unless it is asleep. -/
def encodeStep (address : Nat) (encoded : E) : Option (State P E) :=
  if s.asleep then some s
  else (s.pipeline.encodeStep address encoded).map fun pipeline =>
    { s with pipeline := pipeline, asleep := s.sleeps }

/-- `mumble_audio_queue_shutdown` up to the join. -/
def shutdown : State P E :=
  { s with
    pipeline := { s.pipeline with audioEncodeThreadRunning := false }
    asleep := false
    mainThread := .joining }

/-- The rest of it. The thread is at its end, and no more work is queued than was created. -/
def cleanup : Option (State P E) :=
  (audioQueueCleanup s.pipeline.created.length s.pipeline.audioEncodeQueue).bind
    fun (encodeWork, encodeQueue) =>
      (audioQueueCleanup s.pipeline.created.length s.pipeline.audioSendQueue).map
        fun (sendWork, sendQueue) =>
          { s with
            pipeline := { s.pipeline with
              audioEncodeQueue := encodeQueue, audioSendQueue := sendQueue }
            mainThread := .cleanedUp
            freed := s.freed ++ encodeWork ++ sendWork }

end State

/-- The encode thread has ended. -/
def isFinished : EncodeThread P E → Bool
  | .finished => true
  | _ => false

/-- One event. Nothing happens where it cannot come. -/
def step (s : Option (State P E)) (e : Event P E) : Unit × Option (State P E) :=
  ((), s.bind fun s =>
    match s.mainThread, e with
    | .running, .encodeAudio frameSize endFrame pcm address =>
        s.encodeAudio frameSize endFrame pcm address
    | .running, .transmit => some { s with pipeline := s.pipeline.transmit }
    | .running, .audioSendEvent => s.audioSendEvent
    | .running, .shutdown => some s.shutdown
    | .running, .encodeThread address encoded => s.encodeStep address encoded
    | .joining, .encodeThread address encoded => s.encodeStep address encoded
    | .running, .wakeUp => some { s with asleep := false }
    | .joining, .wakeUp => some { s with asleep := false }
    | .joining, .join => if isFinished s.pipeline.encodeThread then s.cleanup else some s
    | _, _ => some s)

section Invariant

/-- The numbers of the work in the two queues and in hand. -/
structure Inv (s : State P E) : Prop where
  queues : ∃ waiting sending, Pipeline.Inv s.pipeline waiting sending
  encodeTight : s.pipeline.audioEncodeQueue.Tight
  sendTight : s.pipeline.audioSendQueue.Tight
  asleep : s.asleep = true → s.sleeps = true
  running : s.pipeline.audioEncodeThreadRunning = true ↔ s.mainThread = .running
  freed : s.freed = s.pipeline.handed.map Work.id

/-- What holds in the end: each work was freed once, and there is no node left. -/
structure CleanedUp (s : State P E) : Prop where
  freed : s.freed.Perm (List.range s.pipeline.created.length)
  encodeNodes : ∀ address, s.pipeline.audioEncodeQueue.nodes address = none
  sendNodes : ∀ address, s.pipeline.audioSendQueue.nodes address = none
  finished : isFinished s.pipeline.encodeThread = true

variable {s : State P E} {p p' : Pipeline P E} {waiting sending : List (Nat × Work P E)}

theorem sleeps_iff : s.sleeps = true ↔ s.pipeline.encodeThread = .popping ∧
    s.pipeline.audioEncodeQueue.front = none ∧ s.pipeline.audioEncodeThreadRunning = true := by
  unfold State.sleeps
  split
  · next hthread => simp [hthread]
  · next hthread => exact ⟨Bool.noConfusion, fun h => absurd h.1 hthread⟩

theorem popNode_tight {A : Type*} {queue queue' : LinkedQueue A} {front : Nat} {x y : A}
    {cells : List (Nat × A)} (h : queue.Represents ((front, x) :: cells)) (htight : queue.Tight)
    (hpop : popNode queue front = some (y, queue')) : queue'.Tight := by
  obtain ⟨queue'', hpop', -, -⟩ := h.pop
  obtain ⟨next, hnode⟩ := h.links.allocated (List.mem_cons_self ..)
  simp only [popNode, hnode, hpop', Option.bind_some, Option.map_some, Option.some.injEq,
    Prod.mk.injEq] at hpop
  rw [← hpop.2]
  exact h.tight_pop htight hpop'

/-- The step of the mixer: it may put work on the first queue. -/
theorem encodeAudio_spec (h : Pipeline.Inv p waiting sending)
    (htight : p.audioEncodeQueue.Tight) {frameSize : Nat} {endFrame : Bool} {pcm : P}
    {address : Nat} (hstep : p.encodeAudio frameSize endFrame pcm address = some p') :
    p' = p ∨ p'.audioEncodeQueue.Tight ∧ p'.audioSendQueue = p.audioSendQueue ∧
      p'.handed = p.handed ∧ p'.audioEncodeThreadRunning = p.audioEncodeThreadRunning ∧
      p'.created.length = p.created.length + 1 := by
  unfold Pipeline.encodeAudio at hstep
  split at hstep
  · exact Or.inl (Option.some.inj hstep).symm
  · split at hstep
    · next hunused =>
        obtain ⟨queue, hpush, rfl⟩ := Option.map_eq_some_iff.mp hstep
        exact Or.inr ⟨h.encodeQueue.tight_push htight hunused.1 hpush, rfl, rfl, rfl, by simp⟩
    · exact Or.inl (Option.some.inj hstep).symm

/-- The step of the sender: it may take work from the second queue. -/
theorem audioSendEvent_spec (h : Pipeline.Inv p waiting sending) (htight : p.audioSendQueue.Tight)
    (hstep : p.audioSendEvent = some p') :
    p'.audioSendQueue.Tight ∧ p'.audioEncodeQueue = p.audioEncodeQueue ∧
      p'.encodeThread = p.encodeThread ∧
      p'.audioEncodeThreadRunning = p.audioEncodeThreadRunning ∧
      p'.handed = p.handed ++ p'.handed.drop p.handed.length := by
  obtain ⟨⟨work, queue⟩, hpop, rfl⟩ := Option.map_eq_some_iff.mp hstep
  refine ⟨?_, rfl, rfl, rfl, by simp⟩
  have hfront := h.sendQueue.front_eq
  cases sending with
  | nil =>
      simp only [audioQueuePopNonblocking, show p.audioSendQueue.front = none from hfront,
        Option.some.injEq, Prod.mk.injEq] at hpop
      rw [← hpop.2]
      exact htight
  | cons cell rest =>
      obtain ⟨address, other⟩ := cell
      simp only [audioQueuePopNonblocking, show p.audioSendQueue.front = some address from hfront]
        at hpop
      obtain ⟨⟨work', queue'⟩, hnode, heq⟩ := Option.map_eq_some_iff.mp hpop
      obtain rfl : queue' = queue := congrArg Prod.snd heq
      exact popNode_tight h.sendQueue htight hnode

/-- How many steps the encode thread is from its end once its flag is cleared. -/
def rank : EncodeThread P E → Nat
  | .finished => 0
  | .looping => 1
  | .pushing _ => 2
  | .encoding _ => 3
  | .popping => 4

/-- The step of the encode thread: it takes work from the first queue, or puts work on the second
one, and with its flag cleared it comes nearer to its end. -/
structure EncodeStep (p p' : Pipeline P E) (address : Nat) : Prop where
  encodeTight : p'.audioEncodeQueue.Tight
  sendTight : p'.audioSendQueue.Tight
  handed : p'.handed = p.handed
  created : p'.created = p.created
  running : p'.audioEncodeThreadRunning = p.audioEncodeThreadRunning
  sleeping : p.encodeThread = .popping → p.audioEncodeQueue.front = none →
    p.audioEncodeThreadRunning = true → p' = p
  nearer : p.audioEncodeThreadRunning = false → p.Unused address →
    rank p'.encodeThread ≤ rank p.encodeThread - 1

theorem encodeStep_spec (h : Pipeline.Inv p waiting sending) (hencode : p.audioEncodeQueue.Tight)
    (hsend : p.audioSendQueue.Tight) {address : Nat} {encoded : E}
    (hstep : p.encodeStep address encoded = some p') : EncodeStep p p' address := by
  cases hthread : p.encodeThread with
  | looping =>
      simp only [Pipeline.encodeStep, hthread] at hstep
      obtain rfl := Option.some.inj hstep
      refine ⟨hencode, hsend, rfl, rfl, rfl, (fun h => by rw [hthread] at h; cases h), ?_⟩
      intro hrunning _
      simp [hrunning, hthread, rank]
  | popping =>
      have hfront := h.encodeQueue.front_eq
      cases waiting with
      | nil =>
          have hnone : p.audioEncodeQueue.front = none := hfront
          cases hrunning : p.audioEncodeThreadRunning with
          | true =>
              have hsame : p' = p := by
                simp only [Pipeline.encodeStep, hthread, audioQueuePop, hnone, hrunning,
                  Option.map_some] at hstep
                rw [← Option.some.inj hstep, ← hthread, ← hrunning]
              subst hsame
              exact ⟨hencode, hsend, rfl, rfl, rfl, fun _ _ _ => rfl,
                fun hfalse => by rw [hrunning] at hfalse; cases hfalse⟩
          | false =>
              simp only [Pipeline.encodeStep, hthread, audioQueuePop, hnone, hrunning,
                Option.map_some] at hstep
              obtain rfl := Option.some.inj hstep
              exact ⟨hencode, hsend, rfl, rfl, hrunning.symm,
                (fun _ _ htrue => by rw [hrunning] at htrue; cases htrue),
                fun _ _ => by simp [hthread, rank]⟩
      | cons cell rest =>
          obtain ⟨front, work⟩ := cell
          have hsome : p.audioEncodeQueue.front = some front := hfront
          obtain ⟨queue, hpop, -⟩ := Pipeline.popNode_represents h.encodeQueue
          simp only [Pipeline.encodeStep, hthread, audioQueuePop, hsome, hpop, Option.map_some]
            at hstep
          obtain rfl := Option.some.inj hstep
          exact ⟨popNode_tight h.encodeQueue hencode hpop, hsend, rfl, rfl, rfl,
            (fun _ hnone => by rw [hsome] at hnone; cases hnone),
            fun _ _ => by simp [hthread, rank]⟩
  | encoding work =>
      simp only [Pipeline.encodeStep, hthread] at hstep
      obtain rfl := Option.some.inj hstep
      exact ⟨hencode, hsend, rfl, rfl, rfl, (fun h => by rw [hthread] at h; cases h),
        fun _ _ => by simp [hthread, rank]⟩
  | pushing work =>
      simp only [Pipeline.encodeStep, hthread] at hstep
      split at hstep
      · next hunused =>
          obtain ⟨queue, hpush, rfl⟩ := Option.map_eq_some_iff.mp hstep
          exact ⟨hencode, h.sendQueue.tight_push hsend hunused.2 hpush, rfl, rfl, rfl,
            (fun h => by rw [hthread] at h; cases h), fun _ _ => by simp [hthread, rank]⟩
      · next hused =>
          obtain rfl := Option.some.inj hstep
          exact ⟨hencode, hsend, rfl, rfl, rfl, (fun h => by rw [hthread] at h; cases h),
            fun _ hunused => absurd hunused hused⟩
  | finished =>
      simp only [Pipeline.encodeStep, hthread] at hstep
      obtain rfl := Option.some.inj hstep
      exact ⟨hencode, hsend, rfl, rfl, rfl, (fun h => by rw [hthread] at h; cases h),
        fun _ _ => by simp [hthread, rank]⟩

theorem inv_new : Inv (State.new : State P E) :=
  ⟨⟨[], [], Pipeline.inv_new⟩, LinkedQueue.tight_empty, LinkedQueue.tight_empty,
    Bool.noConfusion, iff_of_true rfl rfl, rfl⟩

namespace Inv

theorem encodeAudio (h : Inv s) (frameSize : Nat) (endFrame : Bool) (pcm : P) (address : Nat) :
    ∃ s', s.encodeAudio frameSize endFrame pcm address = some s' ∧ Inv s' ∧
      s'.mainThread = s.mainThread := by
  obtain ⟨waiting, sending, hinv⟩ := h.queues
  obtain ⟨pipeline, hstep, hnext⟩ := hinv.encodeAudio frameSize endFrame pcm address
  refine ⟨_, Option.map_eq_some_iff.mpr ⟨pipeline, hstep, rfl⟩, ?_, rfl⟩
  rcases encodeAudio_spec hinv h.encodeTight hstep with
    rfl | ⟨htight, hsend, hhanded, hrunning, hcreated⟩
  · exact ⟨h.queues, h.encodeTight, h.sendTight, by simpa using h.asleep, h.running, h.freed⟩
  · refine ⟨hnext, htight, by rw [hsend]; exact h.sendTight, ?_, by rw [hrunning]; exact h.running,
      by rw [hhanded]; exact h.freed⟩
    -- the push has woken the thread
    intro hasleep
    simp [hcreated] at hasleep

theorem transmit (h : Inv s) : Inv { s with pipeline := s.pipeline.transmit } := by
  obtain ⟨waiting, sending, hinv⟩ := h.queues
  exact ⟨⟨waiting, sending, hinv.transmit⟩, h.encodeTight, h.sendTight, h.asleep, h.running,
    h.freed⟩

theorem audioSendEvent (h : Inv s) :
    ∃ s', s.audioSendEvent = some s' ∧ Inv s' ∧ s'.mainThread = s.mainThread := by
  obtain ⟨waiting, sending, hinv⟩ := h.queues
  obtain ⟨pipeline, hstep, hnext⟩ := hinv.audioSendEvent
  obtain ⟨htight, hqueue, hthread, hrunning, hhanded⟩ :=
    audioSendEvent_spec hinv h.sendTight hstep
  refine ⟨_, Option.map_eq_some_iff.mpr ⟨pipeline, hstep, rfl⟩,
    ⟨hnext, by rw [hqueue]; exact h.encodeTight, htight, ?_, by rw [hrunning]; exact h.running, ?_⟩,
    rfl⟩
  · intro hasleep
    have hsleeps := sleeps_iff.mp (h.asleep hasleep)
    exact sleeps_iff.mpr (by rwa [hthread, hqueue, hrunning])
  · conv_rhs => rw [hhanded]
    rw [h.freed, List.map_append]

theorem encodeStep (h : Inv s) (address : Nat) (encoded : E) :
    ∃ s', s.encodeStep address encoded = some s' ∧ Inv s' ∧ s'.mainThread = s.mainThread ∧
      (s.asleep = false → EncodeStep s.pipeline s'.pipeline address) := by
  unfold State.encodeStep
  split
  · next hasleep => exact ⟨s, rfl, h, rfl, fun hawake => by rw [hawake] at hasleep; cases hasleep⟩
  · obtain ⟨waiting, sending, hinv⟩ := h.queues
    obtain ⟨pipeline, hstep, hnext⟩ := hinv.encodeStep address encoded
    have hspec := encodeStep_spec hinv h.encodeTight h.sendTight hstep
    refine ⟨_, Option.map_eq_some_iff.mpr ⟨pipeline, hstep, rfl⟩,
      ⟨hnext, hspec.encodeTight, hspec.sendTight, ?_,
      by rw [hspec.running]; exact h.running, by rw [hspec.handed]; exact h.freed⟩, rfl,
      fun _ => hspec⟩
    -- going to sleep, the thread has found the queue empty and its flag set
    intro hasleep
    obtain ⟨hthread, hfront, hrunning⟩ := sleeps_iff.mp hasleep
    rw [hspec.sleeping hthread hfront hrunning]
    exact hasleep

theorem wakeUp (h : Inv s) : Inv { s with asleep := false } :=
  ⟨h.queues, h.encodeTight, h.sendTight, Bool.noConfusion, h.running, h.freed⟩

theorem shutdown (h : Inv s) : Inv s.shutdown := by
  obtain ⟨waiting, sending, hinv⟩ := h.queues
  exact ⟨⟨waiting, sending, { hinv with }⟩, h.encodeTight, h.sendTight, Bool.noConfusion,
    iff_of_false Bool.noConfusion (by simp [State.shutdown]), h.freed⟩

/-- At the end of the thread, what was created was handed on or is in one of the queues. -/
theorem cleanup (h : Inv s) (hfinished : isFinished s.pipeline.encodeThread = true) :
    ∃ s', s.cleanup = some s' ∧ CleanedUp s' ∧ s'.mainThread = .cleanedUp := by
  obtain ⟨waiting, sending, hinv⟩ := h.queues
  have hhand : s.pipeline.inHand = [] := by
    unfold Pipeline.inHand
    cases hthread : s.pipeline.encodeThread with
    | finished => rfl
    | looping | popping => rfl
    | encoding work | pushing work =>
        rw [hthread] at hfinished
        cases hfinished
  have horder := hinv.order
  rw [hhand, List.append_nil] at horder
  have hlength := congrArg List.length horder
  simp only [List.length_map, List.length_append] at hlength
  have hencode := hinv.encodeQueue.walk h.encodeTight s.pipeline.created.length
    (by omega)
  have hsend := hinv.sendQueue.walk h.sendTight s.pipeline.created.length (by omega)
  simp only [State.cleanup, audioQueueCleanup, hencode, hsend, Option.map_some, Option.bind_some]
  refine ⟨_, rfl, ⟨?_, fun _ => rfl, fun _ => rfl, hfinished⟩, rfl⟩
  have hids : List.range s.pipeline.created.length = s.pipeline.handed.map Work.id ++
      (sending.map Prod.snd).map Work.id ++ (waiting.map Prod.snd).map Work.id := by
    rw [← hinv.ids, horder]
    simp [Work.unencoded, Function.comp_def]
  rw [hids, h.freed, List.append_assoc, List.append_assoc]
  exact List.Perm.append_left _ List.perm_append_comm

end Inv

/-- What holds of every state that is reached. -/
def Good (s : State P E) : Prop :=
  Inv s ∧ s.mainThread ≠ .cleanedUp ∨ CleanedUp s ∧ s.mainThread = .cleanedUp

theorem good_step (h : Good s) (e : Event P E) :
    ∃ s', (step (some s) e).2 = some s' ∧ Good s' := by
  have hkept {s' : State P E} (hmain : s.mainThread ≠ .cleanedUp) (hinv : Inv s')
      (hsame : s'.mainThread = s.mainThread) : Good s' :=
    Or.inl ⟨hinv, by rwa [hsame]⟩
  cases hmain : s.mainThread with
  | cleanedUp => exact ⟨s, by simp [step, hmain], h⟩
  | running =>
      have hne : s.mainThread ≠ .cleanedUp := by rw [hmain]; exact MainThread.noConfusion
      obtain ⟨hinv, -⟩ := h.resolve_right fun hdone => hne hdone.2
      simp only [step, hmain, Option.bind_some]
      cases e with
      | encodeAudio frameSize endFrame pcm address =>
          obtain ⟨s', hstep, hinv', hsame⟩ := hinv.encodeAudio frameSize endFrame pcm address
          exact ⟨s', hstep, hkept hne hinv' hsame⟩
      | transmit =>
          have htransmit := hinv.transmit
          rw [hmain] at htransmit
          exact ⟨_, rfl, hkept hne htransmit hmain.symm⟩
      | audioSendEvent =>
          obtain ⟨s', hstep, hinv', hsame⟩ := hinv.audioSendEvent
          exact ⟨s', hstep, hkept hne hinv' hsame⟩
      | encodeThread address encoded =>
          obtain ⟨s', hstep, hinv', hsame, -⟩ := hinv.encodeStep address encoded
          exact ⟨s', hstep, hkept hne hinv' hsame⟩
      | wakeUp =>
          have hwake := hinv.wakeUp
          rw [hmain] at hwake
          exact ⟨_, rfl, hkept hne hwake hmain.symm⟩
      | shutdown => exact ⟨_, rfl, Or.inl ⟨hinv.shutdown, MainThread.noConfusion⟩⟩
      | join => exact ⟨s, rfl, hkept hne hinv rfl⟩
  | joining =>
      have hne : s.mainThread ≠ .cleanedUp := by rw [hmain]; exact MainThread.noConfusion
      obtain ⟨hinv, -⟩ := h.resolve_right fun hdone => hne hdone.2
      simp only [step, hmain, Option.bind_some]
      cases e with
      | encodeAudio | transmit | audioSendEvent | shutdown => exact ⟨s, rfl, hkept hne hinv rfl⟩
      | encodeThread address encoded =>
          obtain ⟨s', hstep, hinv', hsame, -⟩ := hinv.encodeStep address encoded
          exact ⟨s', hstep, hkept hne hinv' hsame⟩
      | wakeUp =>
          have hwake := hinv.wakeUp
          rw [hmain] at hwake
          exact ⟨_, rfl, hkept hne hwake hmain.symm⟩
      | join =>
          cases hfinished : isFinished s.pipeline.encodeThread with
          | true =>
              obtain ⟨s', hstep, hclean, hdone⟩ := hinv.cleanup hfinished
              exact ⟨s', hstep, Or.inr ⟨hclean, hdone⟩⟩
          | false => exact ⟨s, rfl, hkept hne hinv rfl⟩

theorem good_run (events : List (Event P E)) (h : Good s) :
    ∃ s', Machine.final step (some s) events = some s' ∧ Good s' := by
  have hrun := Machine.invariant_final (fun s : Option (State P E) => ∃ t, s = some t ∧ Good t)
    (by
      rintro s e ⟨t, rfl, h⟩
      exact good_step h e)
    (some s) events ⟨s, rfl, h⟩
  exact hrun

/-- Memory for a node is allocated where none is in use. -/
def Enabled (s : Option (State P E)) : Event P E → Prop
  | .encodeThread address _ => ∀ t, s = some t → t.pipeline.Unused address
  | _ => True

def isEncodeStep : Event P E → Bool
  | .encodeThread _ _ => true
  | _ => false

theorem rank_finished {thread : EncodeThread P E} :
    rank thread = 0 ↔ isFinished thread = true := by
  cases thread <;> simp [rank, isFinished]

/-- While the main thread waits for it, a step of the encode thread brings it nearer to its end,
and nothing else moves it. -/
theorem joining_step (h : Good s) (hmain : s.mainThread ≠ .running) {e : Event P E}
    (henabled : Enabled (some s) e) :
    ∃ s', (step (some s) e).2 = some s' ∧ Good s' ∧ s'.mainThread ≠ .running ∧
      rank s'.pipeline.encodeThread ≤
        rank s.pipeline.encodeThread - if isEncodeStep e then 1 else 0 := by
  have hstay (hstep : (step (some s) e).2 = some s)
      (hrank : isEncodeStep e = true → isFinished s.pipeline.encodeThread = true) :
      ∃ s', (step (some s) e).2 = some s' ∧ Good s' ∧ s'.mainThread ≠ .running ∧
        rank s'.pipeline.encodeThread ≤
          rank s.pipeline.encodeThread - if isEncodeStep e then 1 else 0 := by
    refine ⟨s, hstep, h, hmain, ?_⟩
    split
    · next hencode => rw [rank_finished.mpr (hrank hencode)]
    · exact Nat.le_refl _
  rcases h with ⟨hinv, hne⟩ | ⟨hclean, hdone⟩
  · have hjoining : s.mainThread = .joining := by
      cases hcase : s.mainThread with
      | running => exact absurd hcase hmain
      | joining => rfl
      | cleanedUp => exact absurd hcase hne
    have hrunning : s.pipeline.audioEncodeThreadRunning = false := by
      rw [← Bool.not_eq_true, hinv.running]
      exact hmain
    cases e with
    | encodeAudio | transmit | audioSendEvent | shutdown =>
        exact hstay (by simp [step, hjoining]) Bool.noConfusion
    | wakeUp =>
        have hwake := hinv.wakeUp
        rw [hjoining] at hwake
        exact ⟨{ s with asleep := false, mainThread := .joining },
          by simp only [step, hjoining, Option.bind_some],
          Or.inl ⟨hwake, MainThread.noConfusion⟩, MainThread.noConfusion, Nat.le_refl _⟩
    | encodeThread address encoded =>
        have hawake : s.asleep = false := by
          rw [← Bool.not_eq_true]
          intro hasleep
          have hflag := (sleeps_iff.mp (hinv.asleep hasleep)).2.2
          rw [hrunning] at hflag
          cases hflag
        obtain ⟨s', hstep, hinv', hsame, hspec⟩ := hinv.encodeStep address encoded
        have hnearer := (hspec hawake).nearer hrunning (henabled s rfl)
        exact ⟨s', by simpa only [step, hjoining, Option.bind_some] using hstep,
          Or.inl ⟨hinv', by rwa [hsame]⟩, by rwa [hsame], hnearer⟩
    | join =>
        cases hfinished : isFinished s.pipeline.encodeThread with
        | true =>
            obtain ⟨s', hstep, hclean, hdone⟩ := hinv.cleanup hfinished
            refine ⟨s', by simp only [step, hjoining, Option.bind_some, hfinished, if_true, hstep],
              Or.inr ⟨hclean, hdone⟩, by rw [hdone]; exact MainThread.noConfusion, ?_⟩
            rw [rank_finished.mpr hclean.finished]
            exact Nat.zero_le _
        | false =>
            exact hstay (by simp [step, hjoining, hfinished]) Bool.noConfusion
  · exact hstay (by simp [step, hdone]) fun _ => hclean.finished

theorem joining_run (later : List (Event P E)) (h : Good s) (hmain : s.mainThread ≠ .running)
    (henabled : Machine.Along step Enabled (some s) later) :
    ∃ s', Machine.final step (some s) later = some s' ∧
      rank s'.pipeline.encodeThread ≤
        rank s.pipeline.encodeThread - later.countP isEncodeStep := by
  induction later generalizing s with
  | nil => exact ⟨s, rfl, Nat.le_refl _⟩
  | cons e later ih =>
      obtain ⟨s₁, hstep, hgood, hmain₁, hrank⟩ := joining_step h hmain henabled.1
      have hrest := henabled.2
      rw [hstep] at hrest
      obtain ⟨s', hrun, hrank'⟩ := ih hgood hmain₁ hrest
      refine ⟨s', by rw [Machine.final, hstep]; exact hrun, ?_⟩
      rw [List.countP_cons]
      omega

end Invariant

/-- For every interleaving of the main thread, the encode thread and spurious wake-ups: the encode
thread sleeps only while its queue is empty and no shutdown has begun, so no wake-up is lost; after
`mumble_audio_queue_shutdown` has begun, four of its steps bring it to its end whatever comes
between them, and the join returns; no work is freed twice; and after the cleanup each work that was
ever created has been freed exactly once, by the sender or by the cleanup, and no node is left. -/
theorem shutdown_ends (events : List (Event P E)) :
    ∃ s, Machine.final step (some State.new) events = some s ∧
      (s.asleep = true → s.mainThread ≠ .cleanedUp →
        s.pipeline.audioEncodeQueue.front = none ∧ s.mainThread = .running) ∧
      s.freed.Nodup ∧
      (s.mainThread = .joining → ∀ later, Machine.Along step Enabled (some s) later →
        4 ≤ later.countP isEncodeStep →
        ∃ s', Machine.final step (some s) later = some s' ∧
          isFinished s'.pipeline.encodeThread = true) ∧
      (s.mainThread = .cleanedUp → CleanedUp s) := by
  obtain ⟨s, hrun, hgood⟩ := good_run events (Or.inl ⟨inv_new, MainThread.noConfusion⟩)
  refine ⟨s, hrun, ?_, ?_, ?_, ?_⟩
  · intro hasleep hmain
    obtain ⟨hinv, -⟩ := hgood.resolve_right fun hdone => hmain hdone.2
    obtain ⟨-, hfront, hrunning⟩ := sleeps_iff.mp (hinv.asleep hasleep)
    exact ⟨hfront, hinv.running.mp hrunning⟩
  · rcases hgood with ⟨hinv, -⟩ | ⟨hclean, -⟩
    · obtain ⟨waiting, sending, hpipeline⟩ := hinv.queues
      have hhanded := (hpipeline.inOrder.handed.map Work.id).sublist
      rw [hpipeline.ids, List.map_map] at hhanded
      rw [hinv.freed]
      exact List.nodup_range.sublist hhanded
    · exact hclean.freed.nodup_iff.mpr List.nodup_range
  · intro hmain later henabled hcount
    obtain ⟨s', hlater, hrank⟩ := joining_run later hgood (by rw [hmain]; exact
      MainThread.noConfusion) henabled
    have hfour : rank s.pipeline.encodeThread ≤ 4 := by
      cases s.pipeline.encodeThread <;> simp [rank]
    exact ⟨s', hlater, rank_finished.mp (by omega)⟩
  · intro hmain
    rcases hgood with ⟨-, hne⟩ | ⟨hclean, -⟩
    · exact absurd hmain hne
    · exact hclean

end LuaMumble.Audio.Shutdown
