import LuaMumble.Lib.LinkedQueue
import LuaMumble.Lib.Machine

/-!
Messages of a worker thread to its controller. The worker thread runs `thread_worker_send`,
the main thread `mumble_thread_controller_message` when the loop wakes it up; the two share
the queue under the mutex of the controller. A message is an opaque entry of the queue. A step
is what a thread does between two points where the other may come in between; a step that
follows a bad pointer has no result.
-/

namespace LuaMumble.Thread

open Lib

/-- Where the worker thread is in `thread_worker_send`. -/
inductive WorkerStage (M : Type*) where
  | outside
  | locking (message : M)
  | pushing (message : M)
  | unlocking
  | signalling

/-- Where the main thread is in `mumble_thread_controller_message`. `message` is the pointer
that `queue_pop` returned. -/
inductive MainStage where
  | outside
  | locking
  | looping
  | popping
  | unlocking (message : Option Nat)
  | calling (message : Option Nat)
  | inCallback (message : Nat)
  | leaving

inductive Party where
  | main
  | worker
  deriving DecidableEq

/-- What the two threads share, and where they are. `message` is the callback of `onMessage`,
if any, and `mutex` is who holds the mutex. The last three members are the history: what was
sent, what was passed to which callback, and the callback there was at each pop. -/
structure MumbleThreadController (C M : Type*) where
  messageQueue : LinkedQueue M
  mutex : Option Party
  message : Option C
  asyncMessage : Bool
  worker : WorkerStage M
  main : MainStage
  sent : List M
  passed : List (C × M)
  popped : List (Option C)

variable {C M : Type*}

/-- The stages in which a thread holds the mutex. -/
def WorkerStage.Holds : WorkerStage M → Prop
  | .pushing _ | .unlocking => True
  | _ => False

def MainStage.Holds : MainStage → Prop
  | .looping | .popping | .unlocking _ | .leaving => True
  | _ => False

/-- `mumble_thread_new` -/
def mumbleThreadNew : MumbleThreadController C M :=
  { messageQueue := LinkedQueue.empty
    mutex := none
    message := none
    asyncMessage := false
    worker := .outside
    main := .outside
    sent := []
    passed := []
    popped := [] }

/-- What happens next: the worker thread calls `send`; it takes a step, where `malloc` would
return the address; the loop wakes the main thread up; the main thread takes a step; a script
calls `onMessage`, with nothing for an argument that is no function. -/
inductive Event (C M : Type*) where
  | send (message : M)
  | worker (address : Nat)
  | wake
  | main
  | onMessage (callback : Option C)

namespace MumbleThreadController

variable (s : MumbleThreadController C M)

/-- `thread_worker_send` up to the lock -/
def send (message : M) : MumbleThreadController C M :=
  match s.worker with
  | .outside => { s with worker := .locking message, sent := s.sent ++ [message] }
  | _ => s

/-- A step of `thread_worker_send`. A thread waits for a mutex that is held, and `malloc`
returns no address that is in use. -/
def workerStep (address : Nat) : Option (MumbleThreadController C M) :=
  match s.worker with
  | .outside => some s
  | .locking message =>
      match s.mutex with
      | none => some { s with mutex := some .worker, worker := .pushing message }
      | some _ => some s
  | .pushing message =>
      match s.messageQueue.nodes address with
      | none =>
          (s.messageQueue.push address message).map fun queue =>
            { s with messageQueue := queue, worker := .unlocking }
      | some _ => some s
  | .unlocking => some { s with mutex := none, worker := .signalling }
  | .signalling => some { s with asyncMessage := true, worker := .outside }

/-- The loop runs the handler of `async_message`: one time for all signals since the last. -/
def wake : MumbleThreadController C M :=
  match s.main, s.asyncMessage with
  | .outside, true =>
      { s with
        asyncMessage := false
        main := if s.message.isSome then .locking else .outside }
  | _, _ => s

/-- A step of `mumble_thread_controller_message`. From the callback it comes back with or
without an error, frees the message and takes the lock again. -/
def mainStep : Option (MumbleThreadController C M) :=
  match s.main with
  | .outside => some s
  | .locking =>
      match s.mutex with
      | none => some { s with mutex := some .main, main := .looping }
      | some _ => some s
  | .looping =>
      if s.message.isSome && s.messageQueue.front.isSome then some { s with main := .popping }
      else some { s with main := .leaving }
  | .popping =>
      s.messageQueue.pop.map fun (message, queue) =>
        { s with
          messageQueue := queue
          main := .unlocking message
          popped := s.popped ++ [s.message] }
  | .unlocking message => some { s with mutex := none, main := .calling message }
  | .calling message =>
      message.bind fun address =>
        (s.messageQueue.nodes address).map fun node =>
          { s with
            main := .inCallback address
            passed := s.passed ++ (s.message.map fun callback => (callback, node.data)).toList }
  | .inCallback message =>
      (s.messageQueue.nodes message).map fun _ =>
        { s with messageQueue := s.messageQueue.free message, main := .locking }
  | .leaving => some { s with mutex := none, main := .outside }

/-- `thread_controller_onMessage`, from other code of the main thread or from the callback. It
drops the old callback before it looks at its argument. -/
def onMessage (callback : Option C) : MumbleThreadController C M :=
  match s.main with
  | .outside | .inCallback _ => { s with message := callback }
  | _ => s

end MumbleThreadController

open MumbleThreadController

def step (s : Option (MumbleThreadController C M)) (e : Event C M) :
    Unit × Option (MumbleThreadController C M) :=
  ((), s.bind fun s =>
    match e with
    | .send message => some (s.send message)
    | .worker address => s.workerStep address
    | .wake => some s.wake
    | .main => s.mainStep
    | .onMessage callback => some (s.onMessage callback))

namespace MumbleThreadController

variable {s : MumbleThreadController C M} {cells : List (Nat × M)}

/-- The message that was sent and is not in the queue yet. -/
def unqueued (s : MumbleThreadController C M) : List M :=
  match s.worker with
  | .locking message | .pushing message => [message]
  | _ => []

/-- The message that was popped and is not passed yet. -/
def inHand (s : MumbleThreadController C M) : List M :=
  match s.main with
  | .unlocking (some address) | .calling (some address) =>
      ((s.messageQueue.nodes address).map QueueNode.data).toList
  | _ => []

/-- Nothing is lost, duplicated, reordered, or popped without a callback. -/
structure Orderly (s : MumbleThreadController C M) : Prop where
  in_order : s.passed.map Prod.snd <+: s.sent
  kept : ∃ cells, s.messageQueue.Represents cells ∧
    s.sent = s.passed.map Prod.snd ++ s.inHand ++ cells.map Prod.snd ++ s.unqueued
  registered : ∀ callback ∈ s.popped, callback.isSome = true
  ends : s.messageQueue.front = none ↔ s.messageQueue.rear = none

/-- The node at the pointer is allocated, and out of the queue. -/
def Taken (s : MumbleThreadController C M) (cells : List (Nat × M)) (address : Nat) : Prop :=
  address ∉ cells.map Prod.fst ∧ ∃ node, s.messageQueue.nodes address = some node

/-- What the main thread relies on where it is. -/
def MainOk (s : MumbleThreadController C M) (cells : List (Nat × M)) : MainStage → Prop
  | .popping => s.message.isSome = true ∧ cells ≠ []
  | .unlocking message | .calling message =>
      s.message.isSome = true ∧ ∃ address, message = some address ∧ Taken s cells address
  | .inCallback message => Taken s cells message
  | _ => True

/-- The invariant of the two threads. -/
structure Inv (s : MumbleThreadController C M) (cells : List (Nat × M)) : Prop where
  represents : s.messageQueue.Represents cells
  worker_holds : s.mutex = some .worker ↔ s.worker.Holds
  main_holds : s.mutex = some .main ↔ s.main.Holds
  main_ok : MainOk s cells s.main
  sent : s.sent = s.passed.map Prod.snd ++ s.inHand ++ cells.map Prod.snd ++ s.unqueued
  registered : ∀ callback ∈ s.popped, callback.isSome = true

theorem Inv.orderly (h : Inv s cells) : Orderly s := by
  refine ⟨?_, ⟨cells, h.represents, h.sent⟩, h.registered, h.represents.front_none_iff⟩
  rw [h.sent, List.append_assoc, List.append_assoc]
  exact List.prefix_append ..

theorem inv_new : Inv (mumbleThreadNew : MumbleThreadController C M) [] := by
  refine ⟨LinkedQueue.represents_empty, ?_, ?_, trivial, rfl, by simp [mumbleThreadNew]⟩
  · simp [mumbleThreadNew, WorkerStage.Holds]
  · simp [mumbleThreadNew, MainStage.Holds]

theorem Inv.send (h : Inv s cells) (message : M) : Inv (s.send message) cells := by
  unfold MumbleThreadController.send
  split
  · rename_i hworker
    have hsent := h.sent
    have hholds := h.worker_holds
    rw [hworker] at hholds
    refine ⟨h.represents, hholds, h.main_holds, h.main_ok, ?_, h.registered⟩
    simp only [unqueued, hworker, List.append_nil] at hsent ⊢
    rw [hsent]
    rfl
  · exact h

theorem Inv.wake (h : Inv s cells) : Inv s.wake cells := by
  unfold MumbleThreadController.wake
  split
  · rename_i hmain _
    have hsent := h.sent
    have hholds := h.main_holds
    rw [hmain] at hholds
    simp only [inHand, hmain] at hsent
    split
    · exact ⟨h.represents, h.worker_holds, hholds, trivial, hsent, h.registered⟩
    · exact ⟨h.represents, h.worker_holds, hholds, trivial, hsent, h.registered⟩
  · exact h

theorem Inv.onMessage (h : Inv s cells) (callback : Option C) :
    Inv (s.onMessage callback) cells := by
  have hok := h.main_ok
  have hsent := h.sent
  unfold MumbleThreadController.onMessage
  split
  · rename_i hmain
    rw [hmain] at hok
    refine ⟨h.represents, h.worker_holds, h.main_holds, ?_, hsent, h.registered⟩
    simp only [hmain, MainOk]
  · rename_i message hmain
    rw [hmain] at hok
    refine ⟨h.represents, h.worker_holds, h.main_holds, ?_, hsent, h.registered⟩
    simp only [hmain]
    exact hok
  · exact h

/-- What the main thread has taken out of the queue is where it was after a push. -/
theorem MainOk.push {stage : MainStage} (h : MainOk s cells stage) {address : Nat}
    (hfresh : s.messageQueue.nodes address = none) {message : M} {queue : LinkedQueue M}
    (hkeeps : ∀ other, other ≠ address → other ∉ cells.map Prod.fst →
      queue.nodes other = s.messageQueue.nodes other) :
    MainOk { s with messageQueue := queue, worker := .unlocking } (cells ++ [(address, message)])
      stage := by
  have htaken {other : Nat} (h : Taken s cells other) :
      Taken { s with messageQueue := queue, worker := .unlocking } (cells ++ [(address, message)])
        other := by
    obtain ⟨hother, node, hnode⟩ := h
    have hne : other ≠ address := by
      rintro rfl
      rw [hfresh] at hnode
      cases hnode
    refine ⟨?_, node, (hkeeps other hne hother).trans hnode⟩
    simpa [hne] using hother
  cases stage with
  | popping => exact ⟨h.1, by simp⟩
  | unlocking pointer =>
      obtain ⟨hmessage, other, hpointer, hother⟩ := h
      exact ⟨hmessage, other, hpointer, htaken hother⟩
  | calling pointer =>
      obtain ⟨hmessage, other, hpointer, hother⟩ := h
      exact ⟨hmessage, other, hpointer, htaken hother⟩
  | inCallback pointer => exact htaken h
  | _ => trivial

/-- What is in hand is read from where a push changes nothing. -/
theorem MainOk.inHand_push (h : MainOk s cells s.main) {address : Nat}
    (hfresh : s.messageQueue.nodes address = none) {queue : LinkedQueue M}
    (hkeeps : ∀ other, other ≠ address → other ∉ cells.map Prod.fst →
      queue.nodes other = s.messageQueue.nodes other) :
    inHand { s with messageQueue := queue, worker := .unlocking } = s.inHand := by
  have hsame {other : Nat} (h : Taken s cells other) :
      queue.nodes other = s.messageQueue.nodes other := by
    obtain ⟨hother, node, hnode⟩ := h
    refine hkeeps other ?_ hother
    rintro rfl
    rw [hfresh] at hnode
    cases hnode
  cases hmain : s.main with
  | unlocking pointer =>
      rw [hmain] at h
      obtain ⟨-, other, rfl, hother⟩ := h
      simp only [inHand, hmain, hsame hother]
  | calling pointer =>
      rw [hmain] at h
      obtain ⟨-, other, rfl, hother⟩ := h
      simp only [inHand, hmain, hsame hother]
  | _ => simp only [inHand, hmain]

/-- A step of the worker thread. -/
theorem Inv.workerStep (h : Inv s cells) (address : Nat) :
    ∃ s', s.workerStep address = some s' ∧ ∃ cells', Inv s' cells' := by
  have hholds := h.worker_holds
  have hsent := h.sent
  unfold MumbleThreadController.workerStep
  cases hworker : s.worker with
  | outside => exact ⟨s, rfl, cells, h⟩
  | locking message =>
      cases hmutex : s.mutex with
      | some party => exact ⟨s, rfl, cells, h⟩
      | none =>
          have hmain := h.main_holds
          rw [hmutex] at hmain
          simp only [unqueued, hworker] at hsent
          refine ⟨_, rfl, cells, h.represents, iff_of_true rfl trivial, ?_, h.main_ok, hsent,
            h.registered⟩
          simpa using hmain
  | pushing message =>
      cases hfresh : s.messageQueue.nodes address with
      | some node => exact ⟨s, rfl, cells, h⟩
      | none =>
          obtain ⟨queue, hpush, hrepresents, hkeeps⟩ := h.represents.push hfresh message
          rw [hworker] at hholds
          simp only [unqueued, hworker] at hsent
          refine ⟨{ s with messageQueue := queue, worker := .unlocking },
            by simp only [hpush, Option.map_some], cells ++ [(address, message)], hrepresents,
            hholds, h.main_holds, h.main_ok.push hfresh hkeeps, ?_, h.registered⟩
          rw [h.main_ok.inHand_push hfresh hkeeps]
          simpa [unqueued] using hsent
  | unlocking =>
      have hmain := h.main_holds
      rw [hholds.mpr (by rw [hworker]; trivial)] at hmain
      simp only [unqueued, hworker] at hsent
      refine ⟨_, rfl, cells, h.represents, iff_of_false (by simp) id, ?_, h.main_ok, hsent,
        h.registered⟩
      simpa using hmain
  | signalling =>
      rw [hworker] at hholds
      simp only [unqueued, hworker] at hsent
      exact ⟨_, rfl, cells, h.represents, hholds, h.main_holds, h.main_ok, hsent, h.registered⟩

/-- `queue_pop` takes the first cell into the hand. -/
theorem Inv.mainStep_popping (h : Inv s cells) (hmain : s.main = .popping) :
    ∃ s', s.mainStep = some s' ∧ ∃ cells', Inv s' cells' := by
  have hok := h.main_ok
  have hholds := h.main_holds
  have hsent := h.sent
  simp only [hmain, MainOk] at hok
  rw [hmain] at hholds
  obtain ⟨hmessage, hne⟩ := hok
  cases cells with
  | nil => exact absurd rfl hne
  | cons cell rest =>
      obtain ⟨address, data⟩ := cell
      obtain ⟨queue, hpop, hrepresents, hnodes⟩ := h.represents.pop
      obtain ⟨next, hnode⟩ := h.represents.links.allocated (List.mem_cons_self ..)
      have hdistinct := h.represents.distinct
      rw [List.map_cons, List.nodup_cons] at hdistinct
      refine ⟨{ s with
          messageQueue := queue
          main := .unlocking (some address)
          popped := s.popped ++ [s.message] },
        by simp only [MumbleThreadController.mainStep, hmain, hpop, Option.map_some],
        rest, hrepresents, h.worker_holds, hholds, ?_, ?_, ?_⟩
      · exact ⟨hmessage, address, rfl, hdistinct.1, _, hnodes ▸ hnode⟩
      · simp only [inHand, hmain] at hsent
        simp only [inHand, hnodes, hnode]
        simpa [unqueued] using hsent
      · intro callback hcallback
        rcases List.mem_append.mp hcallback with hcallback | hcallback
        · exact h.registered callback hcallback
        · rw [List.mem_singleton.mp hcallback]
          exact hmessage

/-- What is in hand is passed to the callback, which is still registered. -/
theorem Inv.mainStep_calling (h : Inv s cells) {pointer : Option Nat}
    (hmain : s.main = .calling pointer) :
    ∃ s', s.mainStep = some s' ∧ ∃ cells', Inv s' cells' := by
  have hok := h.main_ok
  have hholds := h.main_holds
  have hsent := h.sent
  simp only [hmain, MainOk] at hok
  rw [hmain] at hholds
  obtain ⟨hmessage, address, rfl, hother, node, hnode⟩ := hok
  obtain ⟨callback, hcallback⟩ := Option.isSome_iff_exists.mp hmessage
  refine ⟨{ s with
      main := .inCallback address
      passed := s.passed ++ [(callback, node.data)] },
    by simp only [MumbleThreadController.mainStep, hmain, hnode, hcallback, Option.bind_some,
      Option.map_some, Option.toList_some],
    cells, h.represents, h.worker_holds, hholds, ⟨hother, node, hnode⟩, ?_, h.registered⟩
  simp only [inHand, hmain, hnode] at hsent
  simpa [inHand, unqueued] using hsent

/-- A step of the main thread. -/
theorem Inv.mainStep (h : Inv s cells) :
    ∃ s', s.mainStep = some s' ∧ ∃ cells', Inv s' cells' := by
  have hok := h.main_ok
  have hholds := h.main_holds
  have hsent := h.sent
  cases hmain : s.main with
  | popping => exact h.mainStep_popping hmain
  | calling pointer => exact h.mainStep_calling hmain
  | outside => exact ⟨s, by simp only [MumbleThreadController.mainStep, hmain], cells, h⟩
  | locking =>
      simp only [MumbleThreadController.mainStep, hmain]
      cases hmutex : s.mutex with
      | some party => exact ⟨s, rfl, cells, h⟩
      | none =>
          have hworker := h.worker_holds
          rw [hmutex] at hworker
          simp only [inHand, hmain] at hsent
          refine ⟨_, rfl, cells, h.represents, ?_, iff_of_true rfl trivial, trivial, hsent,
            h.registered⟩
          simpa using hworker
  | looping =>
      simp only [MumbleThreadController.mainStep, hmain]
      rw [hmain] at hholds
      simp only [inHand, hmain] at hsent
      split
      · rename_i hboth
        rw [Bool.and_eq_true] at hboth
        refine ⟨_, rfl, cells, h.represents, h.worker_holds, hholds, ⟨hboth.1, ?_⟩, hsent,
          h.registered⟩
        rintro rfl
        rw [h.represents.front_eq] at hboth
        cases hboth.2
      · exact ⟨_, rfl, cells, h.represents, h.worker_holds, hholds, trivial, hsent, h.registered⟩
  | unlocking pointer =>
      have hworker := h.worker_holds
      rw [hholds.mpr (by rw [hmain]; trivial)] at hworker
      simp only [hmain, MainOk] at hok
      simp only [MumbleThreadController.mainStep, hmain]
      refine ⟨_, rfl, cells, h.represents, ?_, iff_of_false (by simp) id, hok, ?_, h.registered⟩
      · simpa using hworker
      · obtain ⟨-, address, rfl, -⟩ := hok
        simp only [inHand, hmain] at hsent
        exact hsent
  | inCallback pointer =>
      simp only [hmain, MainOk] at hok
      rw [hmain] at hholds
      simp only [inHand, hmain] at hsent
      obtain ⟨hother, node, hnode⟩ := hok
      exact ⟨{ s with messageQueue := s.messageQueue.free pointer, main := .locking },
        by simp only [MumbleThreadController.mainStep, hmain, hnode, Option.map_some], cells,
        h.represents.free hother, h.worker_holds, hholds, trivial, hsent, h.registered⟩
  | leaving =>
      have hworker := h.worker_holds
      rw [hholds.mpr (by rw [hmain]; trivial)] at hworker
      simp only [inHand, hmain] at hsent
      simp only [MumbleThreadController.mainStep, hmain]
      refine ⟨_, rfl, cells, h.represents, ?_, iff_of_false (by simp) id, trivial, hsent,
        h.registered⟩
      simpa using hworker

theorem Inv.step (h : Inv s cells) (e : Event C M) :
    ∃ s', (Thread.step (some s) e).2 = some s' ∧ ∃ cells', Inv s' cells' := by
  cases e with
  | send message => exact ⟨_, rfl, cells, h.send message⟩
  | worker address => exact h.workerStep address
  | wake => exact ⟨_, rfl, cells, h.wake⟩
  | main => exact h.mainStep
  | onMessage callback => exact ⟨_, rfl, cells, h.onMessage callback⟩

end MumbleThreadController

/-- For every interleaving of sends, wake-ups, steps of the two threads and registrations: no
bad pointer is followed, and what was passed to the callbacks is the first part of what was
sent. -/
theorem messages_in_order (events : List (Event C M)) :
    ∃ s, Machine.final step (some mumbleThreadNew) events = some s ∧ Orderly s := by
  have hrun := Machine.invariant_final
    (fun s : Option (MumbleThreadController C M) => ∃ t, s = some t ∧ ∃ cells, Inv t cells)
    (by
      rintro s e ⟨t, rfl, cells, h⟩
      exact h.step e)
    (some mumbleThreadNew) events ⟨_, rfl, [], inv_new⟩
  obtain ⟨s, hs, cells, h⟩ := hrun
  exact ⟨s, hs, h.orderly⟩

end LuaMumble.Thread
