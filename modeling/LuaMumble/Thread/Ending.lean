import LuaMumble.Lib.Machine

/-!
The controller of a thread, from `mumble.thread` until it is collected. It has a reference to
itself until `mumble_thread_worker_finish` has run, since the worker thread knows it by a plain
pointer. From then on it lives as long as the script keeps it. The queue of the controller is a
list; what the mutex does for it is in `Thread.Controller`. The Lua of the script that made the
controller stays open.

Its finalizer closes the two handles, which are in the memory of the controller, and that memory is
given back in a later cycle of the collector. `mumble.stop` closes them as well. The loop has the
handles in its lists until it comes to its closing phase. A step that uses what the finalizer took
down, or memory that was given back, has no result.
-/

namespace LuaMumble.Thread.Ending

open Lib

/-- Where the worker thread is in `mumble_thread_worker_start`, and in `thread_worker_send` below
that. It is `closing` in `lua_close`, where the finalizers of the script may send as well. -/
inductive WorkerStage (M : Type*) where
  | starting
  | script (closing : Bool)
  | pushing (closing : Bool) (message : M)
  | signalling (closing : Bool)
  | reporting (loaded : Bool)
  | over

/-- Where the main thread is: in the callback of `mumble_thread_worker_finish`, in
`mumble_thread_controller_message`, or in other code. -/
inductive MainStage (M : Type*) where
  | outside
  | finishing
  | looping
  | calling (message : M)
  | inCallback (message : M)

/-- A call of a callback, with the controller for an argument or with nil. -/
inductive Call (C M : Type*) where
  | finish (callback : C) (controller : Bool)
  | message (callback : C) (controller : Bool) (message : M)

/-- `collected` tells if the finalizer has run, `freed` if the memory was given back, `stopped` if
`mumble.stop` has closed the handles, `closing` if they are closed and still in the lists of the
loop, and `held` if a value of the script, or an argument of a callback, is the controller. The last
two members are the history. -/
structure MumbleThreadController (C M : Type*) where
  collected : Bool
  freed : Bool
  stopped : Bool
  closing : Bool
  held : Bool
  self : Bool
  finish : Option C
  message : Option C
  messageQueue : List M
  asyncFinish : Bool
  asyncMessage : Bool
  worker : WorkerStage M
  main : MainStage M
  sent : List M
  calls : List (Call C M)

variable {C M : Type*}

/-- `mumble_thread_new` -/
def mumbleThreadNew : MumbleThreadController C M :=
  { collected := false
    freed := false
    stopped := false
    closing := false
    held := true
    self := true
    finish := none
    message := none
    messageQueue := []
    asyncFinish := false
    asyncMessage := false
    worker := .starting
    main := .outside
    sent := []
    calls := [] }

/-- What happens next. The worker thread loads its function, calls `send`, comes back from its
function or out of `lua_close`, or takes the one step that it can. The loop wakes the main thread
up for one of the two handles, or the main thread takes a step. A script calls `onFinish` or
`onMessage`, or forgets the controller; the collector finds it, or gives back what it found before.
The loop comes to its closing phase, or it changes its list of handles next to the two, or it is
stopped. -/
inductive Event (C M : Type*) where
  | load (ok : Bool)
  | send (message : M)
  | ends
  | worker
  | wakeFinish
  | wakeMessage
  | main
  | onFinish (callback : Option C)
  | onMessage (callback : Option C)
  | drop
  | collect
  | free
  | closing
  | neighbour
  | stop

/-- The worker thread has sent `async_finish`. -/
def WorkerStage.Reported : WorkerStage M → Bool
  | .script closing | .pushing closing _ | .signalling closing => closing
  | .over => true
  | _ => false

/-- The main thread runs code of the script. -/
def MainStage.InScript : MainStage M → Bool
  | .outside | .finishing | .inCallback _ => true
  | _ => false

namespace MumbleThreadController

variable (s : MumbleThreadController C M)

/-- A use of the controller. -/
def touch (next : MumbleThreadController C M) : Option (MumbleThreadController C M) :=
  if s.collected then none else some next

/-- A use of its closed handles by the loop, if they are in the lists of the loop. -/
def touchClosed (next : MumbleThreadController C M) : Option (MumbleThreadController C M) :=
  if s.closing && s.freed then none else some next

/-- The worker thread reads its bytecode or the name of its file, and tells that it started. -/
def load (ok : Bool) : Option (MumbleThreadController C M) :=
  match s.worker with
  | .starting => s.touch { s with worker := if ok then .script false else .reporting false }
  | _ => some s

/-- `thread_worker_send` up to the lock -/
def send (message : M) : MumbleThreadController C M :=
  match s.worker with
  | .script closing =>
      { s with worker := .pushing closing message, sent := s.sent ++ [message] }
  | _ => s

/-- The function of the thread returns, or `lua_close` does. -/
def ends : MumbleThreadController C M :=
  match s.worker with
  | .script false => { s with worker := .reporting true }
  | .script true => { s with worker := .over }
  | _ => s

def workerStep : Option (MumbleThreadController C M) :=
  match s.worker with
  | .pushing closing message =>
      s.touch
        { s with messageQueue := s.messageQueue ++ [message], worker := .signalling closing }
  | .signalling closing => s.touch { s with asyncMessage := true, worker := .script closing }
  | .reporting loaded =>
      s.touch { s with asyncFinish := true, worker := if loaded then .script true else .over }
  | _ => some s

/-- `mumble_thread_worker_finish` up to the call, or as a whole if there is none. -/
def wakeFinish : Option (MumbleThreadController C M) :=
  match s.main, s.asyncFinish && !s.stopped with
  | .outside, true =>
      s.touch
        (match s.finish with
        | some callback =>
            { s with
              asyncFinish := false
              main := .finishing
              held := s.held || s.self
              calls := s.calls ++ [.finish callback s.self] }
        | none => { s with asyncFinish := false, self := false })
  | _, _ => some s

/-- `mumble_thread_controller_message` up to its loop -/
def wakeMessage : Option (MumbleThreadController C M) :=
  match s.main, s.asyncMessage && !s.stopped with
  | .outside, true =>
      s.touch
        { s with
          asyncMessage := false
          main := if s.message.isSome then .looping else .outside }
  | _, _ => some s

/-- A step of the main thread in one of the two handlers. After the callback of `onFinish` the
references are given up, whatever callback there is by then. -/
def mainStep : Option (MumbleThreadController C M) :=
  match s.main with
  | .outside => some s
  | .finishing => s.touch { s with finish := none, self := false, main := .outside }
  | .looping =>
      s.touch
        (match s.message, s.messageQueue with
        | some _, message :: rest => { s with messageQueue := rest, main := .calling message }
        | _, _ => { s with main := .outside })
  | .calling message =>
      s.touch
        { s with
          main := .inCallback message
          held := s.held || s.self
          calls := s.calls ++
            (s.message.map fun callback => Call.message callback s.self message).toList }
  | .inCallback _ => s.touch { s with main := .looping }

/-- `thread_controller_onFinish`. A script can call it as long as it has the controller. -/
def onFinish (callback : Option C) : MumbleThreadController C M :=
  if s.held && s.main.InScript then { s with finish := callback } else s

/-- `thread_controller_onMessage` -/
def onMessage (callback : Option C) : MumbleThreadController C M :=
  if s.held && s.main.InScript then { s with message := callback } else s

/-- The script forgets the controller. -/
def drop : MumbleThreadController C M :=
  if s.main.InScript then { s with held := false } else s

/-- `thread_controller_gc`, which the collector calls in any code of the main thread. It closes the
handles if they are not closed. A closed handle does not wake the loop up any more. -/
def collect : MumbleThreadController C M :=
  if s.collected || s.self || s.held then s
  else
    { s with
      collected := true
      closing := !s.stopped || s.closing
      messageQueue := []
      asyncFinish := false
      asyncMessage := false }

/-- A later cycle of the collector -/
def free : MumbleThreadController C M :=
  if s.collected then { s with freed := true } else s

/-- The closing phase of the loop, which takes the handles from its lists. It is not reached below a
callback. -/
def closingPhase : Option (MumbleThreadController C M) :=
  match s.main with
  | .outside => s.touchClosed { s with closing := false }
  | _ => some s

/-- Another handle is put behind the two in the list of handles, or one next to them is taken
out. -/
def neighbour : Option (MumbleThreadController C M) := s.touchClosed s

/-- `mumble_close`, which looks at all handles of the loop and closes those that are not closed. -/
def stop : Option (MumbleThreadController C M) :=
  s.touchClosed
    (if s.collected then s else { s with stopped := true, closing := !s.stopped || s.closing })

end MumbleThreadController

def step (s : MumbleThreadController C M) : Event C M → Option (MumbleThreadController C M)
  | .load ok => s.load ok
  | .send message => some (s.send message)
  | .ends => some s.ends
  | .worker => s.workerStep
  | .wakeFinish => s.wakeFinish
  | .wakeMessage => s.wakeMessage
  | .main => s.mainStep
  | .onFinish callback => some (s.onFinish callback)
  | .onMessage callback => some (s.onMessage callback)
  | .drop => some s.drop
  | .collect => some s.collect
  | .free => some s.free
  | .closing => s.closingPhase
  | .neighbour => s.neighbour
  | .stop => s.stop

def MainStage.Outside : MainStage M → Bool
  | .outside => true
  | _ => false

def MainStage.Finishing : MainStage M → Bool
  | .finishing => true
  | _ => false

def Call.isFinish : Call C M → Bool
  | .finish _ _ => true
  | .message _ _ _ => false

/-- The call had the controller for its argument. -/
def Call.controller : Call C M → Bool
  | .finish _ controller | .message _ controller _ => controller

def Call.passed : Call C M → Option M
  | .finish _ _ => none
  | .message _ _ data => some data

namespace MumbleThreadController

variable (s : MumbleThreadController C M)

/-- The message that was popped and is not passed yet. -/
def inHand : List M :=
  match s.main with
  | .calling message => [message]
  | _ => []

/-- The message that was sent and is not in the queue yet. -/
def unqueued : List M :=
  match s.worker with
  | .pushing _ message => [message]
  | _ => []

/-- A use that nothing holds back until the controller is collected: the main thread goes on with
the messages, or a finalizer of the script of the thread sends. Or one of the closed handles that
nothing holds back until the memory is given back. -/
def Late : Event C M → Prop
  | .main => s.collected = true ∧ s.main.Finishing = false ∧
      (s.main.InScript = false ∨ ∃ message, s.main = .inCallback message)
  | .worker => s.collected = true ∧ s.worker.Reported = true ∧
      ((∃ message, s.worker = .pushing true message) ∨ s.worker = .signalling true)
  | .closing => s.main.Outside = true ∧ s.closing = true ∧ s.freed = true
  | .neighbour | .stop => s.closing = true ∧ s.freed = true
  | _ => False

/-- First the messages that came before the end, then one call at most for the end, then the
messages that came after it. -/
def InOrder (self finishing : Bool) (calls : List (Call C M)) : Prop :=
  ∃ before last after, calls = before ++ last ++ after ∧
    (∀ call ∈ before, call.isFinish = false ∧ call.controller = true) ∧
    (∀ call ∈ last, call.isFinish = true ∧ call.controller = true) ∧ last.length ≤ 1 ∧
    (∀ call ∈ after, call.isFinish = false ∧ call.controller = false) ∧
    (self = true → after = [] ∧ (finishing = false → last = []))

structure Inv (s : MumbleThreadController C M) : Prop where
  self : s.self = (!s.worker.Reported || s.asyncFinish || s.main.Finishing)
  reported : (s.asyncFinish || s.main.Finishing) = true → s.worker.Reported = true
  once : s.main.Finishing = true → s.asyncFinish = false
  collected : s.collected = true →
    s.self = false ∧ s.asyncFinish = false ∧ s.asyncMessage = false ∧ s.messageQueue = []
  calling : ∀ message, s.main = .calling message → s.message.isSome = true
  calls : InOrder s.self s.main.Finishing s.calls
  sent : ∃ lost, (s.collected = false → lost = []) ∧
    s.sent = s.calls.filterMap Call.passed ++ s.inHand ++ s.messageQueue ++ lost ++ s.unqueued

variable {s} {s' : MumbleThreadController C M}

theorem inv_new : Inv (mumbleThreadNew : MumbleThreadController C M) := by
  refine ⟨rfl, ?_, fun _ => rfl, ?_, ?_, ⟨[], [], [], rfl, ?_, ?_, Nat.zero_le _, ?_, ?_⟩, [], ?_⟩
  all_goals simp [mumbleThreadNew, MainStage.Finishing, inHand, unqueued]

theorem touch_eq_some {next : MumbleThreadController C M} :
    s.touch next = some s' ↔ s.collected = false ∧ next = s' := by
  unfold touch
  cases s.collected <;> simp

theorem touch_eq_none {next : MumbleThreadController C M} :
    s.touch next = none ↔ s.collected = true := by
  unfold touch
  cases s.collected <;> simp

/-- A step of the worker thread that sends nothing and reports nothing. -/
theorem Inv.of_worker (h : Inv s) {worker : WorkerStage M}
    (hreported : worker.Reported = s.worker.Reported)
    (hunqueued : ({ s with worker := worker } : MumbleThreadController C M).unqueued = s.unqueued) :
    Inv { s with worker := worker } := by
  refine ⟨?_, ?_, h.once, h.collected, h.calling, h.calls, ?_⟩
  · rw [h.self, hreported]
  · rw [hreported]
    exact h.reported
  · rw [hunqueued]
    exact h.sent

theorem Inv.load (h : Inv s) {ok : Bool} (hs : s.load ok = some s') : Inv s' := by
  unfold MumbleThreadController.load at hs
  split at hs
  · rename_i hworker
    obtain ⟨-, rfl⟩ := touch_eq_some.mp hs
    apply h.of_worker
    · rw [hworker]
      cases ok <;> rfl
    · cases ok <;> simp [unqueued, hworker]
  · cases hs
    exact h

theorem Inv.send (h : Inv s) (message : M) : Inv (s.send message) := by
  unfold MumbleThreadController.send
  split
  · rename_i closing hworker
    have hself := h.self
    have hreported := h.reported
    obtain ⟨lost, hlost, hsent⟩ := h.sent
    rw [hworker] at hself hreported
    refine ⟨hself, hreported, h.once, h.collected, h.calling, h.calls, lost, hlost, ?_⟩
    simp only [unqueued, hworker, List.append_nil] at hsent ⊢
    rw [hsent]
    rfl
  · exact h

theorem Inv.ends (h : Inv s) : Inv s.ends := by
  unfold MumbleThreadController.ends
  split
  · rename_i hworker
    exact h.of_worker (by rw [hworker]; rfl) (by simp [unqueued, hworker])
  · rename_i hworker
    exact h.of_worker (by rw [hworker]; rfl) (by simp [unqueued, hworker])
  · exact h

theorem Inv.workerStep (h : Inv s) (hs : s.workerStep = some s') : Inv s' := by
  have hself := h.self
  have hreported := h.reported
  obtain ⟨lost, hlost, hsent⟩ := h.sent
  unfold MumbleThreadController.workerStep at hs
  split at hs
  · rename_i closing message hworker
    obtain ⟨halive, rfl⟩ := touch_eq_some.mp hs
    rw [hworker] at hself hreported
    refine ⟨hself, hreported, h.once, ?_, h.calling, h.calls, lost, hlost, ?_⟩
    · intro hcollected
      rw [hcollected] at halive
      cases halive
    · rw [hlost halive] at hsent ⊢
      simp only [unqueued, hworker, List.append_nil] at hsent ⊢
      rw [hsent, List.append_assoc]
      rfl
  · rename_i closing hworker
    obtain ⟨halive, rfl⟩ := touch_eq_some.mp hs
    rw [hworker] at hself hreported
    simp only [unqueued, hworker] at hsent
    refine ⟨hself, hreported, h.once, ?_, h.calling, h.calls, lost, hlost, hsent⟩
    intro hcollected
    rw [hcollected] at halive
    cases halive
  · rename_i loaded hworker
    obtain ⟨halive, rfl⟩ := touch_eq_some.mp hs
    have hearly : (s.asyncFinish || s.main.Finishing) = false := by
      rw [hworker] at hreported
      cases hpending : (s.asyncFinish || s.main.Finishing) with
      | false => rfl
      | true => cases hreported hpending
    rw [Bool.or_eq_false_iff] at hearly
    have hover : (if loaded then WorkerStage.script true else .over : WorkerStage M).Reported
        = true := by
      cases loaded <;> rfl
    rw [hworker] at hself
    refine ⟨?_, fun _ => hover, ?_, ?_, h.calling, h.calls, lost, hlost, ?_⟩
    · simpa [hover, WorkerStage.Reported] using hself
    · intro hfinishing
      rw [hearly.2] at hfinishing
      cases hfinishing
    · intro hcollected
      rw [hcollected] at halive
      cases halive
    · simp only [unqueued, hworker] at hsent
      rw [hsent]
      cases loaded <;> rfl
  · cases hs
    exact h

/-- The calls before the end are those in which the controller still has its reference. -/
theorem InOrder.message {self : Bool} {calls : List (Call C M)} (h : InOrder self false calls)
    (callback : C) (message : M) :
    InOrder self false (calls ++ [.message callback self message]) := by
  obtain ⟨before, last, after, rfl, hbefore, hlast, hone, hafter, hself⟩ := h
  cases self with
  | true =>
      obtain ⟨rfl, hnone⟩ := hself rfl
      obtain rfl := hnone rfl
      refine ⟨before ++ [.message callback true message], [], [], by simp, ?_, by simp, by simp,
        by simp, fun _ => ⟨rfl, fun _ => rfl⟩⟩
      intro call hcall
      rcases List.mem_append.mp hcall with hcall | hcall
      · exact hbefore call hcall
      · rw [List.mem_singleton.mp hcall]
        exact ⟨rfl, rfl⟩
  | false =>
      refine ⟨before, last, after ++ [.message callback false message],
        by simp only [List.append_assoc], hbefore, hlast, hone, ?_, by simp⟩
      intro call hcall
      rcases List.mem_append.mp hcall with hcall | hcall
      · exact hafter call hcall
      · rw [List.mem_singleton.mp hcall]
        exact ⟨rfl, rfl⟩

theorem InOrder.finish {calls : List (Call C M)} (h : InOrder true false calls) (callback : C) :
    InOrder true true (calls ++ [.finish callback true]) := by
  obtain ⟨before, last, after, rfl, hbefore, -, -, -, hself⟩ := h
  obtain ⟨rfl, hnone⟩ := hself rfl
  obtain rfl := hnone rfl
  refine ⟨before, [.finish callback true], [], by simp, hbefore, ?_, by simp, by simp, by simp⟩
  intro call hcall
  rw [List.mem_singleton.mp hcall]
  exact ⟨rfl, rfl⟩

/-- The references are given up. -/
theorem InOrder.release {self finishing : Bool} {calls : List (Call C M)}
    (h : InOrder self finishing calls) : InOrder false false calls := by
  obtain ⟨before, last, after, hcalls, hbefore, hlast, hone, hafter, -⟩ := h
  exact ⟨before, last, after, hcalls, hbefore, hlast, hone, hafter, by simp⟩

theorem Inv.wakeFinish (h : Inv s) (hs : s.wakeFinish = some s') : Inv s' := by
  have hself := h.self
  have hcalls := h.calls
  obtain ⟨lost, hlost, hsent⟩ := h.sent
  unfold MumbleThreadController.wakeFinish at hs
  split at hs
  · rename_i hmain hawake
    obtain ⟨hasync, -⟩ := Bool.and_eq_true_iff.mp hawake
    obtain ⟨halive, rfl⟩ := touch_eq_some.mp hs
    have hreported : s.worker.Reported = true := h.reported (by rw [hasync]; rfl)
    rw [hmain, hasync, hreported] at hself
    simp only [inHand, hmain] at hsent
    rw [hmain, hself] at hcalls
    split
    · rename_i callback hfinish
      refine ⟨?_, fun _ => hreported, fun _ => rfl, ?_, by simp, ?_, lost, hlost, ?_⟩
      · simp [hself, MainStage.Finishing]
      · intro hcollected
        rw [hcollected] at halive
        cases halive
      · rw [hself]
        exact hcalls.finish callback
      · simpa [inHand, unqueued, List.filterMap_append, List.filterMap_cons, Call.passed]
          using hsent
    · rename_i hfinish
      refine ⟨?_, ?_, fun _ => rfl, ?_, ?_, ?_, lost, hlost, ?_⟩
      · simp [hmain, hreported, MainStage.Finishing]
      · simp [hmain, MainStage.Finishing]
      · intro hcollected
        rw [hcollected] at halive
        cases halive
      · simp [hmain]
      · rw [hmain]
        exact hcalls.release
      · simpa [inHand, hmain, unqueued] using hsent
  · cases hs
    exact h

theorem Inv.wakeMessage (h : Inv s) (hs : s.wakeMessage = some s') : Inv s' := by
  have hself := h.self
  have hreported := h.reported
  have hcalls := h.calls
  obtain ⟨lost, hlost, hsent⟩ := h.sent
  unfold MumbleThreadController.wakeMessage at hs
  split at hs
  · rename_i hmain hasync
    obtain ⟨halive, rfl⟩ := touch_eq_some.mp hs
    rw [hmain] at hself hreported hcalls
    simp only [inHand, hmain] at hsent
    have hdead : s.collected = true → False := by
      intro hcollected
      rw [hcollected] at halive
      cases halive
    cases hmessage : s.message with
    | some callback =>
        refine ⟨hself, hreported, ?_, fun hcollected => (hdead hcollected).elim, ?_, hcalls, lost,
          hlost, hsent⟩
        · simp [MainStage.Finishing]
        · simp
    | none =>
        refine ⟨hself, hreported, ?_, fun hcollected => (hdead hcollected).elim, ?_, hcalls, lost,
          hlost, hsent⟩
        · simp [MainStage.Finishing]
        · simp
  · cases hs
    exact h

theorem Inv.mainStep (h : Inv s) (hs : s.mainStep = some s') : Inv s' := by
  have hself := h.self
  have hreported := h.reported
  have hcalls := h.calls
  obtain ⟨lost, hlost, hsent⟩ := h.sent
  have hdead (halive : s.collected = false) (hcollected : s.collected = true) : False := by
    rw [hcollected] at halive
    cases halive
  unfold MumbleThreadController.mainStep at hs
  cases hmain : s.main with
  | outside =>
      simp only [hmain, Option.some.injEq] at hs
      rwa [← hs]
  | finishing =>
      simp only [hmain] at hs
      obtain ⟨halive, rfl⟩ := touch_eq_some.mp hs
      have hasync := h.once (by rw [hmain]; rfl)
      have hover := hreported (by simp [hmain, MainStage.Finishing])
      simp only [inHand, hmain] at hsent
      refine ⟨?_, fun _ => hover, fun _ => hasync, fun hc => (hdead halive hc).elim, by simp,
        hcalls.release, lost, hlost, hsent⟩
      simp [hasync, hover, MainStage.Finishing]
  | looping =>
      rw [hmain] at hself hreported hcalls
      simp only [inHand, hmain] at hsent
      simp only [hmain] at hs
      obtain ⟨halive, rfl⟩ := touch_eq_some.mp hs
      split
      · rename_i callback message rest hmessage hqueue
        refine ⟨hself, hreported, by simp [MainStage.Finishing],
          fun hc => (hdead halive hc).elim, ?_, hcalls, lost, hlost, ?_⟩
        · intro _ _
          rw [hmessage]
          rfl
        · rw [hqueue] at hsent
          simpa [inHand, unqueued] using hsent
      · exact ⟨hself, hreported, by simp [MainStage.Finishing],
          fun hc => (hdead halive hc).elim, by simp, hcalls, lost, hlost, hsent⟩
  | calling message =>
      obtain ⟨callback, hmessage⟩ := Option.isSome_iff_exists.mp (h.calling message hmain)
      rw [hmain] at hself hreported hcalls
      simp only [inHand, hmain] at hsent
      simp only [hmain] at hs
      obtain ⟨halive, rfl⟩ := touch_eq_some.mp hs
      refine ⟨hself, hreported, by simp [MainStage.Finishing],
        fun hc => (hdead halive hc).elim, by simp, ?_, lost, hlost, ?_⟩
      · rw [hmessage]
        exact hcalls.message callback message
      · simpa [hmessage, inHand, unqueued, List.filterMap_append, List.filterMap_cons,
          Call.passed] using hsent
  | inCallback message =>
      rw [hmain] at hself hreported hcalls
      simp only [inHand, hmain] at hsent
      simp only [hmain] at hs
      obtain ⟨halive, rfl⟩ := touch_eq_some.mp hs
      exact ⟨hself, hreported, by simp [MainStage.Finishing],
        fun hc => (hdead halive hc).elim, by simp, hcalls, lost, hlost, hsent⟩

theorem Inv.onFinish (h : Inv s) (callback : Option C) : Inv (s.onFinish callback) := by
  unfold MumbleThreadController.onFinish
  split
  · exact ⟨h.self, h.reported, h.once, h.collected, h.calling, h.calls, h.sent⟩
  · exact h

theorem Inv.onMessage (h : Inv s) (callback : Option C) : Inv (s.onMessage callback) := by
  unfold MumbleThreadController.onMessage
  split
  · rename_i hscript
    rw [Bool.and_eq_true] at hscript
    refine ⟨h.self, h.reported, h.once, h.collected, ?_, h.calls, h.sent⟩
    intro message hmain
    have hin := hscript.2
    rw [show s.main = .calling message from hmain] at hin
    cases hin
  · exact h

theorem Inv.drop (h : Inv s) : Inv s.drop := by
  unfold MumbleThreadController.drop
  split
  · exact ⟨h.self, h.reported, h.once, h.collected, h.calling, h.calls, h.sent⟩
  · exact h

theorem Inv.collect (h : Inv s) : Inv s.collect := by
  unfold MumbleThreadController.collect
  split
  · exact h
  · rename_i hfree
    simp only [Bool.or_eq_true, not_or, Bool.not_eq_true] at hfree
    obtain ⟨⟨halive, hself⟩, hheld⟩ := hfree
    have hfree := h.self
    rw [hself, eq_comm, Bool.or_eq_false_iff, Bool.or_eq_false_iff] at hfree
    obtain ⟨⟨hreported, hasync⟩, hfinishing⟩ := hfree
    obtain ⟨lost, hlost, hsent⟩ := h.sent
    refine ⟨?_, ?_, fun _ => rfl, fun _ => ⟨hself, rfl, rfl, rfl⟩, h.calling, h.calls,
      s.messageQueue, by simp, ?_⟩
    · simp [hself, hreported, hfinishing]
    · simp [hfinishing]
    · rw [hlost halive] at hsent
      simpa [inHand, unqueued] using hsent

theorem Inv.free (h : Inv s) : Inv s.free := by
  unfold MumbleThreadController.free
  split
  · exact ⟨h.self, h.reported, h.once, h.collected, h.calling, h.calls, h.sent⟩
  · exact h

theorem touchClosed_eq_some {next : MumbleThreadController C M} :
    s.touchClosed next = some s' ↔ (s.closing && s.freed) = false ∧ next = s' := by
  unfold touchClosed
  cases s.closing && s.freed <;> simp

theorem touchClosed_eq_none {next : MumbleThreadController C M} :
    s.touchClosed next = none ↔ s.closing = true ∧ s.freed = true := by
  unfold touchClosed
  rw [← Bool.and_eq_true]
  cases s.closing && s.freed <;> simp

theorem Inv.closingPhase (h : Inv s) (hs : s.closingPhase = some s') : Inv s' := by
  unfold MumbleThreadController.closingPhase at hs
  split at hs
  · obtain ⟨-, rfl⟩ := touchClosed_eq_some.mp hs
    exact ⟨h.self, h.reported, h.once, h.collected, h.calling, h.calls, h.sent⟩
  · cases hs
    exact h

theorem Inv.neighbour (h : Inv s) (hs : s.neighbour = some s') : Inv s' := by
  obtain ⟨-, rfl⟩ := touchClosed_eq_some.mp hs
  exact h

theorem Inv.stop (h : Inv s) (hs : s.stop = some s') : Inv s' := by
  obtain ⟨-, rfl⟩ := touchClosed_eq_some.mp hs
  split
  · exact h
  · exact ⟨h.self, h.reported, h.once, h.collected, h.calling, h.calls, h.sent⟩

theorem step_inv {s s' : MumbleThreadController C M} {e : Event C M} (h : Inv s)
    (hs : step s e = some s') : Inv s' := by
  cases e with
  | load ok => exact h.load hs
  | send message =>
      cases hs
      exact h.send message
  | ends =>
      cases hs
      exact h.ends
  | worker => exact h.workerStep hs
  | wakeFinish => exact h.wakeFinish hs
  | wakeMessage => exact h.wakeMessage hs
  | main => exact h.mainStep hs
  | onFinish callback =>
      cases hs
      exact h.onFinish callback
  | onMessage callback =>
      cases hs
      exact h.onMessage callback
  | drop =>
      cases hs
      exact h.drop
  | collect =>
      cases hs
      exact h.collect
  | free =>
      cases hs
      exact h.free
  | closing => exact h.closingPhase hs
  | neighbour => exact h.neighbour hs
  | stop => exact h.stop hs

/-- The memory is given back behind the finalizer only. -/
def Finalized (s : MumbleThreadController C M) : Prop := s.freed = true → s.collected = true

theorem touch_finalized (h : Finalized s) {next : MumbleThreadController C M}
    (hs : s.touch next = some s') (hfreed : next.freed = s.freed)
    (hcollected : next.collected = s.collected) : Finalized s' := by
  obtain ⟨-, rfl⟩ := touch_eq_some.mp hs
  unfold Finalized
  rwa [hfreed, hcollected]

theorem step_finalized {s s' : MumbleThreadController C M} {e : Event C M} (h : Finalized s)
    (hs : step s e = some s') : Finalized s' := by
  cases e with
  | load ok =>
      simp only [step, MumbleThreadController.load] at hs
      split at hs
      · exact touch_finalized h hs rfl rfl
      · cases hs
        exact h
  | send message =>
      cases hs
      unfold MumbleThreadController.send
      split <;> exact h
  | ends =>
      cases hs
      unfold MumbleThreadController.ends
      split <;> exact h
  | worker =>
      simp only [step, MumbleThreadController.workerStep] at hs
      split at hs
      · exact touch_finalized h hs rfl rfl
      · exact touch_finalized h hs rfl rfl
      · exact touch_finalized h hs rfl rfl
      · cases hs
        exact h
  | wakeFinish =>
      simp only [step, MumbleThreadController.wakeFinish] at hs
      split at hs
      · refine touch_finalized h hs ?_ ?_
        · split <;> rfl
        · split <;> rfl
      · cases hs
        exact h
  | wakeMessage =>
      simp only [step, MumbleThreadController.wakeMessage] at hs
      split at hs
      · exact touch_finalized h hs rfl rfl
      · cases hs
        exact h
  | main =>
      simp only [step, MumbleThreadController.mainStep] at hs
      split at hs
      · cases hs
        exact h
      · exact touch_finalized h hs rfl rfl
      · refine touch_finalized h hs ?_ ?_
        · split <;> rfl
        · split <;> rfl
      · exact touch_finalized h hs rfl rfl
      · exact touch_finalized h hs rfl rfl
  | onFinish callback =>
      cases hs
      unfold MumbleThreadController.onFinish
      split <;> exact h
  | onMessage callback =>
      cases hs
      unfold MumbleThreadController.onMessage
      split <;> exact h
  | drop =>
      cases hs
      unfold MumbleThreadController.drop
      split <;> exact h
  | collect =>
      cases hs
      unfold MumbleThreadController.collect
      split
      · exact h
      · exact fun _ => rfl
  | free =>
      cases hs
      unfold MumbleThreadController.free
      split
      · rename_i hcollected
        exact fun _ => hcollected
      · exact h
  | closing =>
      simp only [step, MumbleThreadController.closingPhase] at hs
      split at hs
      · obtain ⟨-, rfl⟩ := touchClosed_eq_some.mp hs
        exact h
      · cases hs
        exact h
  | neighbour =>
      obtain ⟨-, rfl⟩ := touchClosed_eq_some.mp hs
      exact h
  | stop =>
      obtain ⟨-, rfl⟩ := touchClosed_eq_some.mp hs
      split <;> exact h

/-- Until the worker thread has reported its end, and that was handled, the controller is there. -/
theorem Inv.alive (h : Inv s)
    (hneeded : (!s.worker.Reported || s.asyncFinish || s.main.Finishing) = true) :
    s.collected = false := by
  cases hcollected : s.collected with
  | false => rfl
  | true =>
      rw [← h.self, (h.collected hcollected).1] at hneeded
      cases hneeded

theorem touch_of_alive (halive : s.collected = false) (next : MumbleThreadController C M) :
    s.touch next ≠ none := by
  rw [Ne, touch_eq_none, halive]
  simp

theorem Inv.workerStep_eq_none (h : Inv s) : s.workerStep = none ↔ s.Late .worker := by
  unfold MumbleThreadController.workerStep
  cases hworker : s.worker with
  | pushing closing message =>
      cases closing with
      | true => simp [touch_eq_none, Late, hworker, WorkerStage.Reported]
      | false =>
          refine iff_of_false (touch_of_alive (h.alive (by rw [hworker]; rfl)) _) ?_
          simp [Late, hworker]
  | signalling closing =>
      cases closing with
      | true => simp [touch_eq_none, Late, hworker, WorkerStage.Reported]
      | false =>
          refine iff_of_false (touch_of_alive (h.alive (by rw [hworker]; rfl)) _) ?_
          simp [Late, hworker]
  | reporting loaded =>
      refine iff_of_false (touch_of_alive (h.alive (by rw [hworker]; rfl)) _) ?_
      simp [Late, hworker]
  | _ => simp [Late, hworker]

theorem Inv.mainStep_eq_none (h : Inv s) : s.mainStep = none ↔ s.Late .main := by
  unfold MumbleThreadController.mainStep
  cases hmain : s.main with
  | outside => simp [Late, hmain, MainStage.InScript]
  | finishing =>
      refine iff_of_false (touch_of_alive (h.alive (by simp [hmain, MainStage.Finishing])) _) ?_
      simp [Late, hmain, MainStage.Finishing]
  | _ => simp [touch_eq_none, Late, hmain, MainStage.InScript, MainStage.Finishing]

/-- The loop does not run a handler of a closed handle. -/
theorem Inv.wakeFinish_ne_none (h : Inv s) : s.wakeFinish ≠ none := by
  unfold MumbleThreadController.wakeFinish
  split
  · rename_i hawake
    obtain ⟨hasync, -⟩ := Bool.and_eq_true_iff.mp hawake
    exact touch_of_alive (h.alive (by simp [hasync])) _
  · simp

theorem Inv.wakeMessage_ne_none (h : Inv s) : s.wakeMessage ≠ none := by
  unfold MumbleThreadController.wakeMessage
  split
  · rename_i hawake
    obtain ⟨hasync, -⟩ := Bool.and_eq_true_iff.mp hawake
    rw [Ne, touch_eq_none]
    intro hcollected
    rw [(h.collected hcollected).2.2.1] at hasync
    cases hasync
  · simp

theorem Inv.load_ne_none (h : Inv s) (ok : Bool) : s.load ok ≠ none := by
  unfold MumbleThreadController.load
  split
  · rename_i hworker
    exact touch_of_alive (h.alive (by rw [hworker]; rfl)) _
  · simp

theorem closingPhase_eq_none : s.closingPhase = none ↔ s.Late .closing := by
  unfold MumbleThreadController.closingPhase
  cases hmain : s.main with
  | outside => simp [touchClosed_eq_none, Late, hmain, MainStage.Outside]
  | _ => simp [Late, hmain, MainStage.Outside]

theorem step_eq_none_iff {s : MumbleThreadController C M} {e : Event C M} (h : Inv s) :
    step s e = none ↔ s.Late e := by
  cases e with
  | load ok => exact iff_of_false (h.load_ne_none ok) id
  | worker => exact h.workerStep_eq_none
  | wakeFinish => exact iff_of_false h.wakeFinish_ne_none id
  | wakeMessage => exact iff_of_false h.wakeMessage_ne_none id
  | main => exact h.mainStep_eq_none
  | closing => exact closingPhase_eq_none
  | neighbour => exact touchClosed_eq_none
  | stop => exact touchClosed_eq_none
  | _ => simp [step, Late]

end MumbleThreadController

open LuaMumble.Thread.Ending.MumbleThreadController

end LuaMumble.Thread.Ending
