import LuaMumble.Lib.Machine

/-!
The worker object of a thread against the sends of its controller. The object is a userdata of
the Lua state of the worker thread, which publishes it in `controller->worker` and closes its
state when it is done; the pointer stays. `thread_controller_send` reads the pointer with the
mutex of the controller and uses it with the mutex in the object. A step is what a thread does
between two points where the other may come in between; a step that uses the object of a closed
state has no result.
-/

namespace LuaMumble.Thread.Lifetime

open Lib

inductive Party where
  | main
  | worker
  deriving DecidableEq

/-- Where the worker thread is in `mumble_thread_worker_start`. `handling` is the part of
`mumble_thread_worker_message` that holds the mutex; `failed` and `ended` are of a thread whose
file or bytecode was not loaded. -/
inductive WorkerStage where
  | starting
  | failed
  | ended
  | running
  | handling
  | finishing
  | marking
  | closing
  | closed
  deriving DecidableEq

/-- Where the main thread is: in `thread_controller_send`, with a string or buffer or with an
argument of another type, in `thread_controller_join`, or elsewhere. -/
inductive MainStage where
  | outside
  | waiting (valid : Bool)
  | locking
  | pushing
  | unlocking
  | signalling
  | joining

/-- `worker` tells if `controller->worker` is not NULL, and `mutex` who holds `worker->mutex`. -/
structure MumbleThread where
  started : Bool
  worker : Bool
  finished : Bool
  mutex : Option Party
  thread : WorkerStage
  main : MainStage

/-- `mumble_thread_new`, which leaves `controller->worker` as it finds it. -/
def mumbleThreadNew (worker : Bool) : MumbleThread :=
  { started := false
    worker := worker
    finished := false
    mutex := none
    thread := .starting
    main := .outside }

/-- What happens next. The worker thread loads its function, is woken up by a message, comes
back from its function, or takes the one step that it can. A script calls `send` or `join`, or
`onMessage` or `onFinish`, which touch nothing but the callbacks of the controller; or the main
thread takes a step. -/
inductive Event where
  | load (ok : Bool)
  | handle
  | finish
  | worker
  | send (valid : Bool)
  | join
  | onMessage
  | onFinish
  | main

/-- The object exists. -/
def WorkerStage.Alive : WorkerStage → Bool
  | .running | .handling | .finishing | .marking | .closing => true
  | _ => false

/-- The object exists, or has existed. -/
def WorkerStage.Published (stage : WorkerStage) : Bool := stage.Alive || stage == .closed

namespace MumbleThread

variable (s : MumbleThread)

/-- A step of the worker thread that has no choice. -/
def workerStep : MumbleThread :=
  match s.thread with
  | .failed => { s with thread := .ended }
  | .handling => { s with mutex := none, thread := .running }
  | .finishing =>
      match s.mutex with
      | none => { s with mutex := some .worker, thread := .marking }
      | some _ => s
  | .marking => { s with mutex := none, finished := true, thread := .closing }
  | .closing => { s with thread := .closed }
  | _ => s

/-- The worker thread publishes its object, or that it has none. -/
def load (ok : Bool) : MumbleThread :=
  match s.thread with
  | .starting =>
      { s with worker := ok, started := true, thread := if ok then .running else .failed }
  | _ => s

def handle : MumbleThread :=
  match s.thread, s.mutex with
  | .running, none => { s with mutex := some .worker, thread := .handling }
  | _, _ => s

def finish : MumbleThread :=
  match s.thread with
  | .running => { s with thread := .finishing }
  | _ => s

/-- The main thread calls a function. -/
def call (stage : MainStage) : MumbleThread :=
  match s.main with
  | .outside => { s with main := stage }
  | _ => s

/-- A use of the object. -/
def touch (next : MumbleThread) : Option MumbleThread :=
  if s.thread.Alive then some next else none

/-- A step of the main thread in `thread_controller_send` or `thread_controller_join`. -/
def mainStep : Option MumbleThread :=
  match s.main with
  | .outside => some s
  | .waiting valid =>
      if s.started then
        if s.worker && valid then some { s with main := .locking }
        else some { s with main := .outside }
      else some s
  | .locking =>
      s.touch (if s.mutex.isNone then { s with mutex := some .main, main := .pushing } else s)
  | .pushing => s.touch { s with main := .unlocking }
  | .unlocking => s.touch { s with mutex := none, main := .signalling }
  | .signalling => s.touch { s with main := .outside }
  | .joining =>
      if s.started && (s.thread == .closed || s.thread == .ended) then
        some { s with main := .outside }
      else some s

end MumbleThread

def step (s : Option MumbleThread) (e : Event) : Unit × Option MumbleThread :=
  ((), s.bind fun s =>
    match e with
    | .load ok => some (s.load ok)
    | .handle => some s.handle
    | .finish => some s.finish
    | .worker => some s.workerStep
    | .send valid => some (s.call (.waiting valid))
    | .join => some (s.call .joining)
    | .onMessage => some s
    | .onFinish => some s
    | .main => s.mainStep)

/-- No closed state was used, and none is by however many steps of the main thread. -/
def StaysAlive (s : Option MumbleThread) : Prop :=
  ∀ steps, (Machine.final step s (List.replicate steps .main)).isSome = true

/-- Where the pointer was read and is used. -/
def MainStage.Using : MainStage → Bool
  | .locking | .pushing | .unlocking | .signalling => true
  | _ => false

/-- In a `send` that is going to use the object. -/
def MainStage.Sending : MainStage → Bool
  | .waiting valid => valid
  | .locking | .pushing | .unlocking | .signalling => true
  | _ => false

/-- A `send` of a string or buffer begins and ends before the state of the worker is closed. -/
def BeforeClose (s : Option MumbleThread) : Event → Prop
  | .send true => ∀ t, s = some t → t.main = .outside → t.thread ≠ .closed
  | .worker => ∀ t, s = some t → t.thread = .closing → t.main.Sending = false
  | _ => True

namespace MumbleThread

variable {s : MumbleThread}

/-- What the members of the controller tell of the worker thread. -/
structure Inv (s : MumbleThread) : Prop where
  started : s.started = (s.thread != .starting)
  worker : s.thread ≠ .starting → s.worker = s.thread.Published
  uses : s.main.Using = true → s.thread.Published = true

/-- No use of a closed state is ahead. -/
def Safe (s : MumbleThread) : Prop := s.main.Sending = true → s.thread ≠ .closed

theorem inv_new (worker : Bool) : Inv (mumbleThreadNew worker) := by
  refine ⟨rfl, ?_, ?_⟩
  · intro hstarted
    exact absurd rfl hstarted
  · intro huses
    cases huses

/-- A step of the worker thread after the start that keeps what is published. -/
theorem Inv.of_thread (h : Inv s) {s' : MumbleThread} (hstarted : s'.started = s.started)
    (hworker : s'.worker = s.worker) (hmain : s'.main = s.main) (hbefore : s.thread ≠ .starting)
    (hafter : s'.thread ≠ .starting) (hpublished : s'.thread.Published = s.thread.Published) :
    Inv s' := by
  refine ⟨?_, ?_, ?_⟩
  · rw [hstarted, h.started, bne_iff_ne.mpr hbefore, bne_iff_ne.mpr hafter]
  · intro _
    rw [hworker, hpublished]
    exact h.worker hbefore
  · rw [hmain, hpublished]
    exact h.uses

theorem Inv.workerStep (h : Inv s) : Inv s.workerStep := by
  unfold MumbleThread.workerStep
  cases hthread : s.thread with
  | failed => exact h.of_thread rfl rfl rfl (by simp [hthread]) (by simp) (by rw [hthread]; rfl)
  | handling => exact h.of_thread rfl rfl rfl (by simp [hthread]) (by simp) (by rw [hthread]; rfl)
  | finishing =>
      cases hmutex : s.mutex with
      | none => exact h.of_thread rfl rfl rfl (by simp [hthread]) (by simp) (by rw [hthread]; rfl)
      | some party => exact h
  | marking => exact h.of_thread rfl rfl rfl (by simp [hthread]) (by simp) (by rw [hthread]; rfl)
  | closing => exact h.of_thread rfl rfl rfl (by simp [hthread]) (by simp) (by rw [hthread]; rfl)
  | _ => exact h

theorem Inv.load (h : Inv s) (ok : Bool) : Inv (s.load ok) := by
  unfold MumbleThread.load
  cases hthread : s.thread with
  | starting =>
      have huses := h.uses
      rw [hthread] at huses
      cases ok with
      | true => exact ⟨rfl, fun _ => rfl, fun _ => rfl⟩
      | false => exact ⟨rfl, fun _ => rfl, huses⟩
  | _ => exact h

theorem Inv.handle (h : Inv s) : Inv s.handle := by
  unfold MumbleThread.handle
  split
  · rename_i hthread _
    exact h.of_thread rfl rfl rfl (by simp [hthread]) (by simp) (by rw [hthread]; rfl)
  · exact h

theorem Inv.finish (h : Inv s) : Inv s.finish := by
  unfold MumbleThread.finish
  split
  · rename_i hthread
    exact h.of_thread rfl rfl rfl (by simp [hthread]) (by simp) (by rw [hthread]; rfl)
  · exact h

theorem Inv.call (h : Inv s) {stage : MainStage} (hstage : stage.Using = false) :
    Inv (s.call stage) := by
  unfold MumbleThread.call
  split
  · refine ⟨h.started, h.worker, ?_⟩
    intro huses
    rw [hstage] at huses
    cases huses
  · exact h

/-- The main thread goes on without a use of the object. -/
theorem Inv.of_main (h : Inv s) {stage : MainStage}
    (huses : stage.Using = true → s.thread.Published = true) : Inv { s with main := stage } :=
  ⟨h.started, h.worker, huses⟩

/-- Where no use of a closed state is ahead, a use finds the object. -/
theorem Inv.touch (h : Inv s) (hsafe : s.Safe) (huses : s.main.Using = true) (next : MumbleThread) :
    s.touch next = some next := by
  have hopen : s.thread ≠ .closed := by
    apply hsafe
    cases hmain : s.main <;> rw [hmain] at huses <;> first | rfl | cases huses
  have halive : s.thread.Alive = true := by
    have hpublished := h.uses huses
    rw [WorkerStage.Published, Bool.or_eq_true] at hpublished
    rcases hpublished with halive | hclosed
    · exact halive
    · exact absurd (by simpa using hclosed) hopen
  rw [MumbleThread.touch, if_pos halive]

/-- A step of the main thread from where no use of a closed state is ahead. -/
theorem Inv.mainStep (h : Inv s) (hsafe : s.Safe) :
    ∃ s', s.mainStep = some s' ∧ Inv s' ∧ s'.Safe := by
  have huses := h.uses
  have hopen := hsafe
  unfold MumbleThread.Safe at hopen
  cases hmain : s.main with
  | outside => exact ⟨s, by simp only [MumbleThread.mainStep, hmain], h, hsafe⟩
  | waiting valid =>
      rw [hmain] at hopen
      simp only [MumbleThread.mainStep, hmain]
      split
      · rename_i hstarted
        split
        · rename_i hboth
          rw [Bool.and_eq_true] at hboth
          have hthread : s.thread ≠ .starting := by
            have hne := h.started
            rw [hstarted] at hne
            exact bne_iff_ne.mp hne.symm
          refine ⟨_, rfl, h.of_main ?_, ?_⟩
          · intro _
            rw [← h.worker hthread]
            exact hboth.1
          · intro _
            exact hopen hboth.2
        · exact ⟨_, rfl, h.of_main (by simp [MainStage.Using]), by simp [Safe, MainStage.Sending]⟩
      · exact ⟨s, rfl, h, hsafe⟩
  | locking =>
      rw [hmain] at huses hopen
      simp only [MumbleThread.mainStep, hmain]
      rw [h.touch hsafe (by rw [hmain]; rfl)]
      split
      · exact ⟨_, rfl, ⟨h.started, h.worker, huses⟩, hopen⟩
      · exact ⟨s, rfl, h, hsafe⟩
  | pushing =>
      rw [hmain] at huses hopen
      simp only [MumbleThread.mainStep, hmain]
      rw [h.touch hsafe (by rw [hmain]; rfl)]
      exact ⟨_, rfl, h.of_main huses, hopen⟩
  | unlocking =>
      rw [hmain] at huses hopen
      simp only [MumbleThread.mainStep, hmain]
      rw [h.touch hsafe (by rw [hmain]; rfl)]
      exact ⟨_, rfl, ⟨h.started, h.worker, huses⟩, hopen⟩
  | signalling =>
      simp only [MumbleThread.mainStep, hmain]
      rw [h.touch hsafe (by rw [hmain]; rfl)]
      exact ⟨_, rfl, h.of_main (by simp [MainStage.Using]), by simp [Safe, MainStage.Sending]⟩
  | joining =>
      simp only [MumbleThread.mainStep, hmain]
      split
      · exact ⟨_, rfl, h.of_main (by simp [MainStage.Using]), by simp [Safe, MainStage.Sending]⟩
      · exact ⟨s, rfl, h, hsafe⟩

/-- Two steps of the main thread in a `send` use a closed state. -/
theorem Inv.use_after_close (h : Inv s) (hsending : s.main.Sending = true)
    (hclosed : s.thread = .closed) :
    Machine.final step (some s) [.main, .main] = none := by
  have hdead : ∀ next, s.touch next = none := by
    intro next
    rw [MumbleThread.touch, hclosed]
    rfl
  have hworker : s.worker = true := by
    rw [h.worker (by simp [hclosed]), hclosed]
    rfl
  have hstarted : s.started = true := by
    rw [h.started, hclosed]
    rfl
  have hcrash (hstep : s.mainStep = none) : Machine.final step (some s) [.main, .main] = none := by
    simp only [Machine.final, step, Option.bind_some, hstep, Option.bind_none]
  cases hmain : s.main with
  | waiting valid =>
      rw [hmain] at hsending
      cases hsending
      simp only [Machine.final, step, Option.bind_some, MumbleThread.mainStep, hmain, hstarted,
        hworker, Bool.and_self, if_true, MumbleThread.touch, hclosed]
      rfl
  | locking =>
      apply hcrash
      simp only [MumbleThread.mainStep, hmain, hdead]
  | pushing =>
      apply hcrash
      simp only [MumbleThread.mainStep, hmain, hdead]
  | unlocking =>
      apply hcrash
      simp only [MumbleThread.mainStep, hmain, hdead]
  | signalling =>
      apply hcrash
      simp only [MumbleThread.mainStep, hmain, hdead]
  | outside =>
      rw [hmain] at hsending
      cases hsending
  | joining =>
      rw [hmain] at hsending
      cases hsending

theorem Inv.staysAlive_iff (h : Inv s) : StaysAlive (some s) ↔ s.Safe := by
  constructor
  · intro hstays hsending hclosed
    have hsome := hstays 2
    change (Machine.final step (some s) [.main, .main]).isSome = true at hsome
    rw [h.use_after_close hsending hclosed] at hsome
    cases hsome
  · intro hsafe steps
    induction steps generalizing s with
    | zero => rfl
    | succ steps ih =>
        obtain ⟨s', hs', h', hsafe'⟩ := h.mainStep hsafe
        have hnext : (step (some s) .main).2 = some s' := hs'
        rw [List.replicate_succ, Machine.final, hnext]
        exact ih h' hsafe'

theorem safe_of_open (hopen : s.thread ≠ .closed) : s.Safe := fun _ => hopen

theorem Safe.load (h : s.Safe) (ok : Bool) : (s.load ok).Safe := by
  unfold MumbleThread.load
  split
  · apply safe_of_open
    cases ok <;> simp
  · exact h

theorem Safe.handle (h : s.Safe) : s.handle.Safe := by
  unfold MumbleThread.handle
  split
  · exact safe_of_open (by simp)
  · exact h

theorem Safe.finish (h : s.Safe) : s.finish.Safe := by
  unfold MumbleThread.finish
  split
  · exact safe_of_open (by simp)
  · exact h

/-- The worker thread closes its state in one of its steps. -/
theorem Safe.workerStep_iff (h : s.Safe) :
    s.workerStep.Safe ↔ (s.thread = .closing → s.main.Sending = false) := by
  unfold MumbleThread.workerStep
  cases hthread : s.thread with
  | closing => simp [Safe]
  | finishing =>
      refine iff_of_true ?_ (by simp)
      cases hmutex : s.mutex with
      | none => exact safe_of_open (by simp)
      | some party => exact h
  | failed => exact iff_of_true (safe_of_open (by simp)) (by simp)
  | handling => exact iff_of_true (safe_of_open (by simp)) (by simp)
  | marking => exact iff_of_true (safe_of_open (by simp)) (by simp)
  | _ => exact iff_of_true h (by simp)

/-- A call of `send` is safe where the state is not closed, or its argument refused. -/
theorem Safe.call_iff (h : s.Safe) (stage : MainStage) :
    (s.call stage).Safe ↔
      (s.main = .outside → stage.Sending = true → s.thread ≠ .closed) := by
  unfold MumbleThread.call
  cases hmain : s.main with
  | outside => simp [Safe]
  | _ => exact iff_of_true h (by simp)

/-- One event. -/
theorem Inv.step (h : Inv s) (hsafe : s.Safe) (e : Event) :
    ∃ s', (Lifetime.step (some s) e).2 = some s' ∧ Inv s' ∧
      (s'.Safe ↔ BeforeClose (some s) e) := by
  cases e with
  | load ok => exact ⟨_, rfl, h.load ok, iff_of_true (hsafe.load ok) trivial⟩
  | handle => exact ⟨_, rfl, h.handle, iff_of_true hsafe.handle trivial⟩
  | finish => exact ⟨_, rfl, h.finish, iff_of_true hsafe.finish trivial⟩
  | worker =>
      refine ⟨_, rfl, h.workerStep, hsafe.workerStep_iff.trans ?_⟩
      simp [BeforeClose]
  | send valid =>
      refine ⟨_, rfl, h.call rfl, (hsafe.call_iff _).trans ?_⟩
      cases valid with
      | true => simp [BeforeClose, MainStage.Sending]
      | false => simp [BeforeClose, MainStage.Sending]
  | join =>
      refine ⟨_, rfl, h.call rfl, iff_of_true ((hsafe.call_iff _).mpr ?_) trivial⟩
      intro _ hsending
      cases hsending
  | onMessage => exact ⟨s, rfl, h, iff_of_true hsafe trivial⟩
  | onFinish => exact ⟨s, rfl, h, iff_of_true hsafe trivial⟩
  | main =>
      obtain ⟨s', hs', h', hsafe'⟩ := h.mainStep hsafe
      exact ⟨s', hs', h', iff_of_true hsafe' trivial⟩

end MumbleThread

/-- For every interleaving of the two threads: no use of a closed state, now or in further
steps of the main thread, just when every `send` of a string or buffer is over before the state
is closed. -/
theorem uses_open_worker_iff (garbage : Bool) (events : List Event) :
    (∀ n ≤ events.length,
        StaysAlive (Machine.final step (some (mumbleThreadNew garbage)) (events.take n))) ↔
      Machine.Along step BeforeClose (some (mumbleThreadNew garbage)) events := by
  refine Machine.holds_along_iff_of_invariant step
    (fun s => ∀ t, s = some t → MumbleThread.Inv t) StaysAlive ?_ ?_ _ events ?_ ?_
  · intro s e hinv hstays
    cases s with
    | none => exact absurd (hstays 0) (by simp [Machine.final])
    | some t =>
        have h := hinv t rfl
        obtain ⟨t', ht', h', -⟩ := h.step (h.staysAlive_iff.mp hstays) e
        intro u hu
        rw [ht'] at hu
        cases hu
        exact h'
  · intro s e hinv hstays
    cases s with
    | none => exact absurd (hstays 0) (by simp [Machine.final])
    | some t =>
        have h := hinv t rfl
        obtain ⟨t', ht', h', hsafe⟩ := h.step (h.staysAlive_iff.mp hstays) e
        rw [ht', h'.staysAlive_iff]
        exact hsafe
  · intro t ht
    cases ht
    exact MumbleThread.inv_new garbage
  · rw [(MumbleThread.inv_new garbage).staysAlive_iff]
    exact MumbleThread.safe_of_open (by simp [mumbleThreadNew])

/-- A `send` behind `join` uses the object that the worker thread has destroyed. -/
theorem send_after_join :
    ¬ ∀ (garbage : Bool) (events : List Event),
      (Machine.final step (some (mumbleThreadNew garbage)) events).isSome = true := by
  intro h
  have hsome := h false
    [.load true, .finish, .worker, .worker, .worker, .join, .main, .send true, .main, .main]
  exact absurd hsome (by decide)

end LuaMumble.Thread.Lifetime
