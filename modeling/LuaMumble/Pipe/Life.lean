import LuaMumble.Pipe.State

/-!
The life of a pipe in a few phases, without its handles and references: what is to be kept in mind
by whoever writes a script with pipes. A pipe that is read goes through closing and opening again
each time its data ends. A script that closes it in between has a pipe that is opened again
nevertheless, and read with nothing to call. Where the loop is stopped, the handle of a pipe that is
read is closed without a word to the pipe.
-/

namespace LuaMumble.Pipe

open Lib

inductive Phase where
  | reading
  /-- its data ended, and it is going to be opened again -/
  | ended
  /-- closed by the script after its data ended, and going to be opened again -/
  | abandoned
  /-- opened again after it was closed -/
  | stray
  | closing
  | closed
  /-- its handle was closed as the loop was stopped -/
  | halted
  /-- let go of with a handle that is closed and never given back: it could not be opened again, or
  the loop was stopped -/
  | broken
  deriving DecidableEq

/-- `delivered` is the data that came while there was something to call with it. -/
structure Life where
  phase : Phase
  script : Bool
  collected : Bool
  delivered : List (List UInt8)
  deriving DecidableEq

def Life.start : Life := ⟨.reading, true, false, []⟩

/-- What happens to a pipe, whichever of its handles it comes from. -/
inductive Incident where
  | read (report : Report)
  | closed (reopening : Reopening)
  | close
  | drop
  | collect
  | stop

def Event.incident : Event → Incident
  | .read _ report => .read report
  | .closed _ reopening => .closed reopening
  | .close => .close
  | .drop => .drop
  | .collect => .collect
  | .stop => .stop

/-- The phase after the attempt to open a pipe again, unless that goes wrong. -/
def Reopening.phase (done : Phase) : Reopening → Option Phase
  | .noMemory | .notReading => some .broken
  | .noFile | .notAssociated => none
  | .done => some done

/-- The phase after the script has closed a pipe, which it must not do when it is closed. -/
def Phase.close : Phase → Option Phase
  | .reading | .stray => some .closing
  | .ended => some .abandoned
  | .halted => some .broken
  | .closed => none
  | phase => some phase

/-- The phase after the loop is done with the handle of a pipe. -/
def Phase.finish : Phase → Reopening → Option Phase
  | .ended, reopening => reopening.phase .reading
  | .abandoned, reopening => reopening.phase .stray
  | .closing, _ => some .closed
  | phase, _ => some phase

/-- The phase after the loop was stopped, which closes what is read. -/
def Phase.stop : Phase → Phase
  | .reading => .halted
  | .stray => .broken
  | phase => phase

/-- A report from a pipe that is read. An error closes it. -/
def Life.read (life : Life) : Report → Option Life
  | .data bytes =>
      some (if life.phase = .stray then life
        else { life with delivered := life.delivered ++ [bytes] })
  | .eof => some { life with phase := if life.phase = .stray then .abandoned else .ended }
  | .error => life.phase.close.map fun phase => { life with phase := phase }

/-- Where the program would go wrong there is no next life: a report or a close callback for a
pipe that was collected, a failure to open it again, and a script that closes a pipe when it is
closed already. -/
def Life.step (life : Life) : Incident → Option Life
  | .read report => if life.collected then none else life.read report
  | .closed reopening =>
      if life.collected then none
      else (life.phase.finish reopening).map fun phase => { life with phase := phase }
  | .close => life.phase.close.map fun phase => { life with phase := phase }
  | .drop => some { life with script := false }
  | .collect => some { life with collected := true }
  | .stop => some { life with phase := life.phase.stop }

def Life.run : Life → List Incident → Option Life
  | life, [] => some life
  | life, incident :: incidents => (life.step incident).bind fun life => life.run incidents

section Simulation

/-- The handle of a pipe in a phase, if its memory is still there. -/
def Phase.handle : Phase → Option Handle
  | .reading | .stray => some .reading
  | .ended | .abandoned => some (.closing .reopen)
  | .closing => some (.closing .close)
  | .closed => none
  | .halted | .broken => some .closed

/-- The registry has the pipe and its callback. -/
def Phase.referenced : Phase → Bool
  | .reading | .ended | .halted => true
  | _ => false

def Phase.lpipe (phase : Phase) (h : Nat) (callback : Option Value) : MumblePipe :=
  if phase.referenced then ⟨h, true, callback⟩ else ⟨h, false, none⟩

/-- The calls for some data: there are none where the callback is no function. -/
def callsFor (callback : Option Value) (delivered : List (List UInt8)) : List (Nat × List UInt8) :=
  match callback with
  | some (.function f) => delivered.map fun bytes => (f, bytes)
  | _ => []

/-- A handle that could not be read, which is closed as the loop is stopped. -/
def Handle.Unread (handle : Handle) : Prop := handle = .idle ∨ handle = .closed

/-- The state of the program in a life of the pipe with the handle `h`. The only other handle in
memory is one that could not be read. -/
structure Follows (callback : Option Value) (h : Nat) (s : State) (life : Life) : Prop where
  made : h < s.next
  lpipe : s.lpipe = if life.collected then none else some (life.phase.lpipe h callback)
  referenced : life.phase.referenced = true → life.collected = false
  held : life.script = true → life.collected = false
  handle : s.handles h = life.phase.handle
  other : ∀ h', h' ≠ h → s.handles h' = none ∨
    life.phase = .broken ∧ ∃ handle : Handle, handle.Unread ∧ s.handles h' = some handle
  script : s.script = life.script
  calls : s.calls = callsFor callback life.delivered

variable {callback : Option Value} {h : Nat} {s : State} {life : Life}

theorem Phase.lpipe_pipe (phase : Phase) : (phase.lpipe h callback).pipe = h := by
  unfold Phase.lpipe
  split <;> rfl

theorem Phase.lpipe_unreferenced {phase : Phase} (hphase : phase.referenced = false) :
    phase.lpipe h callback = ⟨h, false, none⟩ := by
  rw [Phase.lpipe, hphase]
  rfl

/-- The userdata after its references are given back. -/
theorem Phase.lpipe_closed (phase : Phase) :
    ({ phase.lpipe h callback with self := false, callback := none } : MumblePipe) =
      ⟨h, false, none⟩ := by
  simp only [Phase.lpipe_pipe]

namespace Follows

theorem data (hfollows : Follows callback h s life) :
    s.data = if life.collected then .error .freedMemory
      else .ok (life.phase.lpipe h callback) := by
  rw [State.data, hfollows.lpipe]
  cases life.collected <;> rfl

/-- A handle that the loop knows of is the one of the pipe. -/
theorem unique (hfollows : Follows callback h s life) {h' : Nat} {handle : Handle}
    (hhandle : s.handles h' = some handle) (hread : ¬ handle.Unread) : h' = h := by
  by_contra hne
  rcases hfollows.other h' hne with hnone | ⟨-, other, hunread, hother⟩
  · rw [hnone] at hhandle
    cases hhandle
  · rw [hother] at hhandle
    obtain rfl := Option.some.inj hhandle
    exact hread hunread

/-- The same handle in another state, with the pipe in another phase. -/
theorem change (hfollows : Follows callback h s life) (phase : Phase)
    (hlive : life.collected = false) (hbroken : life.phase ≠ .broken) :
    Follows callback h
      { s.setHandle h phase.handle with lpipe := some (phase.lpipe h callback) }
      { life with phase := phase } where
  made := hfollows.made
  lpipe := by simp [hlive]
  referenced := fun _ => hlive
  held := hfollows.held
  handle := Function.update_self ..
  other := by
    intro h' hne
    rcases hfollows.other h' hne with hnone | ⟨hphase, -⟩
    · exact Or.inl (by simpa [State.setHandle, hne] using hnone)
    · exact absurd hphase hbroken
  script := hfollows.script
  calls := hfollows.calls

/-- The same where the references stay as they are. -/
theorem move (hfollows : Follows callback h s life) (phase : Phase)
    (hlive : life.collected = false) (hbroken : life.phase ≠ .broken)
    (hsame : phase.referenced = life.phase.referenced) :
    Follows callback h (s.setHandle h phase.handle) { life with phase := phase } := by
  have hlpipe : s.lpipe = some (phase.lpipe h callback) := by
    rw [hfollows.lpipe, hlive]
    simp only [Phase.lpipe, hsame]
    rfl
  have hchange := hfollows.change phase hlive hbroken
  rw [← hlpipe] at hchange
  exact hchange

theorem step_read (hfollows : Follows callback h s life) (h' : Nat) (report : Report) :
    step s (.read h' report) =
      if life.collected then .error .freedMemory
      else mumblePipeOnRead s (life.phase.lpipe h callback) report := by
  rw [step, hfollows.data]
  cases life.collected <;> rfl

theorem step_closed (hfollows : Follows callback h s life) {pending : CloseCallback}
    (hpending : s.handles h = some (.closing pending)) (reopening : Reopening) :
    step s (.closed h reopening) =
      if life.collected then .error .freedMemory
      else (s.setHandle h (some .closed)).callBack (life.phase.lpipe h callback) reopening
        pending := by
  have hdata : (s.setHandle h (some .closed)).data = s.data := rfl
  simp only [step, hpending, hdata, hfollows.data]
  cases life.collected <;> rfl

/-- The same handle, where only the references are given back. -/
theorem letGo (hfollows : Follows callback h s life) (phase : Phase)
    (hlive : life.collected = false) (hphase : phase.referenced = false)
    (hhandle : phase.handle = life.phase.handle)
    (hbroken : life.phase = .broken → phase = .broken) :
    Follows callback h { s with lpipe := some ⟨h, false, none⟩ } { life with phase := phase } where
  made := hfollows.made
  lpipe := by simp [hlive, Phase.lpipe_unreferenced hphase]
  referenced := fun _ => hlive
  held := hfollows.held
  handle := hfollows.handle.trans hhandle.symm
  other := fun h' hne => (hfollows.other h' hne).imp_right (And.imp_left hbroken)
  script := hfollows.script
  calls := hfollows.calls

end Follows

/-- A step of the program and one of the life agree: both go wrong, or neither does and the next
state follows the next life. -/
def Agrees (callback : Option Value) (result : Except Fault State) (next : Option Life) : Prop :=
  match result, next with
  | .ok s, some life => ∃ h, Follows callback h s life
  | .error _, none => True
  | _, _ => False

/-- What `mumble_pipe_close` does to a handle that is there. -/
theorem mumblePipeClose_open {lpipe : MumblePipe} {handle : Handle}
    (hhandle : s.handles lpipe.pipe = some handle) (hopen : handle.isClosing = false) :
    mumblePipeClose s lpipe = .ok { s.setHandle lpipe.pipe (some (.closing .close)) with
      lpipe := some { lpipe with self := false, callback := none } } := by
  simp only [mumblePipeClose, hhandle, State.uvClose, hopen]
  rfl

/-- On one that is being closed, or is closed, it gives back the references. -/
theorem mumblePipeClose_closing {lpipe : MumblePipe} {handle : Handle}
    (hhandle : s.handles lpipe.pipe = some handle) (hclosing : handle.isClosing = true) :
    mumblePipeClose s lpipe =
      .ok { s with lpipe := some { lpipe with self := false, callback := none } } := by
  simp only [mumblePipeClose, hhandle, hclosing]
  rfl

theorem close_agrees (hfollows : Follows callback h s life) (hlive : life.collected = false) :
    Agrees callback (mumblePipeClose s (life.phase.lpipe h callback))
      (life.phase.close.map fun phase => { life with phase := phase }) := by
  have hhandle : s.handles (life.phase.lpipe h callback).pipe = life.phase.handle := by
    rw [Phase.lpipe_pipe, hfollows.handle]
  cases hphase : life.phase with
  | reading | stray =>
      rw [hphase] at hhandle
      rw [mumblePipeClose_open hhandle rfl, Phase.lpipe_closed, Phase.lpipe_pipe]
      exact ⟨h, hfollows.change .closing hlive (by rw [hphase]; decide)⟩
  | ended =>
      rw [hphase] at hhandle
      rw [mumblePipeClose_closing hhandle rfl, Phase.lpipe_closed]
      exact ⟨h, hfollows.letGo .abandoned hlive rfl (by rw [hphase]; rfl)
        (by rw [hphase]; decide)⟩
  | halted =>
      rw [hphase] at hhandle
      rw [mumblePipeClose_closing hhandle rfl, Phase.lpipe_closed]
      exact ⟨h, hfollows.letGo .broken hlive rfl (by rw [hphase]; rfl) (by rw [hphase]; decide)⟩
  | abandoned | closing | broken =>
      rw [hphase] at hhandle
      rw [mumblePipeClose_closing hhandle rfl, Phase.lpipe_closed]
      exact ⟨h, hfollows.letGo _ hlive (by rfl) (by rw [hphase]) (by rw [hphase]; exact id)⟩
  | closed =>
      rw [hphase] at hhandle
      simp only [mumblePipeClose, hhandle]
      trivial

theorem callsFor_append (delivered : List (List UInt8)) (bytes : List UInt8) :
    callsFor callback (delivered ++ [bytes]) =
      callsFor callback delivered ++ callsFor callback [bytes] := by
  unfold callsFor
  split
  · rw [List.map_append]
  · rfl

/-- Data is given to the callback, if the registry still has it. -/
theorem data_agrees (hfollows : Follows callback h s life) (bytes : List UInt8)
    (hreading : life.phase = .reading ∨ life.phase = .stray) :
    Follows callback h (s.callCallback (life.phase.lpipe h callback) bytes)
      (if life.phase = .stray then life
        else { life with delivered := life.delivered ++ [bytes] }) := by
  rcases hreading with hphase | hphase
  · have hcalls : (s.callCallback (life.phase.lpipe h callback) bytes).calls =
        callsFor callback (life.delivered ++ [bytes]) := by
      rw [callsFor_append, ← hfollows.calls, hphase]
      simp only [State.callCallback, Phase.lpipe, Phase.referenced, if_true, callsFor]
      split <;> simp
    have hrest : s.callCallback (life.phase.lpipe h callback) bytes =
        { s with calls := (s.callCallback (life.phase.lpipe h callback) bytes).calls } := by
      unfold State.callCallback
      split <;> rfl
    rw [hrest, hcalls, if_neg (by rw [hphase]; decide)]
    exact ⟨hfollows.made, hfollows.lpipe, hfollows.referenced, hfollows.held, hfollows.handle,
      hfollows.other, hfollows.script, rfl⟩
  · rw [hphase, if_pos rfl]
    exact hfollows

theorem read_agrees (hfollows : Follows callback h s life) {h' : Nat} (report : Report)
    (henabled : s.handles h' = some .reading) :
    Agrees callback (step s (.read h' report)) (life.step (.read report)) := by
  obtain rfl := hfollows.unique henabled (by simp [Handle.Unread])
  have hreading : life.phase = .reading ∨ life.phase = .stray := by
    rw [hfollows.handle] at henabled
    cases hphase : life.phase <;> simp_all [Phase.handle]
  have hbroken : life.phase ≠ .broken := by
    rcases hreading with hphase | hphase <;> rw [hphase] <;> decide
  rw [hfollows.step_read, Life.step]
  cases hlive : life.collected with
  | true => trivial
  | false =>
      cases report with
      | data bytes => exact ⟨h', data_agrees hfollows bytes hreading⟩
      | error => exact close_agrees hfollows hlive
      | eof =>
          have hclose : mumblePipeOnRead s (life.phase.lpipe h' callback) .eof =
              .ok (s.setHandle h' (some (.closing .reopen))) := by
            rw [mumblePipeOnRead, Phase.lpipe_pipe, State.uvClose, henabled]
            rfl
          simp only [Bool.false_eq_true, if_false, hclose]
          rcases hreading with hphase | hphase
          · have hnext := hfollows.move .ended hlive hbroken (by rw [hphase]; rfl)
            exact ⟨h', by simpa [hphase, Phase.handle] using hnext⟩
          · have hnext := hfollows.move .abandoned hlive hbroken (by rw [hphase]; rfl)
            exact ⟨h', by simpa [hphase, Phase.handle] using hnext⟩

/-- What `mumble_pipe_reopen` makes of a pipe whose handle is closed, and the only one. -/
theorem reopen_agrees (hlive : life.collected = false) (hmade : h < s.next)
    (hself : s.handles h = some .closed) (hother : ∀ h', h' ≠ h → s.handles h' = none)
    (hscript : s.script = life.script) (hcalls : s.calls = callsFor callback life.delivered)
    (reopening : Reopening) (done : Phase) (hreading : done.handle = some .reading)
    (hsame : done.referenced = life.phase.referenced) :
    Agrees callback (mumblePipeReopen s (life.phase.lpipe h callback) reopening)
      ((reopening.phase done).map fun phase => { life with phase := phase }) := by
  have hnext : h ≠ s.next := Nat.ne_of_lt hmade
  have hpipe : (life.phase.lpipe h callback).pipe = h := life.phase.lpipe_pipe
  have hbroken : some ⟨h, false, none⟩ =
      if life.collected then none else some (Phase.broken.lpipe h callback) := by
    rw [hlive]
    rfl
  cases reopening with
  | noFile | notAssociated => trivial
  | noMemory =>
      rw [mumblePipeReopen, mumblePipeClose_closing (hpipe ▸ hself) rfl, Phase.lpipe_closed]
      exact ⟨h, hmade, hbroken, Bool.noConfusion, fun _ => hlive, hself,
        fun h' hne => Or.inl (hother h' hne), hscript, hcalls⟩
  | notReading =>
      -- Nothing refers to the new handle, and it stays in memory.
      have hkept : (s.newHandle .idle).handles h = some .closed := by
        rw [State.newHandle_of_ne _ _ hnext, hself]
      have hidle (h' : Nat) (hne : h' ≠ h) : (s.newHandle .idle).handles h' = none ∨
          Phase.broken = .broken ∧
            ∃ handle : Handle, handle.Unread ∧ (s.newHandle .idle).handles h' = some handle := by
        by_cases hnew : h' = s.next
        · rw [hnew]
          exact Or.inr ⟨rfl, .idle, Or.inl rfl, State.newHandle_self ..⟩
        · rw [State.newHandle_of_ne _ _ hnew]
          exact Or.inl (hother h' hne)
      rw [mumblePipeReopen, mumblePipeClose_closing (hpipe ▸ hkept) rfl, Phase.lpipe_closed]
      exact ⟨h, Nat.lt_succ_of_lt hmade, hbroken, Bool.noConfusion, fun _ => hlive, hkept, hidle,
        hscript, hcalls⟩
  | done =>
      have hlpipe : some { life.phase.lpipe h callback with pipe := s.next } =
          if life.collected then none else some (done.lpipe s.next callback) := by
        simp only [hlive, Phase.lpipe, hsame]
        split <;> rfl
      have hnew : ((s.newHandle .reading).setHandle h none).handles s.next = done.handle := by
        rw [State.setHandle_of_ne _ _ hnext.symm, State.newHandle_self, hreading]
      have hgone (h' : Nat) (hne : h' ≠ s.next) :
          ((s.newHandle .reading).setHandle h none).handles h' = none := by
        by_cases hold : h' = h
        · rw [hold, State.setHandle_self]
        · rw [State.setHandle_of_ne _ _ hold, State.newHandle_of_ne _ _ hne, hother h' hold]
      rw [mumblePipeReopen, hpipe, hself]
      exact ⟨s.next, Nat.lt_succ_self _, hlpipe, fun _ => hlive, fun _ => hlive, hnew,
        fun h' hne => Or.inl (hgone h' hne), hscript, hcalls⟩

theorem closed_agrees (hfollows : Follows callback h s life) {h' : Nat} (reopening : Reopening)
    (henabled : ∃ callback, s.handles h' = some (.closing callback)) :
    Agrees callback (step s (.closed h' reopening)) (life.step (.closed reopening)) := by
  obtain ⟨pending, hpending⟩ := henabled
  obtain rfl := hfollows.unique hpending (by simp [Handle.Unread])
  have hhandle := hfollows.handle.symm.trans hpending
  rw [hfollows.step_closed hpending, Life.step]
  cases hlive : life.collected with
  | true => trivial
  | false =>
      have hothers (hbroken : life.phase ≠ .broken) (h : Nat) (hne : h ≠ h') :
          (s.setHandle h' (some .closed)).handles h = none := by
        rw [State.setHandle_of_ne _ _ hne]
        rcases hfollows.other h hne with hnone | ⟨hphase, -⟩
        · exact hnone
        · exact absurd hphase hbroken
      have hreopened (done : Phase) (hbroken : life.phase ≠ .broken)
          (hreading : done.handle = some .reading)
          (hsame : done.referenced = life.phase.referenced) :=
        reopen_agrees (s := s.setHandle h' (some .closed)) hlive hfollows.made
          (State.setHandle_self ..) (hothers hbroken) hfollows.script hfollows.calls reopening done
          hreading hsame
      cases hphase : life.phase with
      | reading | stray | closed | halted | broken =>
          rw [hphase] at hhandle
          cases hhandle
      | closing =>
          rw [hphase] at hhandle
          cases hhandle
          have hnone := hothers (by rw [hphase]; decide)
          have hlpipe := hfollows.lpipe
          rw [hlive, hphase] at hlpipe
          have hclose : mumblePipeCloseCb (s.setHandle h' (some .closed))
              (Phase.closing.lpipe h' callback) =
              .ok ((s.setHandle h' (some .closed)).setHandle h' none) := by
            simp only [mumblePipeCloseCb, Phase.lpipe_pipe, State.setHandle_self]
          simp only [Bool.false_eq_true, if_false, State.callBack, hclose, Phase.finish]
          refine ⟨h', hfollows.made, hlpipe, fun _ => rfl, fun _ => rfl, State.setHandle_self ..,
            ?_, hfollows.script, hfollows.calls⟩
          intro h hne
          rw [State.setHandle_of_ne _ _ hne]
          exact Or.inl (hnone h hne)
      | ended =>
          rw [hphase] at hhandle
          cases hhandle
          have hreopen := hreopened .reading (by rw [hphase]; decide) rfl (by rw [hphase]; rfl)
          rw [hphase, hlive] at hreopen
          exact hreopen
      | abandoned =>
          rw [hphase] at hhandle
          cases hhandle
          have hreopen := hreopened .stray (by rw [hphase]; decide) rfl (by rw [hphase]; rfl)
          rw [hphase, hlive] at hreopen
          exact hreopen

theorem Phase.stop_referenced (phase : Phase) : phase.stop.referenced = phase.referenced := by
  cases phase <;> rfl

theorem Phase.stop_handle (phase : Phase) :
    phase.handle.map Handle.stopThenClose = phase.stop.handle := by
  cases phase <;> rfl

theorem stop_follows (hfollows : Follows callback h s life) :
    Follows callback h { s with handles := fun h => (s.handles h).map Handle.stopThenClose }
      { life with phase := life.phase.stop } where
  made := hfollows.made
  lpipe := by
    rw [hfollows.lpipe]
    simp only [Phase.lpipe, Phase.stop_referenced]
  referenced := by
    rw [Phase.stop_referenced]
    exact hfollows.referenced
  held := hfollows.held
  handle := by
    dsimp only
    rw [hfollows.handle]
    exact life.phase.stop_handle
  other := by
    intro h' hne
    rcases hfollows.other h' hne with hnone | ⟨hbroken, handle, hunread, hother⟩
    · exact Or.inl (by simp only [hnone, Option.map_none])
    · refine Or.inr ⟨by rw [hbroken]; rfl, handle.stopThenClose, ?_, ?_⟩
      · rcases hunread with rfl | rfl
        · exact Or.inr rfl
        · exact Or.inr rfl
      · simp only [hother, Option.map_some]
  script := hfollows.script
  calls := hfollows.calls

theorem step_agrees (hfollows : Follows callback h s life) {e : Event} (henabled : Enabled s e) :
    Agrees callback (step s e) (life.step e.incident) := by
  cases e with
  | read h' report => exact read_agrees hfollows report henabled
  | closed h' reopening => exact closed_agrees hfollows reopening henabled
  | close =>
      have hlive := hfollows.held (hfollows.script.symm.trans henabled)
      rw [step, hfollows.data, hlive]
      exact close_agrees hfollows hlive
  | drop =>
      exact ⟨h, hfollows.made, hfollows.lpipe, hfollows.referenced, Bool.noConfusion,
        hfollows.handle, hfollows.other, rfl, hfollows.calls⟩
  | collect =>
      obtain ⟨hscript, lpipe, hlpipe, hunreferenced⟩ := henabled
      have hphase : life.phase.referenced = false := by
        rw [hfollows.lpipe] at hlpipe
        cases hcollected : life.collected with
        | true =>
            rw [hcollected] at hlpipe
            cases hlpipe
        | false =>
            rw [hcollected] at hlpipe
            obtain rfl := Option.some.inj hlpipe
            cases hreferenced : life.phase.referenced with
            | false => rfl
            | true =>
                rw [Phase.lpipe, hreferenced] at hunreferenced
                cases hunreferenced
      refine ⟨h, hfollows.made, rfl, ?_, ?_, hfollows.handle, hfollows.other, hfollows.script,
        hfollows.calls⟩
      · intro hreferenced
        rw [hphase] at hreferenced
        cases hreferenced
      · intro hheld
        rw [← hfollows.script, hscript] at hheld
        cases hheld
  | stop => exact ⟨h, stop_follows hfollows⟩

/-- A run of the program and the life of its pipe agree. By induction on the events. -/
theorem run_agrees (events : List Event) (hfollows : Follows callback h s life)
    (hproper : Proper s events) :
    Agrees callback (run s events) (life.run (events.map Event.incident)) := by
  induction events generalizing h s life with
  | nil => exact ⟨h, hfollows⟩
  | cons e events ih =>
      obtain ⟨henabled, hrest⟩ := hproper
      have hstep := step_agrees hfollows henabled
      rw [List.map_cons, run, Life.run]
      cases hresult : step s e with
      | error fault =>
          rw [hresult] at hstep
          cases hnext : life.step e.incident with
          | none => trivial
          | some life' =>
              rw [hnext] at hstep
              exact hstep.elim
      | ok s' =>
          rw [hresult] at hstep hrest
          cases hnext : life.step e.incident with
          | none =>
              rw [hnext] at hstep
              exact hstep.elim
          | some life' =>
              rw [hnext] at hstep
              obtain ⟨h', hfollows'⟩ := hstep
              exact ih hfollows' hrest

end Simulation

section Making

/-- What the third argument of `mumble.pipe` is, or what takes its place. -/
theorem third_argument (path callback : Value) (extra : List Value) :
    LuaStack.get (Value.pipe :: (path :: callback :: extra).reverse) 3 =
      some (extra.headD .pipe) := by
  have hget (above : List Value) (v : Value) := LuaStack.get_append above [callback, path] v
  cases extra with
  | nil => exact hget [] .pipe
  | cons v extra => simpa using hget (.pipe :: extra.reverse) v

theorem made_follows {path : String} {f : Nat} {extra : List Value} {system : System} {s : State}
    (hmade : mumblePipeNew (.string path :: .function f :: extra) system = .ok (.made s)) :
    Follows (reference (some (extra.headD .pipe))) 0 s .start := by
  have hinitial : s = .initial (reference (some (extra.headD .pipe))) := by
    simp only [mumblePipeNew, third_argument] at hmade
    repeat' split at hmade
    all_goals cases hmade
    rfl
  rw [hinitial]
  refine ⟨Nat.zero_lt_one, rfl, fun _ => rfl, fun _ => rfl, rfl, ?_, rfl, ?_⟩
  · intro h hne
    exact Or.inl (by simp only [State.initial, Function.update_of_ne hne])
  · unfold callsFor
    split <;> rfl

end Making

/-- Everything works. -/
def System.plain : System where
  mkfifo := .made
  file := .ok ()
  isFifo := true
  memory := .ok ()
  init := .ok ()
  associate := .ok ()

def reopenedEvents : List Event :=
  [.read 0 (.data [1, 2]), .read 0 .eof, .closed 0 .done, .read 1 (.data [3]), .close,
    .closed 1 .noFile, .drop, .collect]

end LuaMumble.Pipe
