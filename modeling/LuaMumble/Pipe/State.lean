import Mathlib.Logic.Function.Basic
import LuaMumble.Lib.LuaStack

/-!
The pipes of the Lua state: the userdata, the handles of libuv that it goes through, and the
references in `MUMBLE_PIPE_REG`. A handle that has come to its end is closed and replaced by a new
one on the same path. The loop keeps a list of its handles, from the call that initialises one to
the end of its closing.
-/

namespace LuaMumble.Pipe

open Lib

/-- A value, as `mumble_pipe_new` and `mumble_pipe_on_read` tell them apart. -/
inductive Value where
  | nil
  /-- a string, or a number, which is made one where it stands -/
  | string (s : String)
  | function (id : Nat)
  /-- the userdata that `mumble_pipe_new` makes -/
  | pipe
  | other (id : Nat)
  deriving DecidableEq

/-- The close callbacks `mumble_pipe_close_cb` and `mumble_pipe_reopen`. -/
inductive CloseCallback where
  | close
  | reopen
  deriving DecidableEq

/-- A `uv_pipe_t` in memory. -/
inductive Handle where
  | idle
  | reading
  | closing (callback : CloseCallback)
  /-- The loop is done with it, or has closed it without a callback. -/
  | closed
  deriving DecidableEq

/-- `uv_is_closing`, which holds from the call of `uv_close` on. -/
def Handle.isClosing : Handle → Bool
  | .closing _ | .closed => true
  | _ => false

/-- The path is left out. A reference to nil or to nothing is `none`. -/
structure MumblePipe where
  pipe : Nat
  self : Bool
  callback : Option Value
  deriving DecidableEq

/-- `lpipe` is the userdata as long as it is not collected, `script` tells whether the script holds
it, and `calls` are the functions called, with their data. -/
structure State where
  handles : Nat → Option Handle
  next : Nat
  lpipe : Option MumblePipe
  script : Bool
  calls : List (Nat × List UInt8)

/-- What the C program must not do. -/
inductive Fault where
  /-- it reads or frees memory that was given back -/
  | freedMemory
  /-- it closes a handle twice -/
  | closedTwice
  /-- it gives back the memory of a handle that the loop has in its list -/
  | listedHandle
  deriving DecidableEq

def State.setHandle (s : State) (h : Nat) (handle : Option Handle) : State :=
  { s with handles := Function.update s.handles h handle }

/-- The memory of a new handle, and `uv_pipe_init`. -/
def State.newHandle (s : State) (handle : Handle) : State :=
  { s.setHandle s.next (some handle) with next := s.next + 1 }

@[simp] theorem State.setHandle_self (s : State) (h : Nat) (handle : Option Handle) :
    (s.setHandle h handle).handles h = handle := Function.update_self ..

theorem State.setHandle_of_ne (s : State) {h h' : Nat} (handle : Option Handle) (hne : h' ≠ h) :
    (s.setHandle h handle).handles h' = s.handles h' := Function.update_of_ne hne ..

theorem State.newHandle_self (s : State) (handle : Handle) :
    (s.newHandle handle).handles s.next = some handle := Function.update_self ..

theorem State.newHandle_of_ne (s : State) (handle : Handle) {h : Nat} (hne : h ≠ s.next) :
    (s.newHandle handle).handles h = s.handles h := Function.update_of_ne hne ..

section Closing

/-- `uv_close` -/
def State.uvClose (s : State) (h : Nat) (callback : CloseCallback) : Except Fault State :=
  match s.handles h with
  | none => .error .freedMemory
  | some handle =>
      if handle.isClosing then .error .closedTwice
      else .ok (s.setHandle h (some (.closing callback)))

/-- `mumble_pipe_close` -/
def mumblePipeClose (s : State) (lpipe : MumblePipe) : Except Fault State :=
  match s.handles lpipe.pipe with
  | none => .error .freedMemory
  | some handle => do
      let s ← if handle.isClosing then .ok s else s.uvClose lpipe.pipe .close
      return { s with lpipe := some { lpipe with self := false, callback := none } }

/-- How far `mumble_pipe_reopen` gets: the memory, the file, the association and the start of
reading may fail. -/
inductive Reopening where
  | noMemory
  | noFile
  | notAssociated
  | notReading
  | done
  deriving DecidableEq

/-- `mumble_pipe_reopen` -/
def mumblePipeReopen (s : State) (lpipe : MumblePipe) : Reopening → Except Fault State
  | .noMemory => mumblePipeClose s lpipe
  -- `free(new_pipe)`, after `uv_pipe_init` has put it into the list of the loop.
  | .noFile | .notAssociated => .error .listedHandle
  | .notReading => mumblePipeClose (s.newHandle .idle) lpipe
  | .done =>
      match s.handles lpipe.pipe with
      | none => .error .freedMemory
      | some _ => .ok
          { (s.newHandle .reading).setHandle lpipe.pipe none with
            lpipe := some { lpipe with pipe := s.next } }

/-- `mumble_pipe_close_cb` -/
def mumblePipeCloseCb (s : State) (lpipe : MumblePipe) : Except Fault State :=
  match s.handles lpipe.pipe with
  | none => .error .freedMemory
  | some _ => .ok (s.setHandle lpipe.pipe none)

end Closing

section Reading

/-- What `uv_read_start` has the loop report, in a call of `mumble_pipe_on_read`. -/
inductive Report where
  | data (bytes : List UInt8)
  | eof
  | error

/-- The protected call of what `lpipe->callback` refers to. A value that is no function raises an
error, which is logged like one of the function. -/
def State.callCallback (s : State) (lpipe : MumblePipe) (bytes : List UInt8) : State :=
  match lpipe.callback with
  | some (.function f) => { s with calls := s.calls ++ [(f, bytes)] }
  | _ => s

/-- `mumble_pipe_on_read` -/
def mumblePipeOnRead (s : State) (lpipe : MumblePipe) : Report → Except Fault State
  | .data bytes => .ok (s.callCallback lpipe bytes)
  | .eof => s.uvClose lpipe.pipe .reopen
  | .error => mumblePipeClose s lpipe

end Reading

section Runs

/-- What the loop, the script and the collector do. What a callback does comes after it. -/
inductive Event where
  | read (h : Nat) (report : Report)
  | closed (h : Nat) (reopening : Reopening)
  /-- `pipe_close` -/
  | close
  /-- the script lets the pipe go -/
  | drop
  /-- `pipe_gc`, and the memory is given back -/
  | collect
  /-- `mumble_close`, which `mumble.stop` and an interrupt call -/
  | stop

/-- The userdata behind `handle->data`, which every handle that the loop calls back for has. -/
def State.data (s : State) : Except Fault MumblePipe :=
  match s.lpipe with
  | some lpipe => .ok lpipe
  | none => .error .freedMemory

/-- The close callback of a handle that the loop is done with. -/
def State.callBack (s : State) (lpipe : MumblePipe) (reopening : Reopening) :
    CloseCallback → Except Fault State
  | .close => mumblePipeCloseCb s lpipe
  | .reopen => mumblePipeReopen s lpipe reopening

/-- `stop_then_close` of a handle -/
def Handle.stopThenClose (handle : Handle) : Handle :=
  if handle.isClosing then handle else .closed

def step (s : State) : Event → Except Fault State
  | .read _ report => do
      let lpipe ← s.data
      mumblePipeOnRead s lpipe report
  | .closed h reopening =>
      match s.handles h with
      | some (.closing callback) => do
          let s := s.setHandle h (some .closed)
          let lpipe ← s.data
          s.callBack lpipe reopening callback
      | _ => .ok s
  | .close => do
      let lpipe ← s.data
      mumblePipeClose s lpipe
  | .drop => .ok { s with script := false }
  | .collect => .ok { s with lpipe := none }
  | .stop => .ok { s with handles := fun h => (s.handles h).map Handle.stopThenClose }

/-- The registry refers to the pipe. -/
def MumblePipe.referenced (lpipe : MumblePipe) : Bool :=
  lpipe.self || lpipe.callback = some .pipe

/-- The loop reports for a handle that it reads from and calls back for one that is being closed,
the script uses what it holds, and what is referred to is not collected. -/
def Enabled (s : State) : Event → Prop
  | .read h _ => s.handles h = some .reading
  | .closed h _ => ∃ callback, s.handles h = some (.closing callback)
  | .close | .drop => s.script = true
  | .collect => s.script = false ∧ ∃ lpipe, s.lpipe = some lpipe ∧ lpipe.referenced = false
  | .stop => True

def run : State → List Event → Except Fault State
  | s, [] => .ok s
  | s, e :: events => do
      let s ← step s e
      run s events

/-- Every event of a run can come when it does. -/
def Proper : State → List Event → Prop
  | _, [] => True
  | s, e :: events =>
      Enabled s e ∧
        match step s e with
        | .ok s' => Proper s' events
        | .error _ => True

end Runs

section Making

inductive Mkfifo where
  | made
  | exists
  | failed (error : String)

/-- What the calls of `mumble_pipe_new` answer, with the texts of `strerror` and `uv_strerror`. -/
structure System where
  mkfifo : Mkfifo
  file : Except String Unit
  isFifo : Bool
  memory : Except String Unit
  init : Except String Unit
  associate : Except String Unit

/-- How `mumble_pipe_new` ends: with an error about an argument, with nil and a message, or with a
pipe. -/
inductive Made where
  | raised (idx : Nat)
  | failed (message : String)
  | made (s : State)

def isString : Value → Bool
  | .string _ => true
  | _ => false

def isFunction : Value → Bool
  | .function _ => true
  | _ => false

/-- `luaL_ref` of a value. -/
def reference : Option Value → Option Value
  | some .nil => none
  | value => value

/-- The pipe that is made and returned, with its first handle. -/
def State.initial (callback : Option Value) : State where
  handles := Function.update (fun _ => none) 0 (some .reading)
  next := 1
  lpipe := some ⟨0, true, callback⟩
  script := true
  calls := []

/-- `mumble_pipe_new`, on a stack with the arguments of the script. -/
def mumblePipeNew (args : List Value) (system : System) : Except Fault Made :=
  let stack := args.reverse
  if ¬ (LuaStack.get stack 1).any isString then .ok (.raised 1)
  else if ¬ (LuaStack.get stack 2).any isFunction then .ok (.raised 2)
  else
    match system.mkfifo with
    | .failed error => .ok (.failed ("failed to mkfifo pipe: " ++ error))
    | _ =>
        match system.file with
        | .error error => .ok (.failed ("failed to open pipe: " ++ error))
        | .ok _ =>
            if ¬ system.isFifo then
              .ok (.failed "failed to open pipe: file is not an FIFO file")
            else
              match system.memory, system.init, system.associate with
              | .error error, _, _ =>
                  .ok (.failed ("failed to allocate memory for pipe: " ++ error))
              | _, .error error, _ => .ok (.failed ("failed to initialize pipe: " ++ error))
              -- `free(pipe)`, while the loop has it in its list.
              | _, _, .error _ => .error .listedHandle
              | _, _, _ =>
                  -- The userdata is on top of the arguments when the callback is looked up.
                  .ok (.made (.initial (reference (LuaStack.get (.pipe :: stack) 3))))

end Making

end LuaMumble.Pipe
