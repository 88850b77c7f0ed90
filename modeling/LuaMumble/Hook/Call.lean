import LuaMumble.Lib.LuaStack

/-!
`mumble_hook_call_ret`, which calls the callbacks of a hook. The stack is that
of the C function that calls it; every pop, removal and `lua_next` is checked
against the slots below the arguments, which are not the hook call's own. The
rest of the program and what the callbacks do are parameters, gathered in
`Host`. Loops run on fuel.
-/

namespace LuaMumble.Hook

open Lib

inductive Value where
  | nil
  | string (s : String)
  | function (id : Nat)
  | table (id : Nat)
  | other (id : Nat)
  deriving DecidableEq

def Value.isFunction : Value → Bool
  | .function _ => true
  | _ => false

def Value.function? : Value → Option Nat
  | .function id => some id
  | _ => none

def Value.isTable : Value → Bool
  | .table _ => true
  | _ => false

/-- How a called function ends. -/
inductive Outcome where
  | returned (results : List Value)
  | raised (message : Value)
  deriving DecidableEq

/-- What a hook call uses of the program besides the stack, over states `W` that
the callbacks may change. `keys` are the keys of a table in the order of a
traversal, with or without a value. -/
structure Host (W : Type) where
  /-- `client->self` -/
  self : W → Int
  /-- the table `MUMBLE_CLIENTS` -/
  clients : W → Int → Value
  /-- the table that `client->hooks` refers to -/
  hooks : W → Nat
  get : W → Value → Value → Value
  keys : Value → List Value
  keys_nodup : ∀ t, (keys t).Nodup
  nil_not_key : ∀ t, Value.nil ∉ keys t
  /-- a callback, run while `erroring` has the given value -/
  invoke : W → Bool → Nat → List Value → Outcome × W
  /-- `mumble_traceback`, and what it makes of an error message -/
  traceback : Nat
  handle : Value → Value

/-- What `mumble_client_raw_get` pushes: `MUMBLE_CLIENTS[client->self]`. -/
def Host.client {W : Type} (host : Host W) (w : W) : Value :=
  host.clients w (host.self w)

/-- A call of a callback with its arguments. -/
structure Call where
  function : Nat
  args : List Value
  deriving DecidableEq

/-- `erroring` is the variable of the source; `calls` records the callbacks
called. -/
structure State (W : Type) where
  stack : List Value
  world : W
  erroring : Bool
  calls : List Call

/-- Why a hook call does not return: undefined behaviour of the Lua API, an error
that nothing catches, or a loop that needs more fuel. -/
inductive Stop where
  | fault
  | raised (message : Value)
  | outOfFuel
  deriving DecidableEq

section Api

variable {W : Type} (host : Host W)

/-- The state with the stack that an operation leaves. -/
def State.update (s : State W) (stack : Option (List Value)) : Except Stop (State W) :=
  match stack with
  | some stack => .ok { s with stack := stack }
  | none => .error .fault

def State.push (s : State W) (v : Value) : State W :=
  { s with stack := v :: s.stack }

/-- `lua_gettop` -/
def State.top (s : State W) : Nat :=
  s.stack.length

/-- `lua_getfield` on a table. -/
def getField (s : State W) (idx : Int) (key : Value) : Except Stop (State W) :=
  match LuaStack.get s.stack idx with
  | some (.table t) => .ok (s.push (host.get s.world (.table t) key))
  | some _ => .error (.raised .nil)
  | none => .error .fault

/-- The keys after `k` in a traversal; nil stands before the first one. -/
def keysAfter (keys : List Value) (k : Value) : Option (List Value) :=
  if k = .nil then some keys
  else if k ∈ keys then some (keys.dropWhile (fun key => key ≠ k)).tail
  else none

/-- `lua_next`: pops a key and pushes the next entry of the table, if there is
one. A key that the table does not have is an error. -/
def luaNext (floor : Nat) (s : State W) (idx : Int) : Except Stop (Bool × State W) :=
  match LuaStack.slot s.stack idx, LuaStack.get s.stack idx, s.stack with
  | some i, some (.table t), k :: rest =>
      if i + floor < s.stack.length then
        match keysAfter (host.keys (.table t)) k with
        | none => .error (.raised .nil)
        | some keys =>
            match keys.find? fun key => host.get s.world (.table t) key ≠ .nil with
            | some key =>
                .ok (true, { s with stack := host.get s.world (.table t) key :: key :: rest })
            | none => .ok (false, { s with stack := rest })
      else .error .fault
  | _, _, _ => .error .fault

/-- The results of a call as `nresults` asks for them; `none` is `LUA_MULTRET`. -/
def adjust (nresults : Option Nat) (results : List Value) : List Value :=
  match nresults with
  | none => results
  | some n => results.takeD n .nil

/-- The function `nargs` below the top, its arguments and the rest of the stack. -/
def takeCall (stack : List Value) (nargs : Nat) : Option (Call × List Value) :=
  match stack.drop nargs with
  | .function f :: rest => some (⟨f, (stack.take nargs).reverse⟩, rest)
  | _ => none

/-- `lua_call` -/
def luaCall (s : State W) (nargs : Nat) (nresults : Option Nat) : Except Stop (State W) :=
  match takeCall s.stack nargs with
  | none => .error .fault
  | some (call, rest) =>
      match host.invoke s.world s.erroring call.function call.args with
      | (.returned results, world) =>
          .ok { s with
            stack := (adjust nresults results).reverse ++ rest
            world := world
            calls := s.calls ++ [call] }
      | (.raised message, _) => .error (.raised message)

/-- `lua_pcall` with a message handler at an index; the flag is its result 0. -/
def luaPcall (s : State W) (nargs : Nat) (nresults : Option Nat) (msgh : Int) :
    Except Stop (Bool × State W) :=
  match takeCall s.stack nargs, LuaStack.get s.stack msgh with
  | some (call, rest), some _ =>
      match host.invoke s.world s.erroring call.function call.args with
      | (.returned results, world) =>
          .ok (true, { s with
            stack := (adjust nresults results).reverse ++ rest
            world := world
            calls := s.calls ++ [call] })
      | (.raised message, world) =>
          .ok (false, { s with
            stack := host.handle message :: rest
            world := world
            calls := s.calls ++ [call] })
  | _, _ => .error .fault

end Api

/-- The variables of a hook call that its loop reads, and the two that it sets. -/
structure Frame where
  argpos : Nat
  nargs : Nat
  nresults : Option Nat

structure Kept where
  returned : Bool
  nreturns : Nat
  deriving DecidableEq

section Hooks

variable {W : Type} (host : Host W)

/-- The body of the loop up to `lua_pop(l, 2)`. The hook call for OnError is a
parameter. -/
def callEntry (onError : State W → Except Stop (State W)) (frame : Frame) (kept : Kept)
    (s : State W) : Except Stop (Kept × State W) := do
  let s ← s.update (LuaStack.pushValue s.stack (-2))
  match LuaStack.get s.stack (-2) with
  | some (.function _) =>
      let s ← s.update (LuaStack.pushValue s.stack (-2))
      let s := s.push (host.client s.world)
      let s ← s.update (LuaStack.pushValues s.stack frame.argpos frame.nargs)
      let callargs := frame.nargs + 1
      if s.erroring then
        let s ← luaCall host s callargs (some 0)
        return (kept, s)
      else
        let base := s.top - callargs
        let s := s.push (.function host.traceback)
        let s ← s.update (LuaStack.insert s.stack base)
        let (success, s) ← luaPcall host s callargs frame.nresults base
        if success then
          let nret := s.top - base
          let s ← s.update (LuaStack.remove frame.argpos s.stack base)
          if !kept.returned && nret > 0 then
            -- The results stay on top of the key and the value.
            return (⟨true, nret⟩, s)
          else
            let s ← s.update (LuaStack.pop frame.argpos s.stack nret)
            return (kept, s)
        else
          let s ← onError { s with erroring := true }
          let s := { s with erroring := false }
          -- The message is gone with the arguments of OnError, so this pops the
          -- traceback function.
          let s ← s.update (LuaStack.pop frame.argpos s.stack 1)
          let s ← s.update (LuaStack.remove frame.argpos s.stack base)
          return (kept, s)
  | _ => return (kept, s)

/-- The hook call around its loop: what comes before and after it. -/
def hookCallWith (loop : Frame → Kept → State W → Except Stop (Kept × State W))
    (hook : String) (nargs : Nat) (nresults : Option Nat) (s : State W) :
    Except Stop (Nat × State W) := do
  let argpos := s.top - nargs
  -- `LUA_NOREF` is -2.
  if host.self s.world ≤ -2 then
    let s ← s.update (LuaStack.pop argpos s.stack nargs)
    return (0, s)
  else
    let s := s.push (.table (host.hooks s.world))
    let s ← getField host s (-1) (.string hook)
    let s ← s.update (LuaStack.remove argpos s.stack (-2))
    if (LuaStack.get s.stack (-1)).any Value.isTable then
      let (kept, s) ← loop ⟨argpos, nargs, nresults⟩ ⟨false, 0⟩ (s.push .nil)
      let s ← s.update (LuaStack.pop argpos s.stack 1)
      let s ← s.update (LuaStack.removes argpos s.stack (argpos + 1) nargs)
      return (kept.nreturns, s)
    else
      let s ← s.update (LuaStack.pop argpos s.stack 1)
      let s ← s.update (LuaStack.removes argpos s.stack (argpos + 1) nargs)
      return (0, s)

/-- `while (lua_next(l, -2))`. A callback that raises an error starts the hook
call for OnError, on the fuel that is left. -/
def hookLoop : Nat → Frame → Kept → State W → Except Stop (Kept × State W)
  | 0, _, _, _ => .error .outOfFuel
  | fuel + 1, frame, kept, s => do
      let (more, s) ← luaNext host frame.argpos s (-2)
      if more then
        let onError := fun s => (·.2) <$> hookCallWith host (hookLoop fuel) "OnError" 1 (some 0) s
        let (kept, s) ← callEntry host onError frame kept s
        let s ← s.update (LuaStack.pop frame.argpos s.stack 2)
        hookLoop fuel frame kept s
      else return (kept, s)

/-- `mumble_hook_call_ret`: the number it returns and the state afterwards. -/
def mumbleHookCallRet (fuel : Nat) (hook : String) (nargs : Nat) (nresults : Option Nat)
    (s : State W) : Except Stop (Nat × State W) :=
  hookCallWith host (hookLoop host fuel) hook nargs nresults s

def mumbleHookCall (fuel : Nat) (hook : String) (nargs : Nat) (s : State W) :
    Except Stop (Nat × State W) :=
  mumbleHookCallRet host fuel hook nargs (some 0) s

end Hooks

end LuaMumble.Hook
