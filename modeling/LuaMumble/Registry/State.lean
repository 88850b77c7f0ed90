import LuaMumble.Lib.Machine
import LuaMumble.Lib.RefTable

/-!
The registry of the module: a table of Lua that C code keeps its objects in, some of them in
further tables that stand in it. Every object that C code holds has a variable of its own with
the reference, such as `client->self` or `timer->callback`. The variables are the elements of a
type here, each with its home: the registry, or the table that another variable refers to. This
is one of the module, or one of an object: the references of streams are in the table that
`client->audio_streams` refers to.
-/

namespace LuaMumble.Registry

open Lib

/-- What is referred to: a table of the registry, or another object. -/
inductive Object (V : Type) where
  | table (id : Nat)
  | other (v : V)

/-- The table that `MUMBLE_REGISTRY` refers to, and the tables that objects are kept in. -/
structure Lua (V : Type) where
  registry : RefTable (Object V)
  tables : Nat → RefTable (Object V)

section Functions

variable {V : Type} (objlen : RefTable.Objlen (Object V))

/-- `mumble_ref` -/
def mumbleRef (s : Lua V) (value : Option (Object V)) : Int × Lua V :=
  let (ref, registry) := s.registry.ref objlen value
  (ref, { s with registry := registry })

/-- `mumble_pushref` -/
def mumblePushref (s : Lua V) (ref : Int) : Slot (Object V) := s.registry ref

/-- `mumble_unref`, with the value that it leaves in the variable. -/
def mumbleUnref (s : Lua V) (ref : Int) : Int × Lua V :=
  if ref = noRef then (ref, s) else (noRef, { s with registry := s.registry.unref ref })

/-- The table that a reference of the registry refers to, if it does refer to one. -/
def Lua.table? (s : Lua V) (t : Int) : Option Nat :=
  match mumblePushref s t with
  | .value (.table id) => some id
  | _ => none

/-- `mumble_registry_ref`. Without a table the auxiliary library would have nothing to index. -/
def mumbleRegistryRef (s : Lua V) (t : Int) (value : Option (Object V)) : Option (Int × Lua V) :=
  (s.table? t).map fun id =>
    let (ref, table) := (s.tables id).ref objlen value
    (ref, { s with tables := Function.update s.tables id table })

/-- `mumble_registry_pushref` -/
def mumbleRegistryPushref (s : Lua V) (t ref : Int) : Option (Slot (Object V)) :=
  (s.table? t).map fun id => s.tables id ref

/-- `mumble_registry_unref`, with the value that it leaves in the variable. -/
def mumbleRegistryUnref (s : Lua V) (t ref : Int) : Option (Int × Lua V) :=
  if ref = noRef then some (ref, s)
  else (s.table? t).map fun id =>
    (noRef, { s with tables := Function.update s.tables id ((s.tables id).unref ref) })

end Functions

/-- The variables with the tables that are made as the module is opened: `MUMBLE_CLIENTS`,
`MUMBLE_TIMER_REG`, `MUMBLE_THREAD_REG`, `MUMBLE_PIPE_REG` and `MUMBLE_DATA_REG`. -/
inductive Global where
  | clients
  | timerReg
  | threadReg
  | pipeReg
  | dataReg
  deriving DecidableEq

/-- The number of the table that `luaopen_mumble` makes for the variable. -/
def Global.id : Global → Nat
  | .clients => 0
  | .timerReg => 1
  | .threadReg => 2
  | .pipeReg => 3
  | .dataReg => 4

/-- Who has references: the variables of the module and those of its objects. -/
inductive Name (K : Type) where
  | global (g : Global)
  | own (k : K)
  deriving DecidableEq

/-- The Lua state, the tables, and the variables of the objects. -/
structure State (V K : Type) where
  lua : Lua V
  globals : Global → Int
  vars : K → Int

def State.reference {V K : Type} (s : State V K) : Name K → Int
  | .global g => s.globals g
  | .own k => s.vars k

/-- `move` hands a reference from one variable to another, as streams do with `refrence` and
`reclaim_ref`. -/
inductive Event (V K : Type) where
  | ref (k : K) (value : Option (Object V))
  | unref (k : K)
  | pushref (k : K)
  | move (k k' : K)

/-- The event sets the variable. -/
def Event.Sets {V K : Type} (e : Event V K) (k : K) : Prop :=
  match e with
  | .ref k' _ => k' = k
  | .unref k' => k' = k
  | .pushref _ => False
  | .move k' k'' => k' = k ∨ k'' = k

inductive Output (V : Type) where
  | nothing
  | pushed (slot : Slot (Object V))
  /-- There is no table to index. -/
  | fault

section Program

variable {V K : Type} [DecidableEq K]
variable (objlen : RefTable.Objlen (Object V)) (home : K → Option (Name K))

/-- The part of `luaopen_mumble` that makes the tables. The variables of objects have what they
are given as their objects are made, or what lay in the memory. -/
def luaopenMumble (initial : K → Int) : State V K :=
  let lua : Lua V := { registry := .empty, tables := fun _ => .empty }
  let (clients, lua) := mumbleRef objlen lua (some (.table Global.clients.id))
  let (timerReg, lua) := mumbleRef objlen lua (some (.table Global.timerReg.id))
  let (threadReg, lua) := mumbleRef objlen lua (some (.table Global.threadReg.id))
  let (pipeReg, lua) := mumbleRef objlen lua (some (.table Global.pipeReg.id))
  let (dataReg, lua) := mumbleRef objlen lua (some (.table Global.dataReg.id))
  { lua := lua
    globals := fun
      | .clients => clients
      | .timerReg => timerReg
      | .threadReg => threadReg
      | .pipeReg => pipeReg
      | .dataReg => dataReg
    vars := initial }

/-- The state with what an operation gives for a variable. -/
def State.assign (s : State V K) (k : K) : Option (Int × Lua V) → Output V × State V K
  | some (ref, lua) => (.nothing, { s with lua := lua, vars := Function.update s.vars k ref })
  | none => (.fault, s)

/-- An operation on a variable, in the registry itself or in the table that it belongs to. -/
def step (s : State V K) : Event V K → Output V × State V K
  | .ref k value =>
      match home k with
      | none => s.assign k (some (mumbleRef objlen s.lua value))
      | some t => s.assign k (mumbleRegistryRef objlen s.lua (s.reference t) value)
  | .unref k =>
      match home k with
      | none => s.assign k (some (mumbleUnref s.lua (s.vars k)))
      | some t => s.assign k (mumbleRegistryUnref s.lua (s.reference t) (s.vars k))
  | .pushref k =>
      match home k with
      | none => (.pushed (mumblePushref s.lua (s.vars k)), s)
      | some t =>
          match mumbleRegistryPushref s.lua (s.reference t) (s.vars k) with
          | some slot => (.pushed slot, s)
          | none => (.fault, s)
  | .move k k' =>
      (.nothing, { s with
        vars := Function.update (Function.update s.vars k' (s.vars k)) k noRef })

end Program

section Purpose

variable {V K : Type} [DecidableEq K] (home : K → Option (Name K))

/-- What the registry is for: each variable holds an object, or none. A variable is ready once
it has been set. -/
structure Held (V K : Type) where
  holds : K → Option (Object V)
  ready : K → Prop

/-- Before any operation a variable holds nothing, and it is ready if it was set to no
reference. -/
def Held.start (initial : K → Int) : Held V K :=
  { holds := fun _ => none
    ready := fun k => initial k < 0 }

/-- The object that a name should have: the tables of the module are never given back. -/
def Held.object (h : Held V K) : Name K → Option (Object V)
  | .global g => some (.table g.id)
  | .own k => h.holds k

/-- The table that a variable of the registry refers to. -/
def Held.table? (h : Held V K) : Name K → Option Nat
  | .global g => some g.id
  | .own k =>
      match home k, h.holds k with
      | none, some (.table id) => some id
      | _, _ => none

/-- A variable gets a value. If it had a table, what stands there is not held any more. -/
def Held.put (h : Held V K) (k : K) (value : Option (Object V)) : Held V K where
  holds := fun k' =>
    if home k' = some (.own k) then none else Function.update h.holds k value k'
  ready := fun k' => home k' ≠ some (.own k) ∧ (k' = k ∨ h.ready k')

def Held.step (h : Held V K) : Event V K → Output V × Held V K
  | .ref k value => (.nothing, h.put home k value)
  | .unref k => (.nothing, h.put home k none)
  | .pushref k =>
      (.pushed (match h.holds k with
        | some object => .value object
        | none => .absent), h)
  | .move k k' => (.nothing, (h.put home k' (h.holds k)).put home k none)

/-- The table that the variable belongs to is there. -/
def Held.HasHome (h : Held V K) (k : K) : Prop :=
  ∀ t, home k = some t → (h.table? home t).isSome

/-- A variable is set before it is used, and has a table to be used in. A reference is handed to
another variable of the same table. -/
def SetBefore (h : Held V K) : Event V K → Prop
  | .ref k _ => h.HasHome home k
  | .unref k => h.ready k ∧ h.HasHome home k
  | .pushref k => h.ready k ∧ h.HasHome home k
  | .move k k' => h.ready k ∧ h.HasHome home k ∧ home k = home k'

end Purpose

end LuaMumble.Registry
