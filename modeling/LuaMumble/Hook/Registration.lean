import Mathlib.Data.List.Nodup
import LuaMumble.Hook.Balance

/-!
The functions that put callbacks into the hooks of a client and take them out, `client_hook` and
`client_unhook`, and what a hook call makes of what they leave. The tables are two levels deep, a
table for each hook in the table that `client->hooks` refers to. What they are for is flat: a
function for each hook and name.
-/

namespace LuaMumble.Hook

/-- An argument, as the two functions tell them apart. -/
inductive Arg where
  | nil
  | string (s : String)
  | number (text : String)
  | function (id : Nat)
  | other
  deriving DecidableEq

/-- `lua_tostring`, where `none` is `NULL`. -/
def Arg.text? : Arg → Option String
  | .string s => some s
  | .number text => some text
  | _ => none

@[simp] theorem Arg.text?_string (s : String) : (Arg.string s).text? = some s := rfl

@[simp] theorem Arg.text?_number (text : String) : (Arg.number text).text? = some text := rfl

@[simp] theorem Arg.text?_nil : Arg.nil.text? = none := rfl

@[simp] theorem Arg.text?_other : Arg.other.text? = none := rfl

/-- The argument at an index. The client is the one at 1. -/
def arg (args : List Arg) (idx : Nat) : Option Arg :=
  args[idx - 2]?

/-- What keeps a call from its end: an error about an argument, or `lua_setfield` with `NULL` for
its key. -/
inductive Failure where
  | argument (idx : Nat)
  | nullKey
  deriving DecidableEq

/-- `luaL_checkstring` -/
def checkString (args : List Arg) (idx : Nat) : Except Failure String :=
  match (arg args idx).bind Arg.text? with
  | some s => .ok s
  | none => .error (.argument idx)

/-- `luaL_checktype` for a function, with the function. -/
def checkFunction (args : List Arg) (idx : Nat) : Except Failure Nat :=
  match arg args idx with
  | some (.function f) => .ok f
  | _ => .error (.argument idx)

/-- The table of hooks of a client, the tables of callbacks, and the number of the next table that
is made. -/
structure Tables where
  hooks : String → Value
  entries : Nat → String → Value
  next : Nat

/-- The tables as `mumble_client_new` makes them. The table of hooks itself has the number 0. -/
def Tables.empty : Tables where
  hooks := fun _ => .nil
  entries := fun _ _ => .nil
  next := 1

/-- `lua_setfield` on a table of callbacks. -/
def Tables.setField (s : Tables) (t : Nat) (name : String) (v : Value) : Tables :=
  { s with entries := Function.update s.entries t (Function.update (s.entries t) name v) }

/-- A new table, put under the hook. -/
def Tables.newTable (s : Tables) (hook : String) : Tables :=
  { s with hooks := Function.update s.hooks hook (.table s.next), next := s.next + 1 }

/-- A table of callbacks for the hook, the one that is there or a new one. -/
def Tables.callbacks (s : Tables) (hook : String) : Nat × Tables :=
  match s.hooks hook with
  | .table t => (t, s)
  | _ => (s.next, s.newTable hook)

/-- `client_hook` -/
def clientHook (s : Tables) (args : List Arg) : Except Failure Tables := do
  let hook ← checkString args 2
  let (name, funcIndex) :=
    match arg args 3 with
    | some (.function _) => (some "hook", 3)
    | third => (third.bind Arg.text?, 4)
  let f ← checkFunction args funcIndex
  let (t, s) := s.callbacks hook
  match name with
  | some name => return s.setField t name (.function f)
  | none => throw .nullKey

/-- `client_unhook` -/
def clientUnhook (s : Tables) (args : List Arg) : Except Failure Tables := do
  let hook ← checkString args 2
  let name := ((arg args 3).bind Arg.text?).getD "hook"
  match s.hooks hook with
  | .table t => return s.setField t name .nil
  | _ => return s

inductive Command where
  | hook (args : List Arg)
  | unhook (args : List Arg)

def Command.call (s : Tables) : Command → Except Failure Tables
  | .hook args => clientHook s args
  | .unhook args => clientUnhook s args

/-- What a script leaves that goes on after an error. There is no going on after a null key. -/
def runCommands : Tables → List Command → Option Tables
  | s, [] => some s
  | s, command :: commands =>
      match command.call s with
      | .ok s' => runCommands s' commands
      | .error (.argument _) => runCommands s commands
      | .error .nullKey => none

section Purpose

/-- The functions that are registered, for each hook and name. -/
abbrev Registrations := String → String → Option Nat

def Registrations.set (r : Registrations) (hook name : String) (f : Option Nat) : Registrations :=
  Function.update r hook (Function.update (r hook) name f)

/-- The hook, the name and the function that the arguments of `client:hook` are meant for: the
name may be left out. -/
def registration : List Arg → Option (String × String × Nat)
  | hook :: .function f :: _ => hook.text?.map fun hook => (hook, "hook", f)
  | hook :: name :: .function f :: _ =>
      hook.text?.bind fun hook => name.text?.map fun name => (hook, name, f)
  | _ => none

/-- A hook and a function, with something between them that is neither a function nor a name. -/
def nameless : List Arg → Bool
  | _ :: .function _ :: _ => false
  | hook :: name :: .function _ :: _ => hook.text?.isSome && name.text?.isNone
  | _ => false

def removal : List Arg → Option (String × String)
  | hook :: rest => hook.text?.map fun hook => (hook, (rest.head?.bind Arg.text?).getD "hook")
  | [] => none

def Command.nameless : Command → Bool
  | .hook args => Hook.nameless args
  | .unhook _ => false

def Registrations.step (r : Registrations) : Command → Registrations
  | .hook args =>
      match registration args with
      | some (hook, name, f) => r.set hook name (some f)
      | none => r
  | .unhook args =>
      match removal args with
      | some (hook, name) => r.set hook name none
      | none => r

/-- What is registered after some commands. -/
def registered (commands : List Command) : Registrations :=
  commands.foldl Registrations.step fun _ _ => none

end Purpose

section Calls

theorem ok_then {α β : Type} (a : α) (f : α → Except Failure β) : (Except.ok a >>= f) = f a := rfl

/-- How the auxiliary functions read the arguments of `client:hook`. -/
theorem clientHook_eq (s : Tables) (args : List Arg) :
    (∃ hook name f, registration args = some (hook, name, f) ∧ nameless args = false ∧
        clientHook s args =
          .ok ((s.callbacks hook).2.setField (s.callbacks hook).1 name (.function f))) ∨
      (registration args = none ∧ nameless args = true ∧ clientHook s args = .error .nullKey) ∨
      registration args = none ∧ nameless args = false ∧
        ∃ idx, clientHook s args = .error (.argument idx) := by
  cases args with
  | nil => exact Or.inr (Or.inr ⟨rfl, rfl, 2, rfl⟩)
  | cons first rest =>
      cases hhook : first.text? with
      | none =>
          have hcheck : clientHook s (first :: rest) = .error (.argument 2) := by
            simp only [clientHook, checkString, arg]
            simp [hhook, bind, Except.bind]
          refine Or.inr (Or.inr ⟨?_, ?_, 2, hcheck⟩)
          · unfold registration
            split <;> simp_all
          · unfold nameless
            split <;> simp_all
      | some hook =>
          have hcheck : checkString (first :: rest) 2 = .ok hook := by
            simp [checkString, arg, hhook]
          cases rest with
          | nil =>
              refine Or.inr (Or.inr ⟨rfl, rfl, 4, ?_⟩)
              simp only [clientHook, hcheck]
              rfl
          | cons second rest =>
              cases second with
              | function f =>
                  refine Or.inl ⟨hook, "hook", f, ?_, rfl, ?_⟩
                  · simp [registration, hhook]
                  · simp only [clientHook, hcheck]
                    rfl
              | nil | other =>
                  cases rest with
                  | nil =>
                      refine Or.inr (Or.inr ⟨rfl, rfl, 4, ?_⟩)
                      simp only [clientHook, hcheck]
                      rfl
                  | cons third rest =>
                      cases third with
                      | function f =>
                          refine Or.inr (Or.inl ⟨?_, ?_, ?_⟩)
                          · simp [registration]
                          · simp [nameless, hhook]
                          · simp only [clientHook, hcheck]
                            rfl
                      | nil | other | string _ | number _ =>
                          refine Or.inr (Or.inr ⟨rfl, rfl, 4, ?_⟩)
                          simp only [clientHook, hcheck]
                          rfl
              | string name | number name =>
                  cases rest with
                  | nil =>
                      refine Or.inr (Or.inr ⟨rfl, rfl, 4, ?_⟩)
                      simp only [clientHook, hcheck]
                      rfl
                  | cons third rest =>
                      cases third with
                      | function f =>
                          refine Or.inl ⟨hook, name, f, ?_, ?_, ?_⟩
                          · simp [registration, hhook]
                          · simp [nameless]
                          · simp only [clientHook, hcheck]
                            rfl
                      | nil | other | string _ | number _ =>
                          refine Or.inr (Or.inr ⟨rfl, rfl, 4, ?_⟩)
                          simp only [clientHook, hcheck]
                          rfl

theorem clientUnhook_eq (s : Tables) (args : List Arg) :
    (∃ hook name, removal args = some (hook, name) ∧
        clientUnhook s args = .ok
          (match s.hooks hook with
            | .table t => s.setField t name .nil
            | _ => s)) ∨
      removal args = none ∧ ∃ idx, clientUnhook s args = .error (.argument idx) := by
  cases args with
  | nil => exact Or.inr ⟨rfl, 2, rfl⟩
  | cons first rest =>
      cases hhook : first.text? with
      | none =>
          refine Or.inr ⟨by simp [removal, hhook], 2, ?_⟩
          simp [clientUnhook, checkString, arg, hhook, bind, Except.bind]
      | some hook =>
          have hcheck : checkString (first :: rest) 2 = .ok hook := by
            simp [checkString, arg, hhook]
          have harg : arg (first :: rest) 3 = rest.head? := by
            cases rest <;> rfl
          refine Or.inl
            ⟨hook, (rest.head?.bind Arg.text?).getD "hook", by simp [removal, hhook], ?_⟩
          simp only [clientUnhook, hcheck, harg]
          cases hvalue : s.hooks hook <;> simp only [ok_then, hvalue]
          all_goals rfl

end Calls

section Refinement

/-- What a hook's table has under a name. -/
def Tables.found (s : Tables) (hook name : String) : Value :=
  match s.hooks hook with
  | .table t => s.entries t name
  | _ => .nil

theorem Tables.found_table {s : Tables} {hook : String} {t : Nat} (h : s.hooks hook = .table t)
    (name : String) : s.found hook name = s.entries t name := by
  rw [Tables.found, h]

theorem Tables.found_other {s : Tables} {hook : String} (h : ∀ t, s.hooks hook ≠ .table t)
    (name : String) : s.found hook name = .nil := by
  unfold Tables.found
  split
  · next t ht => exact absurd ht (h t)
  · rfl

/-- The value of a name under which a function is registered, or none. -/
def Registrations.value (r : Registrations) (hook name : String) : Value :=
  match r hook name with
  | some f => .function f
  | none => .nil

/-- The tables hold the registrations, and no two hooks share a table. -/
structure Tables.Holds (s : Tables) (r : Registrations) : Prop where
  made : ∀ {hook t}, s.hooks hook = .table t → t < s.next
  unshared : ∀ {hook hook' t}, s.hooks hook = .table t → s.hooks hook' = .table t → hook = hook'
  blank : ∀ {t}, s.next ≤ t → ∀ name, s.entries t name = .nil
  found : ∀ hook name, s.found hook name = r.value hook name

variable {s : Tables} {r : Registrations}

theorem Tables.Holds.empty : Tables.empty.Holds fun _ _ => none where
  made := fun h => by cases h
  unshared := fun h => by cases h
  blank := fun _ _ => rfl
  found := fun _ _ => rfl

/-- A new table has nothing in it, and it is none of the old ones. -/
theorem Tables.Holds.newTable (h : s.Holds r) {hook : String}
    (hnot : ∀ t, s.hooks hook ≠ .table t) : (s.newTable hook).Holds r := by
  have hself : (s.newTable hook).hooks hook = .table s.next := Function.update_self ..
  have hother {hook'} (hne : hook' ≠ hook) : (s.newTable hook).hooks hook' = s.hooks hook' :=
    Function.update_of_ne hne ..
  refine ⟨?_, ?_, ?_, ?_⟩
  · intro hook' t ht
    by_cases heq : hook' = hook
    · rw [heq, hself] at ht
      obtain rfl := Value.table.inj ht
      exact Nat.lt_succ_self _
    · rw [hother heq] at ht
      exact Nat.lt_succ_of_lt (h.made ht)
  · intro hook₁ hook₂ t h₁ h₂
    by_cases heq₁ : hook₁ = hook <;> by_cases heq₂ : hook₂ = hook
    · exact heq₁.trans heq₂.symm
    · rw [heq₁, hself] at h₁
      rw [hother heq₂] at h₂
      obtain rfl := Value.table.inj h₁
      exact absurd (h.made h₂) (Nat.lt_irrefl _)
    · rw [heq₂, hself] at h₂
      rw [hother heq₁] at h₁
      obtain rfl := Value.table.inj h₂
      exact absurd (h.made h₁) (Nat.lt_irrefl _)
    · rw [hother heq₁] at h₁
      rw [hother heq₂] at h₂
      exact h.unshared h₁ h₂
  · intro t ht name
    exact h.blank (Nat.le_of_succ_le ht) name
  · intro hook' name
    rw [← h.found hook' name]
    by_cases heq : hook' = hook
    · rw [heq, Tables.found_table hself, Tables.found_other hnot]
      exact h.blank (Nat.le_refl _) name
    · simp only [Tables.found, hother heq]
      rfl

/-- Getting a table for a hook registers nothing. -/
theorem Tables.Holds.callbacks (h : s.Holds r) (hook : String) :
    (s.callbacks hook).2.Holds r ∧
      (s.callbacks hook).2.hooks hook = .table (s.callbacks hook).1 := by
  unfold Tables.callbacks
  split
  · next t ht => exact ⟨h, ht⟩
  · next hnot => exact ⟨h.newTable hnot, Function.update_self ..⟩

/-- Setting a field of a hook's table sets the registration under it. -/
theorem Tables.Holds.setField (h : s.Holds r) {hook : String} {t : Nat}
    (ht : s.hooks hook = .table t) (name : String) (f : Option Nat) :
    (s.setField t name ((f.map Value.function).getD .nil)).Holds (r.set hook name f) := by
  refine ⟨h.made, h.unshared, ?_, ?_⟩
  · intro t' ht' name'
    have hne : t' ≠ t := by
      rintro rfl
      exact absurd (h.made ht) (Nat.not_lt.mpr ht')
    simp only [Tables.setField, Function.update_of_ne hne]
    exact h.blank ht' name'
  · intro hook' name'
    by_cases hhook : hook' = hook
    · subst hhook
      rw [Tables.found_table (by exact ht)]
      by_cases hname : name' = name
      · subst hname
        simp only [Tables.setField, Function.update_self, Registrations.value, Registrations.set]
        cases f <;> rfl
      · have hfound := h.found hook' name'
        rw [Tables.found_table ht] at hfound
        simpa only [Tables.setField, Function.update_self, Function.update_of_ne hname,
          Registrations.value, Registrations.set] using hfound
    · have hfound := h.found hook' name'
      simp only [Registrations.value, Registrations.set, Function.update_of_ne hhook]
      rw [← Registrations.value, ← hfound]
      cases hvalue : s.hooks hook' with
      | table t' =>
          have hne : t' ≠ t := by
            rintro rfl
            exact hhook (h.unshared hvalue ht)
          rw [Tables.found_table (by exact hvalue), Tables.found_table hvalue]
          simp only [Tables.setField, Function.update_of_ne hne]
      | nil | string _ | function _ | other _ =>
          simp only [Tables.found, Tables.setField, hvalue]

/-- Taking out what a hook without a table does not have. -/
theorem Registrations.set_none (h : s.Holds r) {hook : String} (hnot : ∀ t, s.hooks hook ≠ .table t)
    (name : String) : r.set hook name none = r := by
  have hfound := h.found hook name
  have hr : r hook name = none := by
    rw [Tables.found_other hnot, Registrations.value] at hfound
    cases hf : r hook name with
    | none => rfl
    | some f =>
        rw [hf] at hfound
        cases hfound
  rw [Registrations.set, ← hr, Function.update_eq_self, Function.update_eq_self]

/-- A command registers what it is meant to, gives an error and changes nothing, or is the one
with a null key. -/
theorem Tables.Holds.call (h : s.Holds r) (command : Command) :
    (command.nameless = false ∧ ∃ s', command.call s = .ok s' ∧ s'.Holds (r.step command)) ∨
      (command.nameless = false ∧ r.step command = r ∧
        ∃ idx, command.call s = .error (.argument idx)) ∨
      command.nameless = true ∧ command.call s = .error .nullKey := by
  cases command with
  | hook args =>
      rcases clientHook_eq s args with
        ⟨hook, name, f, hreg, hnamed, hcall⟩ | ⟨-, hnameless, hcall⟩ | ⟨hreg, hnamed, idx, hcall⟩
      · obtain ⟨hholds, htable⟩ := h.callbacks hook
        refine Or.inl ⟨hnamed, _, hcall, ?_⟩
        simp only [Registrations.step, hreg]
        exact hholds.setField htable name (some f)
      · exact Or.inr (Or.inr ⟨hnameless, hcall⟩)
      · exact Or.inr (Or.inl ⟨hnamed, by simp only [Registrations.step, hreg], idx, hcall⟩)
  | unhook args =>
      rcases clientUnhook_eq s args with ⟨hook, name, hremoval, hcall⟩ | ⟨hremoval, idx, hcall⟩
      · refine Or.inl ⟨rfl, _, hcall, ?_⟩
        simp only [Registrations.step, hremoval]
        split
        · next t ht => exact h.setField ht name none
        · next hnot =>
            rw [Registrations.set_none h (fun t ht => hnot t ht)]
            exact h
      · exact Or.inr (Or.inl ⟨rfl, by simp only [Registrations.step, hremoval], idx, hcall⟩)

theorem runCommands_holds (commands : List Command) (h : s.Holds r) :
    ((∃ command ∈ commands, command.nameless = true) ∧ runCommands s commands = none) ∨
      (∀ command ∈ commands, command.nameless = false) ∧
        ∃ s', runCommands s commands = some s' ∧
          s'.Holds (commands.foldl Registrations.step r) := by
  induction commands generalizing s r with
  | nil => exact Or.inr ⟨by simp, s, rfl, h⟩
  | cons command commands ih =>
      rcases h.call command with
        ⟨hnamed, s', hcall, hholds⟩ | ⟨hnamed, hsame, idx, hcall⟩ | ⟨hnameless, hcall⟩
      · simp only [runCommands, hcall, List.mem_cons, List.foldl_cons]
        rcases ih hholds with ⟨⟨c, hmem, hc⟩, hrun⟩ | ⟨hall, s'', hrun, hend⟩
        · exact Or.inl ⟨⟨c, Or.inr hmem, hc⟩, hrun⟩
        · refine Or.inr ⟨?_, s'', hrun, hend⟩
          rintro c (rfl | hmem)
          · exact hnamed
          · exact hall c hmem
      · simp only [runCommands, hcall, List.mem_cons, List.foldl_cons, hsame]
        rcases ih h with ⟨⟨c, hmem, hc⟩, hrun⟩ | ⟨hall, s'', hrun, hend⟩
        · exact Or.inl ⟨⟨c, Or.inr hmem, hc⟩, hrun⟩
        · refine Or.inr ⟨?_, s'', hrun, hend⟩
          rintro c (rfl | hmem)
          · exact hnamed
          · exact hall c hmem
      · refine Or.inl ⟨⟨command, List.mem_cons_self .., hnameless⟩, ?_⟩
        simp only [runCommands, hcall]

end Refinement

section Traversal

variable {W : Type} (host : Host W) (s : Tables) (hook : String)

/-- The program has the tables, as far as a call of the hook reads them. A traversal comes by the
keys that have a value, and by others that had one. -/
structure Reads (w : W) : Prop where
  hooks : host.get w (.table (host.hooks w)) (.string hook) = s.hooks hook
  entry : ∀ {t}, s.hooks hook = .table t → ∀ name,
    host.get w (.table t) (.string name) = s.entries t name
  other : ∀ {t}, s.hooks hook = .table t → ∀ key, (∀ name, key ≠ .string name) →
    host.get w (.table t) key = .nil
  key : ∀ {t}, s.hooks hook = .table t → ∀ name, s.entries t name ≠ .nil →
    .string name ∈ host.keys (.table t)

/-- The callbacks of the hook return, and leave its table and the client as they are. -/
def Steady (erroring : Bool) : Prop :=
  ∀ w f args, Reads host s hook w → ∃ results w',
    host.invoke w erroring f args = (.returned results, w') ∧ Reads host s hook w' ∧
      host.client w' = host.client w

def Value.string? : Value → Option String
  | .string s => some s
  | _ => none

variable {host s hook} {erroring : Bool} {w : W} {t : Nat}

theorem string?_inj {key key' : Value} {name : String} (h : name ∈ key.string?)
    (h' : name ∈ key'.string?) : key = key' := by
  cases key with
  | string s =>
      cases key' with
      | string s' =>
          obtain rfl := Option.some.inj h
          obtain rfl := Option.some.inj h'
          rfl
      | nil | function _ | table _ | other _ => cases h'
  | nil | function _ | table _ | other _ => cases h

/-- A traversal with steady callbacks calls what is under the keys, with the client and the
arguments. By induction on the keys. -/
theorem visits_steady (hsteady : Steady host s hook erroring) (ht : s.hooks hook = .table t)
    (args : List Value) (hreads : Reads host s hook w) (keys : List Value) :
    (∀ visit ∈ (visits host erroring args t w keys).1, visit.Returned) ∧
      (visits host erroring args t w keys).1.map (Visit.call args) =
        ((keys.filterMap Value.string?).filterMap fun name => (s.entries t name).function?).map
          fun f => ⟨f, host.client w :: args⟩ := by
  induction keys generalizing w with
  | nil => exact ⟨by simp [visits], rfl⟩
  | cons key keys ih =>
      cases hkey : key.string? with
      | some name =>
          obtain rfl : key = .string name := string?_inj hkey rfl
          have hentry := hreads.entry ht name
          rw [List.filterMap_cons_some hkey, List.filterMap_cons]
          cases hvalue : s.entries t name with
          | function f =>
              rw [hvalue] at hentry
              obtain ⟨results, w', hinvoke, hreads', hclient⟩ :=
                hsteady w f (host.client w :: args) hreads
              obtain ⟨hall, hcalls⟩ := ih hreads'
              simp only [visits, hentry, hinvoke]
              refine ⟨?_, ?_⟩
              · rintro visit (_ | ⟨_, hmem⟩)
                · exact ⟨results, rfl⟩
                · exact hall visit hmem
              · rw [List.map_cons, hcalls, hclient]
                rfl
          | nil | string _ | table _ | other _ =>
              rw [hvalue] at hentry
              simp only [visits, hentry]
              exact ih hreads
      | none =>
          have hnil : host.get w (.table t) key = .nil :=
            hreads.other ht key fun name h => by rw [h] at hkey; cases hkey
          rw [List.filterMap_cons_none hkey]
          simp only [visits, hnil]
          exact ih hreads

theorem function?_value (r : Registrations) (name : String) :
    (r.value hook name).function? = r hook name := by
  unfold Registrations.value
  cases r hook name <;> rfl

/-- The hook call of a client with the tables calls each function that is registered once. -/
theorem hookVisits_registered {r : Registrations} (hholds : s.Holds r)
    (hreads : Reads host s hook w) (hsteady : Steady host s hook erroring) (args : List Value) :
    (∀ visit ∈ (hookVisits host erroring args hook w).1, visit.Returned) ∧
      ∃ names : List String, names.Nodup ∧
        (∀ name, name ∈ names ↔ (r hook name).isSome = true) ∧
        (hookVisits host erroring args hook w).1.map (Visit.call args) =
          (names.filterMap (r hook)).map fun f => ⟨f, host.client w :: args⟩ := by
  have hgiven := hreads.hooks
  cases hvalue : s.hooks hook with
  | table t =>
      obtain ⟨hall, hcalls⟩ := visits_steady hsteady hvalue args hreads (host.keys (.table t))
      have hentries (name : String) : (s.entries t name).function? = r hook name := by
        rw [← Tables.found_table hvalue, hholds.found, function?_value]
      have hkeys : ((host.keys (.table t)).filterMap Value.string?).Nodup :=
        List.Nodup.filterMap (fun key key' name h h' => string?_inj h h') (host.keys_nodup _)
      rw [hvalue] at hgiven
      simp only [hookVisits, hgiven]
      refine ⟨hall, ((host.keys (.table t)).filterMap Value.string?).filter
        fun name => (r hook name).isSome, hkeys.filter _, ?_, ?_⟩
      · intro name
        rw [List.mem_filter, List.mem_filterMap]
        constructor
        · exact fun h => h.2
        · intro hsome
          refine ⟨⟨.string name, hreads.key hvalue name ?_, rfl⟩, hsome⟩
          intro hnil
          rw [← hentries, hnil] at hsome
          cases hsome
      · rw [hcalls]
        congr 1
        simp only [hentries, List.filterMap_filter]
        apply List.filterMap_congr
        intro name _
        cases r hook name <;> rfl
  | nil | string _ | function _ | other _ =>
      have hnone (name : String) : r hook name = none := by
        rw [← function?_value r, ← hholds.found, Tables.found, hvalue]
        rfl
      rw [hvalue] at hgiven
      simp only [hookVisits, hgiven]
      exact ⟨by simp, [], List.nodup_nil, by simp [hnone], rfl⟩

end Traversal

/-- Tables in a program whose callbacks do nothing, traversed by the given names. -/
def Tables.host (s : Tables) (names : List String) (hnames : names.Nodup) : Host Unit where
  self := fun _ => 0
  clients := fun _ _ => .other 0
  hooks := fun _ => 0
  get := fun _ t key =>
    match t, key with
    | .table 0, .string hook => s.hooks hook
    | .table t, .string name => s.entries t name
    | _, _ => .nil
  keys := fun _ => names.map .string
  keys_nodup := fun _ => List.Nodup.map (fun _ _ h => Value.string.inj h) hnames
  nil_not_key := fun _ h => by
    obtain ⟨name, -, hname⟩ := List.mem_map.mp h
    cases hname
  invoke := fun _ _ _ _ => (.returned [], ())
  traceback := 0
  handle := id

section Example

variable (s : Tables) {names : List String} (hnames : names.Nodup)

theorem Tables.host_reads {t : Nat} (hook : String) (ht : s.hooks hook = .table (t + 1))
    (hall : ∀ name, s.entries (t + 1) name ≠ .nil → name ∈ names) :
    Reads (s.host names hnames) s hook () := by
  refine ⟨rfl, ?_, ?_, ?_⟩
  · intro t' ht' name
    obtain rfl := Value.table.inj (ht.symm.trans ht')
    rfl
  · intro t' ht' key hkey
    obtain rfl := Value.table.inj (ht.symm.trans ht')
    cases key with
    | string name => exact absurd rfl (hkey name)
    | nil | function _ | table _ | other _ => rfl
  · intro t' ht' name hname
    obtain rfl := Value.table.inj (ht.symm.trans ht')
    exact List.mem_map_of_mem (hall name hname)

theorem Tables.host_steady (hook : String) (erroring : Bool) :
    Steady (s.host names hnames) s hook erroring :=
  fun _ _ _ hreads => ⟨[], (), rfl, hreads, rfl⟩

/-- A callback without a name is replaced by the next one, and one is taken out by its name. -/
def tickCommands : List Command :=
  [.hook [.string "OnTick", .function 1], .hook [.string "OnTick", .string "second", .function 2],
    .hook [.string "OnTick", .nil], .hook [.string "OnTick", .function 3],
    .unhook [.string "OnTick", .string "second"]]

def tickTables : Tables :=
  ((((Tables.empty.newTable "OnTick").setField 1 "hook" (.function 1)).setField 1 "second"
    (.function 2)).setField 1 "hook" (.function 3)).setField 1 "second" .nil

theorem tick_names : ["second", "hook"].Nodup := by decide

theorem tick_entries (name : String) (h : tickTables.entries 1 name ≠ .nil) :
    name ∈ ["second", "hook"] := by
  by_contra hnot
  simp only [List.mem_cons, List.not_mem_nil, or_false, not_or] at hnot
  exact h (by simp [tickTables, Tables.setField, Tables.newTable, Tables.empty, hnot.1, hnot.2])

theorem tick_registered (name : String) :
    registered tickCommands "OnTick" name = if name = "hook" then some 3 else none := by
  by_cases hhook : name = "hook"
  · subst hhook
    rfl
  · by_cases hsecond : name = "second"
    · subst hsecond
      rfl
    · simp [registered, tickCommands, Registrations.step, registration, removal,
        Registrations.set, hhook, hsecond]

end Example

end LuaMumble.Hook
