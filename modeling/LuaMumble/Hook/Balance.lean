import LuaMumble.Hook.Traversal

/-!
When a hook call keeps the stack balanced. With no results to keep, the loop
leaves the stack as it was, and the hook call ends with its arguments taken away
and nothing else, as long as every callback returns. A callback that raises an
error makes it reach below its own slots; and a callback that disconnects the
client leaves nil in the client's place for those after it.
-/

namespace LuaMumble.Hook

open Lib

variable {W : Type} (host : Host W)

/-- The callbacks that a hook call meets: those of the hook's table, if it has
one. -/
def hookVisits (erroring : Bool) (args : List Value) (hook : String) (w : W) : List Visit × W :=
  match host.get w (.table (host.hooks w)) (.string hook) with
  | .table t => visits host erroring args t w (host.keys (.table t))
  | _ => ([], w)

section Frames

variable {w : W} {erroring : Bool} {calls : List Call} {hook : String} {nresults : Option Nat}
  (loop : Frame → Kept → State W → Except Stop (Kept × State W)) (args below : List Value)

theorem top_argpos :
    State.top (⟨args.reverse ++ below, w, erroring, calls⟩ : State W) - args.length =
      below.length := by
  simp only [State.top, List.length_append, List.length_reverse]
  omega

theorem hookCallWith_unreferenced (erroring : Bool) (calls : List Call) (hook : String)
    (nresults : Option Nat) (hself : host.self w ≤ -2) :
    hookCallWith host loop hook args.length nresults ⟨args.reverse ++ below, w, erroring, calls⟩ =
      .ok (0, ⟨below, w, erroring, calls⟩) := by
  have hpop := LuaStack.pop_append args.reverse (Nat.le_refl below.length)
  rw [List.length_reverse] at hpop
  simp only [hookCallWith, top_argpos, hself, if_true, hpop, update_some, ok_bind]
  rfl

/-- What the hook call does after its loop: the value on top goes, and then the
arguments, from below what the loop has left above them. -/
theorem takeArgs (above : List Value) (v : Value) :
    LuaStack.pop below.length (v :: (above ++ args.reverse ++ below)) 1 =
        some (above ++ args.reverse ++ below) ∧
      LuaStack.removes below.length (above ++ args.reverse ++ below) (below.length + 1)
        args.length = some (above ++ below) := by
  have hfloor : below.length ≤ (above ++ args.reverse ++ below).length := by
    rw [List.length_append]
    omega
  exact ⟨LuaStack.pop_one v hfloor, LuaStack.removes_args above args below (Nat.le_refl _)⟩

theorem hookCallWith_noTable (erroring : Bool) (calls : List Call) (nresults : Option Nat)
    (hself : ¬ host.self w ≤ -2)
    (hvalue : (host.get w (.table (host.hooks w)) (.string hook)).isTable = false) :
    hookCallWith host loop hook args.length nresults ⟨args.reverse ++ below, w, erroring, calls⟩ =
      .ok (0, ⟨below, w, erroring, calls⟩) := by
  have hfloor : below.length ≤ (args.reverse ++ below).length := by
    rw [List.length_append]
    omega
  obtain ⟨hpop, hremoves⟩ := takeArgs args below []
    (host.get w (.table (host.hooks w)) (.string hook))
  simp only [List.nil_append] at hpop hremoves
  simp only [hookCallWith, top_argpos, hself, if_false, State.push, getField, LuaStack.get_top,
    ok_bind, LuaStack.remove_second hfloor, update_some, Option.any_some, hvalue,
    Bool.false_eq_true, hpop, hremoves]
  rfl

/-- The lines of the hook call after its loop. -/
def afterLoop (kept : Kept) (s : State W) : Except Stop (Nat × State W) := do
  let s ← s.update (LuaStack.pop below.length s.stack 1)
  let s ← s.update (LuaStack.removes below.length s.stack (below.length + 1) args.length)
  return (kept.nreturns, s)

theorem afterLoop_eq (kept : Kept) (above : List Value) (v : Value) :
    afterLoop args below kept
        (⟨v :: (above ++ args.reverse ++ below), w, erroring, calls⟩ : State W) =
      .ok (kept.nreturns, ⟨above ++ below, w, erroring, calls⟩) := by
  obtain ⟨hpop, hremoves⟩ := takeArgs args below above v
  simp only [afterLoop, hpop, update_some, ok_bind, hremoves]
  rfl

theorem hookCallWith_table (erroring : Bool) (calls : List Call) (nresults : Option Nat) {t : Nat}
    (hself : ¬ host.self w ≤ -2)
    (hvalue : host.get w (.table (host.hooks w)) (.string hook) = .table t) :
    hookCallWith host loop hook args.length nresults ⟨args.reverse ++ below, w, erroring, calls⟩ =
      loop ⟨below.length, args.length, nresults⟩ ⟨false, 0⟩
          ⟨.nil :: .table t :: (args.reverse ++ below), w, erroring, calls⟩ >>=
        fun r => afterLoop args below r.1 r.2 := by
  have hfloor : below.length ≤ (args.reverse ++ below).length := by
    rw [List.length_append]
    omega
  simp only [hookCallWith, top_argpos, hself, if_false, State.push, getField, LuaStack.get_top,
    ok_bind, LuaStack.remove_second hfloor, update_some, Option.any_some, hvalue, Value.isTable,
    if_true]
  rfl

end Frames

section Calls

variable {w : W} {erroring : Bool} {calls : List Call} {nresults : Option Nat}
  (hook : String) (args below : List Value)

/-- On a table, the hook call ends well where its loop does. -/
theorem hookCall_loop_iff {t : Nat} (hself : ¬ host.self w ≤ -2)
    (hvalue : host.get w (.table (host.hooks w)) (.string hook) = .table t)
    (r : Nat × State W) :
    (∃ fuel, mumbleHookCallRet host fuel hook args.length nresults
        ⟨args.reverse ++ below, w, erroring, calls⟩ = .ok r) ↔
      ∃ kept s, (∃ fuel, hookLoop host fuel ⟨below.length, args.length, nresults⟩ ⟨false, 0⟩
          ⟨.nil :: .table t :: (args.reverse ++ below), w, erroring, calls⟩ = .ok (kept, s)) ∧
        afterLoop args below kept s = .ok r := by
  have hcall := fun fuel => hookCallWith_table host (hookLoop host fuel) args below
    erroring calls nresults hself hvalue
  simp only [mumbleHookCallRet, hcall]
  constructor
  · rintro ⟨fuel, hrun⟩
    cases hresult : hookLoop host fuel ⟨below.length, args.length, nresults⟩ ⟨false, 0⟩
        ⟨.nil :: .table t :: (args.reverse ++ below), w, erroring, calls⟩ with
    | error stop =>
        rw [hresult, error_bind] at hrun
        cases hrun
    | ok result =>
        rw [hresult, ok_bind] at hrun
        exact ⟨result.1, result.2, ⟨fuel, hresult⟩, hrun⟩
  · rintro ⟨kept, s, ⟨fuel, hresult⟩, hafter⟩
    exact ⟨fuel, by rw [hresult, ok_bind]; exact hafter⟩

/-- A hook call that keeps no results, on a referenced client. -/
theorem hookCall_iff (w : W) (erroring : Bool) (calls : List Call) (nresults : Option Nat)
    (hself : ¬ host.self w ≤ -2)
    (hdrops : erroring = true ∨ nresults = some 0)
    (hnested : erroring = false → NestedTakesMessage host) (r : Nat × State W) :
    (∃ fuel, mumbleHookCallRet host fuel hook args.length nresults
        ⟨args.reverse ++ below, w, erroring, calls⟩ = .ok r) ↔
      (∀ visit ∈ (hookVisits host erroring args hook w).1, visit.Returned) ∧
        r = (0, ⟨below, (hookVisits host erroring args hook w).2, erroring,
          calls ++ (hookVisits host erroring args hook w).1.map (Visit.call args)⟩) := by
  cases hvalue : host.get w (.table (host.hooks w)) (.string hook) with
  | table t =>
      have hkeys : keysAfter (host.keys (.table t)) .nil = some (host.keys (.table t)) := rfl
      have hloop := fun r => hookLoop_iff host w erroring calls ⟨false, 0⟩ nresults
        [] args below (hdrops.imp_right Or.inr) hnested r hkeys
      simp only [List.nil_append] at hloop
      rw [hookCall_loop_iff host hook args below hself hvalue]
      simp only [hloop, hookVisits, hvalue]
      constructor
      · rintro ⟨kept, s, ⟨hall, hresult⟩, hafter⟩
        obtain ⟨rfl, rfl⟩ := Prod.mk.inj hresult
        have hend := hafter.symm.trans (afterLoop_eq args below ⟨false, 0⟩ [] (.table t))
        exact ⟨hall, Except.ok.inj hend⟩
      · rintro ⟨hall, rfl⟩
        exact ⟨_, _, ⟨hall, rfl⟩, afterLoop_eq args below ⟨false, 0⟩ [] (.table t)⟩
  | nil | string _ | function _ | other _ =>
      have hnot : (host.get w (.table (host.hooks w)) (.string hook)).isTable = false := by
        rw [hvalue]
        rfl
      have hcall := fun fuel => hookCallWith_noTable host (hookLoop host fuel) args below
        erroring calls nresults hself hnot
      simp only [mumbleHookCallRet, hcall, hookVisits, hvalue, Except.ok.injEq, exists_const,
        eq_comm (a := r)]
      simp

/-- The hook call for OnError runs with `erroring` set, so it never starts
another one, and where it returns it has taken its message away. -/
theorem nested_takes_message : NestedTakesMessage host := by
  intro fuel v rest w calls n s hcall
  by_cases hself : host.self w ≤ -2
  · have hpop := hookCallWith_unreferenced host (hookLoop host fuel) [v] rest true calls "OnError"
      (some 0) hself
    simp only [List.reverse_singleton, List.singleton_append, List.length_singleton] at hpop
    rw [hpop] at hcall
    obtain ⟨_, rfl⟩ := Prod.mk.inj (Except.ok.inj hcall)
    rfl
  · have hiff := hookCall_iff host "OnError" [v] rest w true calls (some 0) hself
      (Or.inl rfl) (fun h => by cases h) (n, s)
    obtain ⟨_, hresult⟩ := hiff.mp ⟨fuel, hcall⟩
    obtain ⟨_, rfl⟩ := Prod.mk.inj hresult
    rfl

end Calls

/-- A hook call on a referenced client ends with exactly its arguments taken off
the stack and each callback called once, with the client and the arguments, if
and only if every callback returns and the client is still registered when each
of them is called. -/
theorem hook_call_balanced_iff (hook : String) (s : State W) (args below : List Value)
    (hstack : s.stack = args.reverse ++ below) (hself : -2 < host.self s.world) :
    let met := (hookVisits host s.erroring args hook s.world).1
    (∃ fuel n s', mumbleHookCall host fuel hook args.length s = .ok (n, s') ∧
        s'.stack = below ∧
        s'.calls = s.calls ++
          met.map fun visit => ⟨visit.function, host.client s.world :: args⟩) ↔
      ∀ visit ∈ met, visit.Returned ∧ visit.client = host.client s.world := by
  obtain ⟨stack, w, erroring, calls⟩ := s
  obtain rfl : stack = args.reverse ++ below := hstack
  intro met
  have hiff := fun r => hookCall_iff host hook args below w erroring calls (some 0)
    (Int.not_le.mpr hself) (Or.inr rfl) (fun _ => nested_takes_message host) r
  have hcalls : met.map (Visit.call args) =
      met.map (fun visit => ⟨visit.function, host.client w :: args⟩) ↔
        ∀ visit ∈ met, visit.client = host.client w := by
    simp [List.map_inj_left, Visit.call]
  constructor
  · rintro ⟨fuel, n, s', hrun, _, hlog⟩
    obtain ⟨hall, hresult⟩ := (hiff (n, s')).mp ⟨fuel, hrun⟩
    obtain ⟨_, rfl⟩ := Prod.mk.inj hresult
    have hclients := hcalls.mp (List.append_cancel_left hlog)
    intro visit hmem
    exact ⟨hall visit hmem, hclients visit hmem⟩
  · intro hall
    obtain ⟨fuel, hrun⟩ := (hiff _).mpr ⟨fun visit hmem => (hall visit hmem).1, rfl⟩
    have hlog := hcalls.mpr fun visit hmem => (hall visit hmem).2
    exact ⟨fuel, _, _, hrun, rfl, by rw [hlog]⟩

/-- A program with one hook, OnTick, under which functions 1 and 2 are set. -/
def tickHost (outcome : Nat → Outcome) : Host Unit where
  self := fun _ => 0
  clients := fun _ _ => .other 0
  hooks := fun _ => 0
  get := fun _ t key =>
    if t = .table 0 ∧ key = .string "OnTick" then .table 1
    else if t = .table 1 ∧ key = .string "first" then .function 1
    else if t = .table 1 ∧ key = .string "second" then .function 2
    else .nil
  keys := fun t => if t = .table 1 then [.string "first", .string "second"] else []
  keys_nodup := by
    intro t
    split <;> decide
  nil_not_key := by
    intro t
    split <;> decide
  invoke := fun _ _ f _ => (outcome f, ())
  traceback := 0
  handle := id

def tickState (args : List Value) : State Unit :=
  ⟨args.reverse ++ [.string "below"], (), false, []⟩

theorem two_callbacks_balanced :
    ∃ fuel n s', mumbleHookCall (tickHost fun _ => .returned [.nil]) fuel "OnTick" 1
        (tickState [.other 7]) = .ok (n, s') ∧
      s'.stack = [.string "below"] ∧
      s'.calls = [⟨1, [.other 0, .other 7]⟩, ⟨2, [.other 0, .other 7]⟩] := by
  refine (hook_call_balanced_iff (tickHost fun _ => .returned [.nil]) "OnTick"
    (tickState [.other 7]) [.other 7] [.string "below"] rfl (by decide)).mpr ?_
  intro visit hmem
  have hmet : visit = ⟨1, .other 0, .returned [.nil]⟩ ∨
      visit = ⟨2, .other 0, .returned [.nil]⟩ := by
    simpa [hookVisits, visits, tickHost, tickState, Host.client] using hmem
  rcases hmet with rfl | rfl
  · exact ⟨⟨_, rfl⟩, rfl⟩
  · exact ⟨⟨_, rfl⟩, rfl⟩

/-- An error in a callback unbalances the stack, also where there is no OnError
hook that could raise another one. -/
theorem raising_callback_unbalances :
    ¬ ∀ (host : Host Unit) (hook : String) (s : State Unit) (args below : List Value),
      s.stack = args.reverse ++ below → -2 < host.self s.world →
      (∀ message w, ∀ visit ∈ (hookVisits host true [message] "OnError" w).1, visit.Returned) →
      ∃ fuel n s', mumbleHookCall host fuel hook args.length s = .ok (n, s') ∧
        s'.stack = below ∧
        s'.calls = s.calls ++ (hookVisits host s.erroring args hook s.world).1.map
          fun visit => ⟨visit.function, host.client s.world :: args⟩ := by
  intro h
  obtain ⟨fuel, n, s', hrun, _⟩ := h (tickHost fun _ => .raised .nil) "OnTick" (tickState []) []
    [.string "below"] rfl (by decide) (by
      intro message w visit hmem
      simp [hookVisits, tickHost] at hmem)
  have hiff := hookCall_iff (tickHost fun _ => .raised .nil) "OnTick" [] [.string "below"] ()
    false [] (some 0) (by decide) (Or.inr rfl) (fun _ => nested_takes_message _) (n, s')
  obtain ⟨hall, _⟩ := hiff.mp ⟨fuel, hrun⟩
  obtain ⟨results, hreturned⟩ := hall ⟨1, .other 0, .raised .nil⟩ (by
    simp [hookVisits, visits, tickHost, Host.client])
  cases hreturned

end LuaMumble.Hook
