import LuaMumble.Hook.Call

/-!
What a hook call does to the callbacks of its table. `visits` is the traversal
in its own terms: the callbacks met in the order of the keys, each with the
client it is given and the way it ends. The lemmas on `hookLoop` say what one
round of the loop does to the stack; a round that keeps no results leaves it as
it was, and a round whose callback raises an error never ends well, because the
hook call for OnError has already taken the message away.
-/

namespace LuaMumble.Hook

open Lib

/-- One callback met by a traversal. -/
structure Visit where
  function : Nat
  client : Value
  outcome : Outcome
  deriving DecidableEq

def Visit.Returned (visit : Visit) : Prop :=
  ∃ results, visit.outcome = .returned results

def Visit.call (args : List Value) (visit : Visit) : Call :=
  ⟨visit.function, visit.client :: args⟩

section Visits

variable {W : Type} (host : Host W) (erroring : Bool) (args : List Value) (t : Nat)

/-- The callbacks under some keys of a table, run one after another, and the
state of the program after them. -/
def visits : W → List Value → List Visit × W
  | w, [] => ([], w)
  | w, key :: keys =>
      match host.get w (.table t) key with
      | .function f =>
          let (outcome, w') := host.invoke w erroring f (host.client w :: args)
          let (later, w'') := visits w' keys
          (⟨f, host.client w, outcome⟩ :: later, w'')
      | _ => visits w keys

variable {host erroring args t}

theorem visits_skip {w : W} {skipped keys : List Value}
    (h : ∀ key ∈ skipped, host.get w (.table t) key = .nil) :
    visits host erroring args t w (skipped ++ keys) = visits host erroring args t w keys := by
  induction skipped with
  | nil => rfl
  | cons key skipped ih =>
      obtain ⟨hkey, hrest⟩ := List.forall_mem_cons.mp h
      rw [List.cons_append, visits, hkey]
      exact ih hrest

theorem keysAfter_suffix {keys later : List Value} {k : Value}
    (h : keysAfter keys k = some later) : later <:+ keys := by
  unfold keysAfter at h
  split_ifs at h
  · obtain rfl := Option.some.inj h
    exact List.suffix_refl _
  · obtain rfl := Option.some.inj h
    exact (List.tail_suffix _).trans (List.dropWhile_suffix _)

theorem keysAfter_append {before later : List Value} {k : Value}
    (hnodup : (before ++ k :: later).Nodup) (hnil : k ≠ .nil) :
    keysAfter (before ++ k :: later) k = some later := by
  have hnotin : ∀ key ∈ before, decide (key ≠ k) = true := by
    intro key hmem
    have hdisjoint := (List.nodup_append.mp hnodup).2.2 key hmem k (List.mem_cons_self ..)
    simpa using hdisjoint
  have hdrop : (before ++ k :: later).dropWhile (fun key => decide (key ≠ k)) = k :: later := by
    rw [List.dropWhile_append_of_pos hnotin, List.dropWhile_cons_of_neg (by simp)]
  rw [keysAfter, if_neg hnil, if_pos (by simp), hdrop, List.tail_cons]

/-- Where a traversal goes from a key: to the end, or over keys without a value
to the next entry, from where it goes on. -/
theorem next_entry (w : W) {k : Value} {keys : List Value}
    (hkeys : keysAfter (host.keys (.table t)) k = some keys) :
    (keys.find? (fun key => decide (host.get w (.table t) key ≠ .nil)) = none ∧
      ∀ key ∈ keys, host.get w (.table t) key = .nil) ∨
    ∃ skipped key later, keys = skipped ++ key :: later ∧
      (∀ key ∈ skipped, host.get w (.table t) key = .nil) ∧
      keys.find? (fun key => decide (host.get w (.table t) key ≠ .nil)) = some key ∧
      keysAfter (host.keys (.table t)) key = some later := by
  cases hfind : keys.find? fun key => decide (host.get w (.table t) key ≠ .nil) with
  | none =>
      refine Or.inl ⟨rfl, ?_⟩
      intro key hmem
      simpa using List.find?_eq_none.mp hfind key hmem
  | some key =>
      obtain ⟨_, skipped, later, rfl, hskipped⟩ := List.find?_eq_some_iff_append.mp hfind
      obtain ⟨before, hbefore⟩ := keysAfter_suffix hkeys
      have hsplit : host.keys (.table t) = (before ++ skipped) ++ key :: later := by
        rw [← hbefore, List.append_assoc]
      have hnil : key ≠ .nil := by
        rintro rfl
        exact host.nil_not_key (.table t) (by simp [hsplit])
      refine Or.inr ⟨skipped, key, later, rfl, ?_, rfl, ?_⟩
      · intro key' hmem
        simpa using hskipped key' hmem
      · have hnodup := host.keys_nodup (.table t)
        rw [hsplit] at hnodup ⊢
        exact keysAfter_append hnodup hnil

/-- Where no callback changes the table, the callbacks met are its functions in
the order of their keys. -/
theorem visits_functions (w : W) (keys : List Value)
    (hkept : ∀ w f arguments key,
      host.get (host.invoke w erroring f arguments).2 (.table t) key =
        host.get w (.table t) key) :
    (visits host erroring args t w keys).1.map Visit.function =
      keys.filterMap fun key => (host.get w (.table t) key).function? := by
  induction keys generalizing w with
  | nil => rfl
  | cons key keys ih =>
      rw [List.filterMap_cons, visits]
      cases hvalue : host.get w (.table t) key with
      | function f =>
          have hlater := ih (host.invoke w erroring f (host.client w :: args)).2
          simp only [hkept] at hlater
          exact congrArg (List.cons f) hlater
      | nil | string _ | table _ | other _ => exact ih w

end Visits

section Operations

variable {W : Type} (host : Host W) {w : W} {erroring : Bool} {calls : List Call}

theorem ok_bind {α β : Type} (a : α) (f : α → Except Stop β) : (Except.ok a >>= f) = f a := rfl

theorem error_bind {α β : Type} (stop : Stop) (f : α → Except Stop β) :
    (Except.error stop >>= f) = .error stop := rfl

theorem update_some (s : State W) (stack : List Value) :
    s.update (some stack) = .ok { s with stack := stack } := rfl

theorem luaNext_end {floor t : Nat} {k : Value} {keys rest : List Value}
    (hfloor : floor ≤ rest.length) (hkeys : keysAfter (host.keys (.table t)) k = some keys)
    (hfind : keys.find? (fun key => decide (host.get w (.table t) key ≠ .nil)) = none) :
    luaNext host floor ⟨k :: .table t :: rest, w, erroring, calls⟩ (-2) =
      .ok (false, ⟨.table t :: rest, w, erroring, calls⟩) := by
  have hslot : 1 + floor < (k :: Value.table t :: rest).length := by
    simp only [List.length_cons]
    omega
  simp only [luaNext, LuaStack.slot_second, LuaStack.get_second, hslot, if_true, hkeys, hfind]

theorem luaNext_entry {floor t : Nat} {k key : Value} {keys rest : List Value}
    (hfloor : floor ≤ rest.length) (hkeys : keysAfter (host.keys (.table t)) k = some keys)
    (hfind : keys.find? (fun key => decide (host.get w (.table t) key ≠ .nil)) = some key) :
    luaNext host floor ⟨k :: .table t :: rest, w, erroring, calls⟩ (-2) =
      .ok (true, ⟨host.get w (.table t) key :: key :: .table t :: rest, w, erroring, calls⟩) := by
  have hslot : 1 + floor < (k :: Value.table t :: rest).length := by
    simp only [List.length_cons]
    omega
  simp only [luaNext, LuaStack.slot_second, LuaStack.get_second, hslot, if_true, hkeys, hfind]

theorem takeCall_args (client : Value) (f : Nat) (args rest : List Value) :
    takeCall (args.reverse ++ client :: .function f :: rest) (args.length + 1) =
      some (⟨f, client :: args⟩, rest) := by
  have hshape : args.reverse ++ client :: .function f :: rest =
      (client :: args).reverse ++ .function f :: rest := by simp
  have hlength : args.length + 1 = (client :: args).reverse.length := by simp
  rw [hshape, hlength, takeCall, List.drop_left, List.take_left, List.reverse_reverse]

end Operations

section Entry

variable {W : Type} (host : Host W) (onError : State W → Except Stop (State W))
  {w : W} {erroring : Bool} {calls : List Call} (kept : Kept) (nresults : Option Nat)
  (k : Value) (above args below : List Value)

theorem callEntry_value {frame : Frame} {v : Value} {rest : List Value}
    (hv : v.isFunction = false) :
    callEntry host onError frame kept ⟨v :: k :: rest, w, erroring, calls⟩ =
      .ok (kept, ⟨k :: v :: k :: rest, w, erroring, calls⟩) := by
  cases v with
  | function f => cases hv
  | nil | string _ | table _ | other _ =>
      simp only [callEntry, LuaStack.pushValue_second, update_some, ok_bind, LuaStack.get_second]
      rfl

/-- The results that a callback leaves on the stack. -/
def keptResults (erroring : Bool) (nresults : Option Nat) (results : List Value) : List Value :=
  if erroring then [] else adjust nresults results

/-- The callback, the client and the arguments pushed. -/
theorem pushValues_call (f : Nat) (client : Value) :
    LuaStack.pushValues
      (client :: .function f :: k :: .function f :: k :: (above ++ args.reverse ++ below))
      below.length args.length =
      some (args.reverse ++ client :: .function f :: k :: .function f :: k ::
        (above ++ args.reverse ++ below)) := by
  have hpush := LuaStack.pushValues_args (client :: .function f :: k :: .function f :: k :: above)
    args below (Nat.le_refl args.length)
  simpa using hpush

/-- The slots around a protected call, where `rest` is what lies below the
callback: the traceback function goes under the callback, and stays there. -/
theorem insert_traceback (f : Nat) (client : Value) (rest : List Value) :
    LuaStack.insert (.function host.traceback :: (args.reverse ++ client :: .function f :: rest))
        (rest.length + 1) =
      some (args.reverse ++ client :: .function f :: .function host.traceback :: rest) := by
  have hinsert := LuaStack.insert_append (.function host.traceback)
    (args.reverse ++ [client, .function f]) rest
  simpa using hinsert

theorem get_traceback (f : Nat) (client : Value) (rest : List Value) :
    LuaStack.get (args.reverse ++ client :: .function f :: .function host.traceback :: rest)
      (rest.length + 1) = some (.function host.traceback) := by
  have hget := LuaStack.get_append (args.reverse ++ [client, .function f]) rest
    (.function host.traceback)
  simpa using hget

theorem top_base (f : Nat) (client : Value) (rest : List Value) :
    State.top (⟨args.reverse ++ client :: .function f :: rest, w, erroring, calls⟩ : State W) -
      (args.length + 1) = rest.length + 1 := by
  simp only [State.top, List.length_append, List.length_reverse, List.length_cons]
  omega

theorem top_results (results rest : List Value) (v : Value) :
    State.top (⟨results.reverse ++ v :: rest, w, erroring, calls⟩ : State W) -
      (rest.length + 1) = results.length := by
  simp only [State.top, List.length_append, List.length_reverse, List.length_cons]
  omega

theorem callEntry_returned (calls : List Call) {f : Nat} {results : List Value} {w' : W}
    (hinvoke : host.invoke w erroring f (host.client w :: args) = (.returned results, w')) :
    callEntry host onError ⟨below.length, args.length, nresults⟩ kept
        ⟨.function f :: k :: (above ++ args.reverse ++ below), w, erroring, calls⟩ =
      let results := keptResults erroring nresults results
      let rest := k :: .function f :: k :: (above ++ args.reverse ++ below)
      let calls := calls ++ [⟨f, host.client w :: args⟩]
      if !kept.returned && results.length > 0 then
        .ok (⟨true, results.length⟩, ⟨results.reverse ++ rest, w', erroring, calls⟩)
      else .ok (kept, ⟨rest, w', erroring, calls⟩) := by
  simp only [callEntry, LuaStack.pushValue_second, update_some, ok_bind, LuaStack.get_second,
    State.push, pushValues_call]
  cases erroring with
  | true =>
      simp only [if_true, luaCall, takeCall_args, hinvoke, ok_bind, keptResults]
      simp [adjust]
      rfl
  | false =>
      have hfloor : below.length ≤
          (k :: .function f :: k :: (above ++ args.reverse ++ below)).length := by
        simp only [List.length_cons, List.length_append]
        omega
      have hpop (rs : List Value) := LuaStack.pop_append rs.reverse hfloor
      simp only [List.length_reverse] at hpop
      simp only [Bool.false_eq_true, if_false, top_base, Int.natCast_add, Int.cast_ofNat_Int,
        insert_traceback, update_some, ok_bind, luaPcall, takeCall_args, get_traceback, hinvoke,
        if_true, top_results, LuaStack.remove_append hfloor, keptResults, hpop]
      split
      · rfl
      · rfl

/-- A callback that raises an error is the end of the hook call: with the
message taken away by OnError, the pop takes the traceback function and the
removal finds no slot. -/
theorem callEntry_raised (calls : List Call) {f : Nat} {message : Value} {w' : W}
    (hinvoke : host.invoke w erroring f (host.client w :: args) = (.raised message, w'))
    (honError : erroring = false → ∀ v rest calls s,
      onError ⟨v :: rest, w', true, calls⟩ = .ok s → s.stack = rest) :
    ∃ stop, callEntry host onError ⟨below.length, args.length, nresults⟩ kept
        ⟨.function f :: k :: (above ++ args.reverse ++ below), w, erroring, calls⟩ =
      .error stop := by
  simp only [callEntry, LuaStack.pushValue_second, update_some, ok_bind, LuaStack.get_second,
    State.push, pushValues_call]
  cases erroring with
  | true =>
      simp only [if_true, luaCall, takeCall_args, hinvoke, error_bind]
      exact ⟨_, rfl⟩
  | false =>
      simp only [Bool.false_eq_true, if_false, top_base, Int.natCast_add, Int.cast_ofNat_Int,
        insert_traceback, update_some, ok_bind, luaPcall, takeCall_args, get_traceback, hinvoke]
      cases hcall : onError _ with
      | error stop => exact ⟨stop, rfl⟩
      | ok s =>
          have hstack := honError rfl _ _ _ _ hcall
          have hfloor : below.length ≤
              (k :: .function f :: k :: (above ++ args.reverse ++ below)).length := by
            simp only [List.length_cons, List.length_append]
            omega
          simp only [ok_bind, hstack, LuaStack.pop_one _ hfloor, update_some,
            LuaStack.remove_past_top]
          exact ⟨.fault, rfl⟩

end Entry

section Rounds

variable {W : Type} (host : Host W) (w : W) (erroring : Bool) (calls : List Call) (kept : Kept)
  (nresults : Option Nat) (fuel : Nat) {t : Nat} {k key : Value} {keys : List Value}
  (above args below : List Value)

/-- A round of the loop at the last entry. -/
theorem hookLoop_end (hkeys : keysAfter (host.keys (.table t)) k = some keys)
    (hfind : keys.find? (fun key => decide (host.get w (.table t) key ≠ .nil)) = none) :
    hookLoop host (fuel + 1) ⟨below.length, args.length, nresults⟩ kept
        ⟨k :: .table t :: (above ++ args.reverse ++ below), w, erroring, calls⟩ =
      .ok (kept, ⟨.table t :: (above ++ args.reverse ++ below), w, erroring, calls⟩) := by
  have hfloor : below.length ≤ (above ++ args.reverse ++ below).length := by
    rw [List.length_append]
    omega
  rw [hookLoop, luaNext_end host hfloor hkeys hfind, ok_bind]
  rfl

theorem hookLoop_value (hkeys : keysAfter (host.keys (.table t)) k = some keys)
    (hfind : keys.find? (fun key => decide (host.get w (.table t) key ≠ .nil)) = some key)
    (hvalue : (host.get w (.table t) key).isFunction = false) :
    hookLoop host (fuel + 1) ⟨below.length, args.length, nresults⟩ kept
        ⟨k :: .table t :: (above ++ args.reverse ++ below), w, erroring, calls⟩ =
      hookLoop host fuel ⟨below.length, args.length, nresults⟩ kept
        ⟨key :: .table t :: (above ++ args.reverse ++ below), w, erroring, calls⟩ := by
  have hfloor : below.length ≤ (above ++ args.reverse ++ below).length := by
    rw [List.length_append]
    omega
  have hpop : below.length ≤ (key :: .table t :: (above ++ args.reverse ++ below)).length := by
    simp only [List.length_cons]
    omega
  rw [hookLoop, luaNext_entry host hfloor hkeys hfind, ok_bind]
  simp only [if_true, callEntry_value host _ kept key hvalue, ok_bind, LuaStack.pop_two _ _ hpop,
    update_some]

/-- A round whose callback returns: the results that are kept shift what the pop
of the key and the value takes away. -/
theorem hookLoop_returned {f : Nat} {results : List Value} {w' : W}
    (hkeys : keysAfter (host.keys (.table t)) k = some keys)
    (hfind : keys.find? (fun key => decide (host.get w (.table t) key ≠ .nil)) = some key)
    (hvalue : host.get w (.table t) key = .function f)
    (hinvoke : host.invoke w erroring f (host.client w :: args) = (.returned results, w')) :
    hookLoop host (fuel + 1) ⟨below.length, args.length, nresults⟩ kept
        ⟨k :: .table t :: (above ++ args.reverse ++ below), w, erroring, calls⟩ =
      let results := keptResults erroring nresults results
      let rest := key :: .table t :: (above ++ args.reverse ++ below)
      let calls := calls ++ [⟨f, host.client w :: args⟩]
      if !kept.returned && results.length > 0 then
        hookLoop host fuel ⟨below.length, args.length, nresults⟩ ⟨true, results.length⟩
          ⟨(results.reverse ++ key :: .function f :: rest).drop 2, w', erroring, calls⟩
      else
        hookLoop host fuel ⟨below.length, args.length, nresults⟩ kept
          ⟨rest, w', erroring, calls⟩ := by
  have hfloor : below.length ≤ (above ++ args.reverse ++ below).length := by
    rw [List.length_append]
    omega
  have hrest : below.length ≤ (key :: .table t :: (above ++ args.reverse ++ below)).length := by
    simp only [List.length_cons]
    omega
  have hentry := fun onError => callEntry_returned host onError kept nresults key
    (.table t :: above) args below calls hinvoke
  simp only [List.cons_append] at hentry
  rw [hookLoop, luaNext_entry host hfloor hkeys hfind, ok_bind, hvalue]
  simp only [if_true, hentry]
  split
  · have hpop (rs : List Value) : LuaStack.pop below.length (rs.reverse ++ key :: .function f ::
        key :: .table t :: (above ++ args.reverse ++ below)) 2 = some ((rs.reverse ++ key ::
          .function f :: key :: .table t :: (above ++ args.reverse ++ below)).drop 2) := by
      rw [LuaStack.pop, if_pos]
      simp only [List.length_append, List.length_cons]
      omega
    simp only [ok_bind, hpop, update_some]
  · simp only [ok_bind, LuaStack.pop_two _ _ hrest, update_some]

/-- The hook call for OnError, where it returns, takes its argument away. -/
def NestedTakesMessage : Prop :=
  ∀ fuel v rest w calls n s,
    hookCallWith host (hookLoop host fuel) "OnError" 1 (some 0) ⟨v :: rest, w, true, calls⟩ =
      .ok (n, s) → s.stack = rest

theorem hookLoop_raised {f : Nat} {message : Value} {w' : W}
    (hkeys : keysAfter (host.keys (.table t)) k = some keys)
    (hfind : keys.find? (fun key => decide (host.get w (.table t) key ≠ .nil)) = some key)
    (hvalue : host.get w (.table t) key = .function f)
    (hinvoke : host.invoke w erroring f (host.client w :: args) = (.raised message, w'))
    (hnested : erroring = false → NestedTakesMessage host) :
    ∃ stop, hookLoop host (fuel + 1) ⟨below.length, args.length, nresults⟩ kept
        ⟨k :: .table t :: (above ++ args.reverse ++ below), w, erroring, calls⟩ =
      .error stop := by
  have hfloor : below.length ≤ (above ++ args.reverse ++ below).length := by
    rw [List.length_append]
    omega
  let onError := fun s =>
    (·.2) <$> hookCallWith host (hookLoop host fuel) "OnError" 1 (some 0) s
  have honError : erroring = false → ∀ v rest calls s,
      onError ⟨v :: rest, w', true, calls⟩ = .ok s → s.stack = rest := by
    intro herroring v rest calls s hcall
    cases hresult : hookCallWith host (hookLoop host fuel) "OnError" 1 (some 0)
        ⟨v :: rest, w', true, calls⟩ with
    | error stop =>
        simp only [onError, hresult] at hcall
        cases hcall
    | ok result =>
        obtain ⟨n, s'⟩ := result
        simp only [onError, hresult] at hcall
        obtain rfl : s' = s := Except.ok.inj hcall
        exact hnested herroring fuel v rest w' calls n s' hresult
  obtain ⟨stop, hentry⟩ := callEntry_raised host onError kept nresults key
    (.table t :: above) args below calls hinvoke honError
  simp only [List.cons_append] at hentry
  rw [hookLoop, luaNext_entry host hfloor hkeys hfind, ok_bind, hvalue]
  simp only [if_true]
  exact ⟨stop, by rw [hentry, error_bind]⟩

theorem exists_fuel_succ {frame : Frame} {s : State W} {r : Kept × State W} :
    (∃ fuel, hookLoop host fuel frame kept s = .ok r) ↔
      ∃ fuel, hookLoop host (fuel + 1) frame kept s = .ok r := by
  constructor
  · rintro ⟨fuel, hrun⟩
    cases fuel with
    | zero => cases hrun
    | succ fuel => exact ⟨fuel, hrun⟩
  · rintro ⟨fuel, hrun⟩
    exact ⟨fuel + 1, hrun⟩

/-- The loop where no results are kept any more: it ends well exactly when every
callback returns, and then it has met the callbacks of the traversal and left the
table on the stack. By induction on the keys that are left. -/
theorem hookLoop_iff (hdrops : erroring = true ∨ kept.returned = true ∨ nresults = some 0)
    (hnested : erroring = false → NestedTakesMessage host) (r : Kept × State W)
    (hkeys : keysAfter (host.keys (.table t)) k = some keys) :
    (∃ fuel, hookLoop host fuel ⟨below.length, args.length, nresults⟩ kept
        ⟨k :: .table t :: (above ++ args.reverse ++ below), w, erroring, calls⟩ = .ok r) ↔
      (∀ visit ∈ (visits host erroring args t w keys).1, visit.Returned) ∧
        r = (kept, ⟨.table t :: (above ++ args.reverse ++ below),
          (visits host erroring args t w keys).2, erroring,
          calls ++ (visits host erroring args t w keys).1.map (Visit.call args)⟩) := by
  induction hcount : keys.length using Nat.strongRecOn
    generalizing keys k w calls with
  | _ count ih =>
      rw [exists_fuel_succ]
      rcases next_entry w hkeys with
        ⟨hfind, hnone⟩ | ⟨skipped, key, later, rfl, hskipped, hfind, hlater⟩
      · have hvisits : visits host erroring args t w (keys ++ []) =
            visits host erroring args t w [] := visits_skip hnone
        rw [List.append_nil] at hvisits
        have hround := fun fuel => hookLoop_end host w erroring calls kept nresults fuel above args
          below hkeys hfind
        simp only [hround, hvisits, visits, Except.ok.injEq, exists_const, eq_comm (a := r)]
        simp
      · have hless : later.length < count := by
          rw [← hcount, List.length_append, List.length_cons]
          omega
        rw [visits_skip hskipped]
        cases hvalue : host.get w (.table t) key with
        | function f =>
            cases hinvoke : host.invoke w erroring f (host.client w :: args) with
            | mk outcome w' =>
                cases outcome with
                | returned results =>
                    have hnot : (!kept.returned &&
                        (keptResults erroring nresults results).length > 0) = false := by
                      rcases hdrops with rfl | hreturned | rfl
                      · simp [keptResults]
                      · simp [hreturned]
                      · cases erroring <;> simp [keptResults, adjust]
                    have hround := fun fuel => hookLoop_returned host w erroring calls kept
                      nresults fuel above args below hkeys hfind hvalue hinvoke
                    simp only [hnot, Bool.false_eq_true, if_false] at hround
                    simp only [hround]
                    rw [ih later.length hless _ _ hlater rfl]
                    simp only [visits, hvalue, hinvoke, List.mem_cons, forall_eq_or_imp,
                      List.map_cons, List.append_assoc, List.singleton_append]
                    simp [Visit.Returned, Visit.call]
                | raised message =>
                    simp only [visits, hvalue, hinvoke]
                    constructor
                    · rintro ⟨fuel, hrun⟩
                      obtain ⟨stop, hstop⟩ := hookLoop_raised host w erroring calls kept
                        nresults fuel above args below hkeys hfind hvalue hinvoke hnested
                      rw [hstop] at hrun
                      cases hrun
                    · rintro ⟨hall, _⟩
                      obtain ⟨results, hreturned⟩ := hall _ (List.mem_cons_self ..)
                      cases hreturned
        | nil | string _ | table _ | other _ =>
            have hnot : (host.get w (.table t) key).isFunction = false := by rw [hvalue]; rfl
            have hround := fun fuel => hookLoop_value host w erroring calls kept nresults fuel
              above args below hkeys hfind hnot
            simp only [hround]
            rw [ih later.length hless _ _ hlater rfl]
            simp only [visits, hvalue]

end Rounds

end LuaMumble.Hook
