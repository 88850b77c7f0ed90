import LuaMumble.Hook.Balance

/-!
A hook call that asks for all results. The results of the first callback that
returns any stay on the stack, above the key, the value and the copy of the key
of that round, and the round then pops two values as if they were not there: the
last two results, or the copy of the key. From then on the loop takes whatever
lies on top for its table and its key. Nothing else goes wrong, so the hook call
returns the results exactly when there are none, or when what lies there happens
to do as well.
-/

namespace LuaMumble.Hook

open Lib

def Visit.results (visit : Visit) : List Value :=
  match visit.outcome with
  | .returned results => results
  | .raised _ => []

/-- The first list of results that is not empty. -/
def firstResults (met : List Visit) : List Value :=
  ((met.map Visit.results).find? fun results => results ≠ []).getD []

/-- The callback whose results are kept: the key it is under, the keys after it,
and the calls and the state of the program up to and with it. -/
structure Responder (W : Type) where
  world : W
  key : Value
  function : Nat
  results : List Value
  later : List Value
  calls : List Call

section Traversal

variable {W : Type} (host : Host W) (args : List Value) (t : Nat)

def firstResponder : W → List Value → Option (Responder W)
  | _, [] => none
  | w, key :: keys =>
      match host.get w (.table t) key with
      | .function f =>
          let call := ⟨f, host.client w :: args⟩
          match host.invoke w false f (host.client w :: args) with
          | (.returned (result :: results), w') =>
              some ⟨w', key, f, result :: results, keys, [call]⟩
          | (_, w') =>
              (firstResponder w' keys).map fun r => { r with calls := call :: r.calls }
      | _ => firstResponder w keys

/-- The values above the arguments once the results are kept: the table, the key,
the callback, the copy of the key, and the results. -/
def Responder.slots {W : Type} (r : Responder W) : List Value :=
  [.table t, r.key, .function r.function, r.key] ++ r.results

/-- What lies two slots below the top after the pop, and on top of it, are a
table and a key of it, with as many values below them as there are results, and
these are the results; and from that key on, the table has callbacks that all
return and make the calls still due. -/
def Responder.Lucky (r : Responder W) : Prop :=
  (r.slots t).take r.results.length = r.results ∧
    ∃ t' key later, (r.slots t)[r.results.length]? = some (.table t') ∧
      (r.slots t)[r.results.length + 1]? = some key ∧
      keysAfter (host.keys (.table t')) key = some later ∧
      (∀ visit ∈ (visits host false args t' r.world later).1, visit.Returned) ∧
      (visits host false args t' r.world later).1.map (Visit.call args) =
        (visits host false args t r.world r.later).1.map (Visit.call args)

variable {host args t}

theorem firstResponder_skip {w : W} {skipped keys : List Value}
    (h : ∀ key ∈ skipped, host.get w (.table t) key = .nil) :
    firstResponder host args t w (skipped ++ keys) = firstResponder host args t w keys := by
  induction skipped with
  | nil => rfl
  | cons key skipped ih =>
      obtain ⟨hkey, hrest⟩ := List.forall_mem_cons.mp h
      rw [List.cons_append, firstResponder, hkey]
      exact ih hrest

/-- The calls of a traversal are those up to the responder and those after it. -/
theorem firstResponder_calls {w : W} {keys : List Value} {r : Responder W}
    (h : firstResponder host args t w keys = some r) :
    (visits host false args t w keys).1.map (Visit.call args) =
      r.calls ++ (visits host false args t r.world r.later).1.map (Visit.call args) := by
  induction keys generalizing w r with
  | nil => cases h
  | cons key keys ih =>
      cases hvalue : host.get w (.table t) key with
      | function f =>
          cases hinvoke : host.invoke w false f (host.client w :: args) with
          | mk outcome w' =>
              simp only [visits, hvalue, hinvoke, List.map_cons]
              cases outcome with
              | returned results =>
                  cases results with
                  | nil =>
                      simp only [firstResponder, hvalue, hinvoke] at h
                      obtain ⟨r', hr', rfl⟩ := Option.map_eq_some_iff.mp h
                      exact congrArg (List.cons _) (ih hr')
                  | cons result results =>
                      simp only [firstResponder, hvalue, hinvoke] at h
                      obtain rfl := Option.some.inj h
                      rfl
              | raised message =>
                  simp only [firstResponder, hvalue, hinvoke] at h
                  obtain ⟨r', hr', rfl⟩ := Option.map_eq_some_iff.mp h
                  exact congrArg (List.cons _) (ih hr')
      | nil | string _ | table _ | other _ =>
          simp only [firstResponder, hvalue] at h
          simp only [visits, hvalue]
          exact ih h

theorem results_returned (f : Nat) (client : Value) (results : List Value) :
    Visit.results ⟨f, client, .returned results⟩ = results := rfl

theorem firstResults_cons (visit : Visit) (met : List Visit) :
    firstResults (visit :: met) =
      if visit.results = [] then firstResults met else visit.results := by
  unfold firstResults
  rw [List.map_cons, List.find?_cons]
  split_ifs with hempty
  · simp [hempty]
  · simp [hempty]

/-- The responder is the first callback that returns anything. -/
theorem firstResponder_results {w : W} {keys : List Value}
    (hall : ∀ visit ∈ (visits host false args t w keys).1, visit.Returned) :
    match firstResponder host args t w keys with
    | some r => r.results ≠ [] ∧ firstResults (visits host false args t w keys).1 = r.results
    | none => ∀ visit ∈ (visits host false args t w keys).1, visit.results = [] := by
  induction keys generalizing w with
  | nil => simp [firstResponder, visits]
  | cons key keys ih =>
      cases hvalue : host.get w (.table t) key with
      | function f =>
          cases hinvoke : host.invoke w false f (host.client w :: args) with
          | mk outcome w' =>
              simp only [visits, hvalue, hinvoke] at hall ⊢
              obtain ⟨⟨results, hreturned⟩, hlater⟩ := List.forall_mem_cons.mp hall
              obtain rfl : outcome = .returned results := hreturned
              have hrest := ih hlater
              cases results with
              | nil =>
                  simp only [firstResponder, hvalue, hinvoke]
                  cases hfirst : firstResponder host args t w' keys with
                  | none =>
                      rw [hfirst] at hrest
                      simp only [Option.map_none]
                      exact List.forall_mem_cons.mpr ⟨rfl, hrest⟩
                  | some r =>
                      rw [hfirst] at hrest
                      simp only [Option.map_some]
                      refine ⟨hrest.1, ?_⟩
                      rw [firstResults_cons, results_returned, if_pos rfl]
                      exact hrest.2
              | cons result results =>
                  simp only [firstResponder, hvalue, hinvoke]
                  refine ⟨List.cons_ne_nil _ _, ?_⟩
                  rw [firstResults_cons, results_returned, if_neg (List.cons_ne_nil _ _)]
      | nil | string _ | table _ | other _ =>
          simp only [visits, hvalue] at hall ⊢
          simp only [firstResponder, hvalue]
          exact ih hall

theorem firstResults_eq_nil_iff (met : List Visit) :
    firstResults met = [] ↔ ∀ visit ∈ met, visit.results = [] := by
  induction met with
  | nil => simp [firstResults]
  | cons visit met ih =>
      rw [firstResults_cons, List.forall_mem_cons]
      split_ifs with hempty
      · rw [ih, and_iff_right hempty]
      · simp [hempty]

end Traversal

section Loop

variable {W : Type} (host : Host W) (args below : List Value) {t : Nat}

/-- The loop once results are kept, from whatever lies on top of the stack. -/
theorem hookLoop_resumed_iff {w : W} {calls : List Call} {nreturns : Nat} (above : List Value)
    (k v : Value) (r : Kept × State W) :
    (∃ fuel, hookLoop host fuel ⟨below.length, args.length, none⟩ ⟨true, nreturns⟩
        ⟨k :: v :: (above ++ args.reverse ++ below), w, false, calls⟩ = .ok r) ↔
      ∃ t' later, v = .table t' ∧ keysAfter (host.keys (.table t')) k = some later ∧
        (∀ visit ∈ (visits host false args t' w later).1, visit.Returned) ∧
        r = (⟨true, nreturns⟩, ⟨.table t' :: (above ++ args.reverse ++ below),
          (visits host false args t' w later).2, false,
          calls ++ (visits host false args t' w later).1.map (Visit.call args)⟩) := by
  have hfloor : 1 + below.length < (k :: v :: (above ++ args.reverse ++ below)).length := by
    simp only [List.length_cons, List.length_append]
    omega
  cases v with
  | table t' =>
      cases hkeys : keysAfter (host.keys (.table t')) k with
      | some later =>
          have hnext := hookLoop_iff host w false calls ⟨true, nreturns⟩ none above args
            below (Or.inr (Or.inl rfl))
            (fun _ => nested_takes_message host) r hkeys
          rw [hnext]
          constructor
          · rintro ⟨hall, hr⟩
            exact ⟨t', later, rfl, hkeys, hall, hr⟩
          · rintro ⟨_, later', hv, hlater', hall, hr⟩
            cases hv
            obtain rfl := Option.some.inj (hkeys.symm.trans hlater')
            exact ⟨hall, hr⟩
      | none =>
          rw [exists_fuel_succ]
          constructor
          · rintro ⟨fuel, hrun⟩
            simp only [hookLoop, luaNext, LuaStack.slot_second, LuaStack.get_second, hfloor,
              if_true, hkeys, error_bind] at hrun
            cases hrun
          · rintro ⟨_, later', hv, hlater', _⟩
            cases hv
            rw [hkeys] at hlater'
            cases hlater'
  | nil | string _ | function _ | other _ =>
      rw [exists_fuel_succ]
      constructor
      · rintro ⟨fuel, hrun⟩
        simp only [hookLoop, luaNext, LuaStack.slot_second, LuaStack.get_second,
          error_bind] at hrun
        cases hrun
      · rintro ⟨_, _, hv, _⟩
        cases hv

/-- The pop of two values, with the results on top of the slots of the round. -/
theorem drop_two_slots (x : Responder W) (rest : List Value) :
    (x.results.reverse ++ x.key :: .function x.function :: x.key :: .table t :: rest).drop 2 =
      ((x.slots t).take (x.results.length + 2)).reverse ++ rest := by
  have hlength : (x.slots t).length = x.results.length + 4 := by
    simp [Responder.slots]
  have hshape : x.results.reverse ++ x.key :: .function x.function :: x.key :: .table t :: rest =
      (x.slots t).reverse ++ rest := by
    simp [Responder.slots]
  have htwo : (x.slots t).length - (x.results.length + 2) = 2 := by omega
  rw [hshape, List.drop_append_of_le_length (by rw [List.length_reverse]; omega),
    List.reverse_take, htwo]

/-- The loop up to the first callback that returns anything. -/
theorem hookLoop_first_iff {w : W} (calls : List Call) {k : Value} {keys : List Value}
    (hkeys : keysAfter (host.keys (.table t)) k = some keys)
    (hall : ∀ visit ∈ (visits host false args t w keys).1, visit.Returned)
    (r : Kept × State W) :
    (∃ fuel, hookLoop host fuel ⟨below.length, args.length, none⟩ ⟨false, 0⟩
        ⟨k :: .table t :: (args.reverse ++ below), w, false, calls⟩ = .ok r) ↔
      match firstResponder host args t w keys with
      | none => r = (⟨false, 0⟩, ⟨.table t :: (args.reverse ++ below),
          (visits host false args t w keys).2, false,
          calls ++ (visits host false args t w keys).1.map (Visit.call args)⟩)
      | some x => ∃ fuel, hookLoop host fuel ⟨below.length, args.length, none⟩
          ⟨true, x.results.length⟩
          ⟨((x.slots t).take (x.results.length + 2)).reverse ++ args.reverse ++ below, x.world,
            false, calls ++ x.calls⟩ = .ok r := by
  induction hcount : keys.length using Nat.strongRecOn generalizing keys k w calls with
  | _ count ih =>
      rw [exists_fuel_succ]
      rcases next_entry w hkeys with
        ⟨hfind, hnone⟩ | ⟨skipped, key, later, rfl, hskipped, hfind, hlater⟩
      · have hvisits : visits host false args t w (keys ++ []) = visits host false args t w [] :=
          visits_skip hnone
        have hfirst : firstResponder host args t w (keys ++ []) =
            firstResponder host args t w [] := firstResponder_skip hnone
        have hround := fun fuel => hookLoop_end host w false calls ⟨false, 0⟩ none fuel [] args
          below hkeys hfind
        rw [List.append_nil] at hvisits hfirst
        simp only [List.nil_append] at hround
        simp only [hround, hfirst, hvisits, firstResponder, visits, Except.ok.injEq,
          exists_const, eq_comm (a := r)]
        simp
      · have hless : later.length < count := by
          rw [← hcount, List.length_append, List.length_cons]
          omega
        rw [visits_skip hskipped] at hall ⊢
        rw [firstResponder_skip hskipped]
        cases hvalue : host.get w (.table t) key with
        | function f =>
            cases hinvoke : host.invoke w false f (host.client w :: args) with
            | mk outcome w' =>
                simp only [visits, hvalue, hinvoke] at hall
                obtain ⟨⟨results, hreturned⟩, hrest⟩ := List.forall_mem_cons.mp hall
                obtain rfl : outcome = .returned results := hreturned
                have hround := fun fuel => hookLoop_returned host w false calls ⟨false, 0⟩ none
                  fuel [] args below hkeys hfind hvalue hinvoke
                simp only [List.nil_append] at hround
                simp only [hround]
                cases results with
                | nil =>
                    have hround' : ¬ (keptResults false none []).length > 0 := by decide
                    simp only [hround', decide_false, Bool.and_false, Bool.false_eq_true, if_false]
                    rw [ih later.length hless _ hlater hrest rfl]
                    simp only [firstResponder, visits, hvalue, hinvoke]
                    cases firstResponder host args t w' later with
                    | none => simp [Visit.call]
                    | some x => simp [Responder.slots]
                | cons result results =>
                    have hkept : keptResults false none (result :: results) =
                        result :: results := rfl
                    have hpositive : (result :: results).length > 0 := Nat.succ_pos _
                    have hdrop := drop_two_slots (t := t) ⟨w', key, f, result :: results, later,
                      [⟨f, host.client w :: args⟩]⟩ (args.reverse ++ below)
                    rw [← List.append_assoc _ args.reverse below] at hdrop
                    dsimp only at hdrop
                    simp only [hkept, hpositive, decide_true, Bool.and_true, Bool.not_false,
                      if_true, firstResponder, hvalue, hinvoke]
                    rw [hdrop]
        | nil | string _ | table _ | other _ =>
            have hnot : (host.get w (.table t) key).isFunction = false := by rw [hvalue]; rfl
            have hround := fun fuel => hookLoop_value host w false calls ⟨false, 0⟩ none fuel []
              args below hkeys hfind hnot
            simp only [List.nil_append] at hround
            simp only [visits, hvalue] at hall
            simp only [hround]
            rw [ih later.length hless _ hlater hall rfl]
            simp only [firstResponder, visits, hvalue]

/-- A hook call in which no callback returns anything. -/
theorem hookCall_silent_iff {w : W} (calls : List Call) {hook : String}
    (hself : ¬ host.self w ≤ -2)
    (hvalue : host.get w (.table (host.hooks w)) (.string hook) = .table t)
    (hall : ∀ visit ∈ (visits host false args t w (host.keys (.table t))).1, visit.Returned)
    (hfirst : firstResponder host args t w (host.keys (.table t)) = none)
    (r : Nat × State W) :
    (∃ fuel, mumbleHookCallRet host fuel hook args.length none
        ⟨args.reverse ++ below, w, false, calls⟩ = .ok r) ↔
      r = (0, ⟨below, (visits host false args t w (host.keys (.table t))).2, false,
        calls ++ (visits host false args t w (host.keys (.table t))).1.map (Visit.call args)⟩) := by
  have hkeys : keysAfter (host.keys (.table t)) .nil = some (host.keys (.table t)) := rfl
  have hloop := fun r => hookLoop_first_iff host args below calls hkeys hall r
  simp only [hfirst] at hloop
  have hafter : afterLoop args below ⟨false, 0⟩ ⟨.table t :: (args.reverse ++ below),
      (visits host false args t w (host.keys (.table t))).2, false,
      calls ++ (visits host false args t w (host.keys (.table t))).1.map (Visit.call args)⟩ = _ :=
    afterLoop_eq args below ⟨false, 0⟩ [] (.table t)
  rw [hookCall_loop_iff host hook args below hself hvalue]
  simp only [hloop]
  constructor
  · rintro ⟨kept, s, hresult, hrun⟩
    obtain ⟨rfl, rfl⟩ := Prod.mk.inj hresult
    exact Except.ok.inj (hrun.symm.trans hafter)
  · rintro rfl
    exact ⟨_, _, rfl, hafter⟩

/-- A hook call in which a callback responds. -/
theorem hookCall_responder_iff {w : W} (calls : List Call) {hook : String} {x : Responder W}
    (hself : ¬ host.self w ≤ -2)
    (hvalue : host.get w (.table (host.hooks w)) (.string hook) = .table t)
    (hall : ∀ visit ∈ (visits host false args t w (host.keys (.table t))).1, visit.Returned)
    (hfirst : firstResponder host args t w (host.keys (.table t)) = some x)
    (r : Nat × State W) :
    (∃ fuel, mumbleHookCallRet host fuel hook args.length none
        ⟨args.reverse ++ below, w, false, calls⟩ = .ok r) ↔
      ∃ t' key later, (x.slots t)[x.results.length]? = some (.table t') ∧
        (x.slots t)[x.results.length + 1]? = some key ∧
        keysAfter (host.keys (.table t')) key = some later ∧
        (∀ visit ∈ (visits host false args t' x.world later).1, visit.Returned) ∧
        r = (x.results.length, ⟨((x.slots t).take x.results.length).reverse ++ below,
          (visits host false args t' x.world later).2, false, calls ++ x.calls ++
            (visits host false args t' x.world later).1.map (Visit.call args)⟩) := by
  have hkeys : keysAfter (host.keys (.table t)) .nil = some (host.keys (.table t)) := rfl
  have hlength : (x.slots t).length = x.results.length + 4 := by
    simp [Responder.slots]
  have htake : ((x.slots t).take (x.results.length + 2)).reverse =
      (x.slots t)[x.results.length + 1] :: (x.slots t)[x.results.length] ::
        ((x.slots t).take x.results.length).reverse := by
    rw [List.take_succ_eq_append_getElem (by omega), List.take_succ_eq_append_getElem (by omega)]
    simp
  have hloop := fun r => hookLoop_first_iff host args below calls hkeys hall r
  simp only [hfirst, htake, List.cons_append] at hloop
  rw [hookCall_loop_iff host hook args below hself hvalue]
  simp only [hloop, hookLoop_resumed_iff]
  simp only [List.getElem?_eq_getElem (show x.results.length < (x.slots t).length by omega),
    List.getElem?_eq_getElem (show x.results.length + 1 < (x.slots t).length by omega),
    Option.some.injEq]
  constructor
  · rintro ⟨kept, s, ⟨t', later, hslot, hlater, hreturn, hresult⟩, hafter⟩
    obtain ⟨rfl, rfl⟩ := Prod.mk.inj hresult
    have hend := hafter.symm.trans (afterLoop_eq args below _ _ _)
    exact ⟨t', _, later, hslot, rfl, hlater, hreturn, Except.ok.inj hend⟩
  · rintro ⟨t', _, later, hslot, rfl, hlater, hreturn, rfl⟩
    exact ⟨_, _, ⟨t', later, hslot, hlater, hreturn, rfl⟩, afterLoop_eq args below _ _ _⟩

/-- A run that keeps no results ends well for no results only. -/
theorem silent_run_iff {w w' : W} {erroring : Bool} {calls done : List Call} {hook : String}
    {results : List Value}
    (hrun : ∀ r, (∃ fuel, mumbleHookCallRet host fuel hook args.length none
      ⟨args.reverse ++ below, w, erroring, calls⟩ = .ok r) ↔ r = (0, ⟨below, w', erroring, done⟩)) :
    (∃ fuel s', mumbleHookCallRet host fuel hook args.length none
        ⟨args.reverse ++ below, w, erroring, calls⟩ = .ok (results.length, s') ∧
      s'.stack = results.reverse ++ below ∧ s'.calls = done) ↔ results = [] := by
  constructor
  · rintro ⟨fuel, s', hcall, -⟩
    obtain ⟨hcount, -⟩ := Prod.mk.inj ((hrun _).mp ⟨fuel, hcall⟩)
    exact List.length_eq_zero_iff.mp hcount
  · rintro rfl
    obtain ⟨fuel, hcall⟩ := (hrun _).mpr rfl
    exact ⟨fuel, _, hcall, rfl, rfl⟩

/-- A run with a response ends well just when the slots behind it are lucky. -/
theorem responder_run_iff {w : W} (calls : List Call) {hook : String} {x : Responder W}
    (hself : ¬ host.self w ≤ -2)
    (hvalue : host.get w (.table (host.hooks w)) (.string hook) = .table t)
    (hall : ∀ visit ∈ (visits host false args t w (host.keys (.table t))).1, visit.Returned)
    (hfirst : firstResponder host args t w (host.keys (.table t)) = some x) :
    (∃ fuel s', mumbleHookCallRet host fuel hook args.length none
        ⟨args.reverse ++ below, w, false, calls⟩ = .ok (x.results.length, s') ∧
      s'.stack = x.results.reverse ++ below ∧
      s'.calls = calls ++
        (visits host false args t w (host.keys (.table t))).1.map (Visit.call args)) ↔
      x.Lucky host args t := by
  have hrun := hookCall_responder_iff host args below calls hself hvalue hall hfirst
  rw [firstResponder_calls hfirst]
  constructor
  · rintro ⟨fuel, s', hcall, hstack, hcalls⟩
    obtain ⟨t', key, later, htable, hkey, hlater, hreturn, hresult⟩ := (hrun _).mp ⟨fuel, hcall⟩
    obtain ⟨-, rfl⟩ := Prod.mk.inj hresult
    have hslots := List.reverse_injective (List.append_cancel_right hstack)
    rw [List.append_assoc] at hcalls
    have hdue := List.append_cancel_left (List.append_cancel_left hcalls)
    exact ⟨hslots, t', key, later, htable, hkey, hlater, hreturn, hdue⟩
  · rintro ⟨hslots, t', key, later, htable, hkey, hlater, hreturn, hdue⟩
    obtain ⟨fuel, hcall⟩ := (hrun _).mpr ⟨t', key, later, htable, hkey, hlater, hreturn, rfl⟩
    refine ⟨fuel, _, hcall, by rw [hslots], ?_⟩
    rw [List.append_assoc, hdue]

end Loop

/-- Some callback responds, and what lies on the stack after it will do. -/
def LuckyResults {W : Type} (host : Host W) (args : List Value) (hook : String) (w : W) : Prop :=
  ∃ t r, host.get w (.table (host.hooks w)) (.string hook) = .table t ∧
    firstResponder host args t w (host.keys (.table t)) = some r ∧ r.Lucky host args t

theorem referenced_results_iff {W : Type} (host : Host W) (hook : String) (s : State W)
    (args below : List Value) (hstack : s.stack = args.reverse ++ below)
    (hself : -2 < host.self s.world)
    (hall : ∀ visit ∈ (hookVisits host s.erroring args hook s.world).1, visit.Returned) :
    let met := (hookVisits host s.erroring args hook s.world).1
    let results := firstResults met
    (∃ fuel s', mumbleHookCallRet host fuel hook args.length none s = .ok (results.length, s') ∧
        s'.stack = results.reverse ++ below ∧
        s'.calls = s.calls ++ met.map (Visit.call args)) ↔
      (∀ visit ∈ met, visit.results = []) ∨
        s.erroring = false ∧ LuckyResults host args hook s.world := by
  obtain ⟨stack, w, erroring, calls⟩ := s
  obtain rfl : stack = args.reverse ++ below := hstack
  intro met results
  have hself' : ¬ host.self w ≤ -2 := Int.not_le.mpr hself
  have hempty : results = [] ↔ ∀ visit ∈ met, visit.results = [] := firstResults_eq_nil_iff met
  rw [← hempty]
  cases erroring with
  | true =>
      have hrun := fun r => hookCall_iff host hook args below w true calls none hself' (Or.inl rfl)
        (fun h => by cases h) r
      rw [silent_run_iff host args below fun r => (hrun r).trans (and_iff_right hall)]
      simp
  | false =>
      cases hvalue : host.get w (.table (host.hooks w)) (.string hook) with
      | table t =>
          have hmet : (hookVisits host false args hook w) =
              visits host false args t w (host.keys (.table t)) := by
            simp only [hookVisits, hvalue]
          have hall' : ∀ visit ∈ (visits host false args t w (host.keys (.table t))).1,
              visit.Returned := by
            rw [← hmet]
            exact hall
          have hresponse := firstResponder_results hall'
          rw [← hmet] at hresponse
          cases hfirst : firstResponder host args t w (host.keys (.table t)) with
          | none =>
              rw [hfirst] at hresponse
              have hnone : results = [] := hempty.mpr hresponse
              have hrun := hookCall_silent_iff host args below calls hself' hvalue hall' hfirst
              rw [← hmet] at hrun
              rw [silent_run_iff host args below hrun]
              simp [hnone]
          | some x =>
              rw [hfirst] at hresponse
              obtain ⟨hsome, hfound⟩ := hresponse
              have hresults : results = x.results := hfound
              have hrun := responder_run_iff host args below calls hself' hvalue hall' hfirst
              rw [← hmet] at hrun
              rw [hresults]
              refine hrun.trans ⟨fun hlucky => .inr ⟨rfl, t, x, hvalue, hfirst, hlucky⟩, ?_⟩
              rintro (hnone | ⟨-, t', x', hvalue', hfirst', hlucky⟩)
              · exact absurd hnone hsome
              · obtain rfl : t = t' := Value.table.inj (hvalue.symm.trans hvalue')
                obtain rfl : x = x' := Option.some.inj (hfirst.symm.trans hfirst')
                exact hlucky
      | nil | string _ | function _ | other _ =>
          have hnot : (host.get w (.table (host.hooks w)) (.string hook)).isTable = false := by
            rw [hvalue]
            rfl
          have hmet : hookVisits host false args hook w = ([], w) := by
            simp only [hookVisits, hvalue]
          have hcall := fun fuel => hookCallWith_noTable host (hookLoop host fuel) args below
            false calls none hself' hnot
          have hnone : results = [] := by
            change firstResults (hookVisits host false args hook w).1 = []
            rw [hmet]
            rfl
          have hrun (r : Nat × State W) : (∃ fuel, mumbleHookCallRet host fuel hook args.length none
              ⟨args.reverse ++ below, w, false, calls⟩ = .ok r) ↔
                r = (0, ⟨below, w, false, calls ++ met.map (Visit.call args)⟩) := by
            have hmet' : met = [] := congrArg Prod.fst hmet
            simp only [mumbleHookCallRet, hcall, Except.ok.injEq, exists_const, eq_comm (a := r),
              hmet', List.map_nil, List.append_nil]
          rw [silent_run_iff host args below hrun]
          simp [hnone]

/-- A hook call that asks for all results, with callbacks that all return. It
returns the first results that are not empty, in the place of its arguments, and
calls each callback once, if and only if no callback returns anything, or it
does not run inside a hook call for OnError and what lies on the stack after the
first response happens to do; on a client that is not referenced, if and only if
there is no callback. -/
theorem first_results_iff {W : Type} (host : Host W) (hook : String) (s : State W)
    (args below : List Value) (hstack : s.stack = args.reverse ++ below)
    (hall : ∀ visit ∈ (hookVisits host s.erroring args hook s.world).1, visit.Returned) :
    let met := (hookVisits host s.erroring args hook s.world).1
    let results := firstResults met
    (∃ fuel s', mumbleHookCallRet host fuel hook args.length none s = .ok (results.length, s') ∧
        s'.stack = results.reverse ++ below ∧
        s'.calls = s.calls ++ met.map (Visit.call args)) ↔
      if host.self s.world ≤ -2 then met = []
      else (∀ visit ∈ met, visit.results = []) ∨
        s.erroring = false ∧ LuckyResults host args hook s.world := by
  intro met results
  split_ifs with hself
  · obtain ⟨stack, w, erroring, calls⟩ := s
    obtain rfl : stack = args.reverse ++ below := hstack
    have hcall := fun fuel => hookCallWith_unreferenced host (hookLoop host fuel) args below
      erroring calls hook none hself
    simp only [mumbleHookCallRet, hcall]
    constructor
    · rintro ⟨_, s', hrun, _, hcalls⟩
      obtain ⟨_, rfl⟩ := Prod.mk.inj (Except.ok.inj hrun)
      exact List.map_eq_nil_iff.mp (List.append_right_eq_self.mp hcalls.symm)
    · intro hnone
      have hresults : results = [] := by
        change firstResults met = []
        rw [hnone]
        rfl
      exact ⟨0, _, by rw [hresults]; rfl, by rw [hresults]; rfl, by rw [hnone]; simp⟩
  · exact referenced_results_iff host hook s args below hstack (Int.not_le.mp hself) hall

/-- The second callback of OnTick returns what lies on the stack below its
results anyway. -/
def luckyOutcome (f : Nat) : Outcome :=
  .returned (if f = 2 then [.table 1, .string "second", .function 2, .string "second"] else [])

theorem lucky_results_returned :
    ∃ fuel s', mumbleHookCallRet (tickHost luckyOutcome) fuel "OnTick" 1 none
        (tickState [.other 7]) = .ok (4, s') ∧
      s'.stack = [.string "second", .function 2, .string "second", .table 1, .string "below"] ∧
      s'.calls = [⟨1, [.other 0, .other 7]⟩, ⟨2, [.other 0, .other 7]⟩] := by
  refine (first_results_iff (tickHost luckyOutcome) "OnTick" (tickState [.other 7]) [.other 7]
    [.string "below"] rfl ?_).mpr ?_
  · intro visit hmem
    have hmet : visit = ⟨1, .other 0, luckyOutcome 1⟩ ∨ visit = ⟨2, .other 0, luckyOutcome 2⟩ := by
      simpa [hookVisits, visits, tickHost, tickState, Host.client] using hmem
    rcases hmet with rfl | rfl
    · exact ⟨_, rfl⟩
    · exact ⟨_, rfl⟩
  · rw [if_neg (by decide)]
    refine Or.inr ⟨rfl, 1, ⟨(), .string "second", 2, [.table 1, .string "second", .function 2,
      .string "second"], [], [⟨1, [.other 0, .other 7]⟩, ⟨2, [.other 0, .other 7]⟩]⟩, rfl, ?_, rfl,
      1, .string "second", [], rfl, rfl, ?_, ?_, rfl⟩
    · rfl
    · rfl
    · intro visit hmem
      cases hmem

/-- One callback that returns one value: the pop takes the value and the copy of
the key, and the loop goes on with the key in the place of its table. -/
theorem single_result_lost :
    ¬ ∀ (host : Host Unit) (hook : String) (s : State Unit) (args below : List Value),
      s.stack = args.reverse ++ below → -2 < host.self s.world → s.erroring = false →
      (∀ visit ∈ (hookVisits host s.erroring args hook s.world).1, visit.Returned) →
      let met := (hookVisits host s.erroring args hook s.world).1
      ∃ fuel s', mumbleHookCallRet host fuel hook args.length none s =
          .ok ((firstResults met).length, s') ∧
        s'.stack = (firstResults met).reverse ++ below ∧
        s'.calls = s.calls ++ met.map (Visit.call args) := by
  intro h
  let host := tickHost fun _ => .returned [.other 5]
  have hmet : (visits host false [] 1 () (host.keys (.table 1))).1 =
      [⟨1, .other 0, .returned [.other 5]⟩, ⟨2, .other 0, .returned [.other 5]⟩] := by decide
  have hall : ∀ visit ∈ (visits host false [] 1 () (host.keys (.table 1))).1, visit.Returned := by
    rw [hmet]
    intro visit hmem
    rcases List.mem_pair.mp hmem with rfl | rfl
    · exact ⟨_, rfl⟩
    · exact ⟨_, rfl⟩
  obtain ⟨fuel, s', hrun, _⟩ := h host "OnTick" (tickState []) [] [.string "below"] rfl (by decide)
    rfl hall
  have hvalue : host.get () (.table (host.hooks ())) (.string "OnTick") = .table 1 := rfl
  have hfirst : firstResponder host [] 1 () (host.keys (.table 1)) =
      some ⟨(), .string "first", 1, [.other 5], [.string "second"], [⟨1, [.other 0]⟩]⟩ := rfl
  have hresponder := hookCall_responder_iff host [] [.string "below"] [] (by decide) hvalue hall
    hfirst
  obtain ⟨_, _, _, htable, _⟩ := (hresponder _).mp ⟨fuel, hrun⟩
  cases htable

end LuaMumble.Hook
