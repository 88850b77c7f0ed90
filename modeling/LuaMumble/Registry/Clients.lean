import LuaMumble.Registry.Handles

/-!
The references of a client. `mumble_client_new` takes four of them and sets `client->self`, but
it leaves `client->encoder_ref` as it finds it; `mumble_client_connect` takes that one once it has
got as far as the encoder. `client_gc` gives all five of the registry back.
-/

namespace LuaMumble.Registry

open Lib

/-- The references of a `MumbleClient`. -/
inductive ClientVar where
  | hooks
  | users
  | channels
  | audioStreams
  | encoderRef
  | self
  deriving DecidableEq

/-- The variables: those of the clients, by number, and all others. -/
inductive Var (K : Type) where
  | client (number : Nat) (var : ClientVar)
  | other (k : K)
  deriving DecidableEq

/-- Clients refer to themselves in `MUMBLE_CLIENTS`, and to the rest in the registry. Other
variables may be in the table of a client. -/
def Var.home {K : Type} (home : K → Option (Name (Var K))) : Var K → Option (Name (Var K))
  | .client _ .self => some (.global .clients)
  | .client _ _ => none
  | .other k => home k

/-- What lies in the variables before they are set: `encoder_ref` has what the memory had. -/
def Var.initial {K : Type} (stale : Nat → Int) (initial : K → Int) : Var K → Int
  | .client number .encoderRef => stale number
  | .client _ _ => noRef
  | .other k => initial k

variable {V K : Type} [DecidableEq K]

/-- The references that `mumble_client_new` takes to new tables. -/
def mumbleClientNew (number hooks users channels audioStreams : Nat) : List (Event V (Var K)) :=
  [.ref (.client number .hooks) (some (.table hooks)),
    .ref (.client number .users) (some (.table users)),
    .ref (.client number .channels) (some (.table channels)),
    .ref (.client number .audioStreams) (some (.table audioStreams))]

/-- The references that `client_gc` gives back. -/
def clientGc (number : Nat) : List (Event V (Var K)) :=
  [.unref (.client number .hooks), .unref (.client number .users),
    .unref (.client number .channels), .unref (.client number .audioStreams),
    .unref (.client number .encoderRef)]

section Unset

variable (objlen : RefTable.Objlen (Object V))
variable {L : Type} [DecidableEq L] {place : L → Option (Name L)} {s : State V L} {h : Held V L}

/-- A variable that was never set gives back a reference of the registry that another one has.
The next variable that takes a reference there gets the same one, and the other variable finds
its object. -/
theorem Sound.unset_unref (hs : Sound place s h) {stale held taker : L} {object : Object V}
    (hholds : h.holds held = some object) (hsame : s.vars stale = s.vars held)
    (hplaces : place stale = none ∧ place held = none ∧ place taker = none)
    (htaker : held ≠ taker) (hstale : held ≠ stale) (value : Object V) :
    let s' := Machine.final (Registry.step objlen place) s [.unref stale, .ref taker (some value)]
    s'.vars taker = s'.vars held ∧
      (Registry.step objlen place s' (.pushref held)).1 = .pushed (.value value) := by
  obtain ⟨hplace, hplace', hplace''⟩ := hplaces
  have hserves := hs.serves none
  obtain ⟨free, n, hkept⟩ := hserves.kept
  have hregistry : h.place place (.own held) = some none := by
    simp only [Held.place, Name.table, hplace']
  have hread := hserves.reads (.own held) hregistry object hholds
  simp only [State.tableAt, State.reference] at hkept hread
  have hrange := hkept.of_value? hread
  have hset : s.vars held ≠ noRef := by
    intro hno
    rw [hno] at hrange
    exact absurd hrange.1 (by decide)
  -- The reference of the held object is now the first free one.
  obtain ⟨hkept', -⟩ := hkept.unref hread
  have href : RefTable.ref objlen (s.lua.registry.unref (s.vars held)) (some value) =
      (s.vars held, (s.lua.registry.unref (s.vars held)).reuse (s.vars held) value) := by
    rcases hkept'.ref_cases objlen value with ⟨r, rest, hfree, heq⟩ | ⟨hfree, -⟩
    · obtain ⟨rfl, -⟩ := List.cons.inj hfree
      exact heq
    · cases hfree
  simp only [Machine.final, Registry.step, hplace, hplace', hplace'', State.assign, mumbleUnref,
    hsame, if_neg hset, mumbleRef, href, mumblePushref, Function.update_of_ne htaker,
    Function.update_of_ne hstale, Function.update_self, true_and]
  exact congrArg Output.pushed (Function.update_self ..)

end Unset

section Runs

variable (objlen : RefTable.Objlen (Object V)) {home : K → Option (Name K)}

theorem ready_put {h : Held V K} {k : K} (hhome : home k = none) (hready : h.ready k) (k' : K)
    (value : Option (Object V)) : (h.put home k' value).ready k := by
  refine ⟨?_, .inr hready⟩
  rw [hhome]
  exact nofun

/-- A variable of the registry that was set stays so. -/
theorem ready_final {h : Held V K} {k : K} (hhome : home k = none) (hready : h.ready k)
    (events : List (Event V K)) : (Machine.final (Held.step home) h events).ready k := by
  refine Machine.invariant_final (fun h => h.ready k) ?_ h events hready
  intro h e hready
  cases e with
  | ref k' value => exact ready_put hhome hready k' value
  | unref k' => exact ready_put hhome hready k' none
  | pushref k' => exact hready
  | move k' k'' => exact ready_put hhome (ready_put hhome hready k'' _) k' none

theorem Sound.final {s : State V K} {h : Held V K} (hs : Sound home s h)
    (events : List (Event V K))
    (hset : Machine.Along (Held.step home) (SetBefore home) h events) :
    Sound home (Machine.final (Registry.step objlen home) s events)
      (Machine.final (Held.step home) h events) := by
  induction events generalizing s h with
  | nil => exact hs
  | cons e rest ih => exact ih (hs.step objlen e hset.1).2 hset.2

theorem assign_vars_of_ne (s : State V K) {k k' : K} (hk : k ≠ k')
    (result : Option (Int × Lua V)) : (s.assign k' result).2.vars k = s.vars k := by
  cases result with
  | none => rfl
  | some result => exact Function.update_of_ne hk _ _

theorem step_vars (s : State V K) {e : Event V K} {k : K} (hsets : ¬ e.Sets k) :
    (step objlen home s e).2.vars k = s.vars k := by
  cases e with
  | ref k' value =>
      have hk : k ≠ k' := fun hk => hsets hk.symm
      simp only [step]
      split <;> exact assign_vars_of_ne s hk _
  | unref k' =>
      have hk : k ≠ k' := fun hk => hsets hk.symm
      simp only [step]
      split <;> exact assign_vars_of_ne s hk _
  | pushref k' =>
      simp only [step]
      split
      · rfl
      · split <;> rfl
  | move k' k'' =>
      have hk : k ≠ k' := fun hk => hsets (.inl hk.symm)
      have hk' : k ≠ k'' := fun hk => hsets (.inr hk.symm)
      simp only [step]
      rw [Function.update_of_ne hk, Function.update_of_ne hk']

theorem put_holds {h : Held V K} {k k' : K} (hhome : home k = none) (hk : k ≠ k')
    (value : Option (Object V)) : (h.put home k' value).holds k = h.holds k := by
  have hne : home k ≠ some (.own k') := by
    rw [hhome]
    exact nofun
  simp only [Held.put, if_neg hne]
  exact Function.update_of_ne hk _ _

theorem step_holds (h : Held V K) {e : Event V K} {k : K} (hhome : home k = none)
    (hsets : ¬ e.Sets k) : (h.step home e).2.holds k = h.holds k := by
  cases e with
  | ref k' value => exact put_holds hhome (fun hk => hsets hk.symm) value
  | unref k' => exact put_holds hhome (fun hk => hsets hk.symm) none
  | pushref k' => rfl
  | move k' k'' =>
      exact (put_holds hhome (fun hk => hsets (.inl hk.symm)) none).trans
        (put_holds hhome (fun hk => hsets (.inr hk.symm)) _)

/-- A variable of the registry is left alone by events that do not set it. -/
theorem final_unset (s : State V K) (h : Held V K) {k : K} (hhome : home k = none)
    (events : List (Event V K)) (hsets : ∀ e ∈ events, ¬ e.Sets k) :
    (Machine.final (step objlen home) s events).vars k = s.vars k ∧
      (Machine.final (Held.step home) h events).holds k = h.holds k := by
  induction events generalizing s h with
  | nil => exact ⟨rfl, rfl⟩
  | cons e rest ih =>
      obtain ⟨hvars, hholds⟩ := ih (step objlen home s e).2 (h.step home e).2
        fun e' he' => hsets e' (List.mem_cons_of_mem _ he')
      have he := hsets e List.mem_cons_self
      exact ⟨hvars.trans (step_vars objlen s he), hholds.trans (step_holds h hhome he)⟩

end Runs

/-- **Collecting a client that never connected.** In every state that the program comes to, if
what lies in `client->encoder_ref` of such a client is the reference of another variable of the
registry, then after `client_gc` the next variable that takes a reference there gets the same one:
the other variable, still in use, finds the object of the new one. -/
theorem unconnected_client_shares (objlen : RefTable.Objlen (Object V))
    (home : K → Option (Name (Var K))) (stale : Nat → Int) (initial : K → Int)
    (events : List (Event V (Var K)))
    (hset : Machine.Along (Held.step (Var.home home)) (SetBefore (Var.home home))
      (Held.start (V := V) (Var.initial stale initial)) events)
    (number : Nat) (hunconnected : ∀ e ∈ events, ¬ e.Sets (.client number .encoderRef))
    (held taker : Var K) (object value : Object V)
    (hholds : (Machine.final (Held.step (Var.home home))
      (Held.start (Var.initial stale initial)) events).holds held = some object)
    (hsame : stale number = (Machine.final (step objlen (Var.home home))
      (luaopenMumble objlen (Var.initial stale initial)) events).vars held)
    (hheld : held.home home = none ∧ ∀ var, held ≠ .client number var)
    (htaker : taker.home home = none ∧ held ≠ taker) :
    let s := Machine.final (step objlen (Var.home home))
      (luaopenMumble objlen (Var.initial stale initial))
      (events ++ clientGc number ++ [.ref taker (some value)])
    s.vars taker = s.vars held ∧
      (step objlen (Var.home home) s (.pushref held)).1 = .pushed (.value value) := by
  have hsound := (sound_start objlen (Var.home home) (Var.initial stale initial)).final objlen
    events hset
  have hencoder : (Var.client number .encoderRef : Var K).home home = none := rfl
  have hstale := (final_unset objlen (luaopenMumble objlen (Var.initial stale initial))
    (Held.start (Var.initial stale initial)) hencoder events hunconnected).1
  have hready : ∀ var, var ≠ .encoderRef → (Var.client number var).home home = none →
      (Machine.final (Held.step (Var.home home))
        (Held.start (V := V) (Var.initial stale initial)) events).ready (.client number var) := by
    intro var hvar hhome
    apply ready_final hhome
    cases var <;> first | exact absurd rfl hvar | exact (by decide : noRef < 0)
  rw [Machine.final_append, Machine.final_append]
  generalize Machine.final (step objlen (Var.home home))
    (luaopenMumble objlen (Var.initial stale initial)) events = s at hsame hstale hsound ⊢
  generalize Machine.final (Held.step (Var.home home)) (Held.start (Var.initial stale initial))
    events = h at hready hholds hsound
  -- The four references that were taken are given back as they should be.
  have htaken : h.ready (.client number .hooks) ∧ h.ready (.client number .users) ∧
      h.ready (.client number .channels) ∧ h.ready (.client number .audioStreams) :=
    ⟨hready .hooks (by decide) rfl, hready .users (by decide) rfl,
      hready .channels (by decide) rfl, hready .audioStreams (by decide) rfl⟩
  have hfour := hsound.final objlen
    [.unref (.client number .hooks), .unref (.client number .users),
      .unref (.client number .channels), .unref (.client number .audioStreams)]
    (by simpa [Machine.Along, SetBefore, Held.step, Held.HasHome, Held.put, Var.home] using htaken)
  have hleft : ∀ k, (∀ var, var ≠ .encoderRef → k ≠ .client number var) →
      ∀ e ∈ [Event.unref (.client number .hooks), .unref (.client number .users),
        .unref (.client number .channels), .unref (.client number .audioStreams)],
        ¬ (e : Event V (Var K)).Sets k := by
    intro k hk e he
    simp only [List.mem_cons, List.not_mem_nil, or_false] at he
    rcases he with rfl | rfl | rfl | rfl <;>
      exact fun heq => hk _ (by decide) heq.symm
  obtain ⟨hheldVars, hheldHolds⟩ := final_unset objlen s h hheld.1 _
    (hleft held fun var _ => hheld.2 var)
  obtain ⟨hstaleVars, -⟩ := final_unset objlen s h hencoder _
    (hleft (.client number .encoderRef) fun var hvar heq => hvar (Var.client.inj heq).2.symm)
  exact hfour.unset_unref objlen (hheldHolds.trans hholds)
    (hstaleVars.trans ((hstale.trans hsame).trans hheldVars.symm)) ⟨rfl, hheld.1, htaker.1⟩ htaker.2
    (hheld.2 _) value

omit [DecidableEq K] in
/-- The first reference that is taken after the five tables of the module. -/
theorem first_reference (objlen : RefTable.Objlen (Object V)) (initial : K → Int) (v : Object V) :
    (mumbleRef objlen (luaopenMumble objlen initial).lua (some v)).1 = 6 := by
  obtain ⟨hclients, hkept⟩ := (RefTable.kept_empty (V := Object V)).ref_next objlen
    (.table Global.clients.id)
  obtain ⟨htimers, hkept⟩ := hkept.ref_next objlen (.table Global.timerReg.id)
  obtain ⟨hthreads, hkept⟩ := hkept.ref_next objlen (.table Global.threadReg.id)
  obtain ⟨hpipes, hkept⟩ := hkept.ref_next objlen (.table Global.pipeReg.id)
  obtain ⟨hdata, hkept⟩ := hkept.ref_next objlen (.table Global.dataReg.id)
  simp only [luaopenMumble, mumbleRef, hclients, htimers, hthreads, hpipes, hdata,
    (hkept.ref_next objlen v).1]
  rfl

/-- Client 1 is made and collected while client 0 is in use, and client 2 is made: the hooks of
client 0 are those of client 2 from then on. -/
theorem unconnected_client_shares_hooks :
    let s := Machine.final (step (RefTable.firstBorder (Object Nat))
      (Var.home fun _ : Unit => none))
      (luaopenMumble (RefTable.firstBorder (Object Nat)) (Var.initial (fun _ => 6) fun _ => 0))
      (mumbleClientNew 0 10 11 12 13 ++ mumbleClientNew 1 14 15 16 17 ++ clientGc 1 ++
        [.ref (.client 2 .hooks) (some (.table 20))])
    s.vars (.client 2 .hooks) = s.vars (.client 0 .hooks) ∧
      (step (RefTable.firstBorder (Object Nat)) (Var.home fun _ => none) s
        (.pushref (.client 0 .hooks))).1 = .pushed (.value (.table 20)) := by
  apply unconnected_client_shares (RefTable.firstBorder (Object Nat)) (fun _ : Unit => none)
    (fun _ => 6) (fun _ => 0) (mumbleClientNew 0 10 11 12 13 ++ mumbleClientNew 1 14 15 16 17) ?_ 1
    ?_ (.client 0 .hooks) (.client 2 .hooks) (.table 10) (.table 20) ?_ ?_ ⟨rfl, by simp⟩
    ⟨rfl, by simp⟩
  · simp [Machine.Along, mumbleClientNew, SetBefore, Held.HasHome, Var.home]
  · simp [mumbleClientNew, Event.Sets]
  · simp [mumbleClientNew, Machine.final, Held.step, Held.put, Var.home]
  · have hfirst := first_reference (RefTable.firstBorder (Object Nat))
      (Var.initial (K := Unit) (fun _ => 6) fun _ => 0) (.table 10)
    simp [mumbleClientNew, Machine.final, step, Var.home, State.assign, hfirst]

end LuaMumble.Registry
