import LuaMumble.Timer.State

/-!
Whether the userdata of a timer is there for as long as the loop uses its handle. While the
timer refers to itself the collector keeps it; `uv_close` without that reference leaves the
handle to the loop with nothing that keeps the userdata until the close callback.
-/

namespace LuaMumble.Timer

open Lib

variable {ι C H : Type}

/-- `MUMBLE_TIMER_REG` holds the timer and the callback under the references of the timer. -/
def State.Holds (s : State ι C H) (t : ι) (u : Userdata H) : Prop :=
  (∃ ref, u.self = some ref ∧ (ref, .self t) ∈ s.registry) ∧
    ∃ ref f, u.callback = some ref ∧ (ref, .callback t f) ∈ s.registry

/-- The memory of no timer was given back with a handle that is active or still to be closed,
and what an active timer calls is referred to. -/
def Outlives (loop : LoopTimer H) (s : State ι C H) : Prop :=
  ∀ t u, s.timers t = some u →
    (u.freed = true → loop.isActive u.timer = false ∧ u.pending = false) ∧
      (loop.isActive u.timer = true → s.Holds t u)

/-- However the collector goes on, every timer outlives its handle. -/
def StaysOutlived [DecidableEq ι] (loop : LoopTimer H) (registryRef : Audio.Mixer.RegistryRef)
    (s : State ι C H) : Prop :=
  ∀ collections : List (Collection ι),
    Outlives loop (Machine.final (State.step loop registryRef) s (collections.map .collect))

/-- A timer that the script drops is registered, or was closed and has no close callback to
come. -/
def KeptWhenDropped [DecidableEq ι] (s : State ι C H) : Event ι C → Prop
  | .letGo t => ∀ u, s.live t = some u →
      s.Registered t ∨ u.closed = true ∧ u.pending = false
  | _ => True

section Sound

variable {loop : LoopTimer H} {u : Userdata H}

/-- What the members of a timer say of its handle. -/
structure Sound (loop : LoopTimer H) (u : Userdata H) : Prop where
  active : loop.isActive u.timer = true →
    loop.isClosing u.timer = false ∧ u.self.isSome = true ∧ u.callback.isSome = true
  started : loop.hasCallback u.timer = true →
    loop.isClosing u.timer = true ∨ u.self.isSome = true ∧ u.callback.isSome = true
  closed : u.closed = loop.isClosing u.timer
  pending : u.pending = true → u.closed = true
  finalized : u.finalized = true → u.closed = true

theorem sound_mumbleTimerNew : Sound loop (Userdata.mumbleTimerNew loop) := by
  constructor <;> simp [Userdata.mumbleTimerNew]

/-- An operation on the handle that does not start it, and does not close it. -/
theorem Sound.handle (h : Sound loop u) {timer : H}
    (hactive : loop.isActive timer = true →
      loop.isClosing timer = false ∧ u.self.isSome = true ∧ u.callback.isSome = true)
    (hclosing : loop.isClosing timer = loop.isClosing u.timer)
    (hcallback : loop.hasCallback timer = loop.hasCallback u.timer) :
    Sound loop { u with timer := timer } := by
  refine ⟨hactive, ?_, ?_, h.pending, h.finalized⟩
  · intro hstarted
    rw [hclosing]
    apply h.started
    rw [← hcallback]
    exact hstarted
  · rw [hclosing]
    exact h.closed

theorem Sound.stop (h : Sound loop u) : Sound loop { u with timer := loop.stop u.timer } :=
  h.handle (by simp) (by simp) (by simp)

theorem Sound.setRepeat (h : Sound loop u) (rep : UInt64) :
    Sound loop { u with timer := loop.setRepeat u.timer rep } := by
  apply h.handle
  · intro hactive
    rw [loop.setRepeat_active] at hactive
    rw [loop.setRepeat_closing]
    exact h.active hactive
  · simp
  · simp

theorem Sound.expire (h : Sound loop u) :
    Sound loop { u with timer := loop.expire u.timer } := by
  apply h.handle
  · intro hactive
    rw [loop.expire_closing]
    exact h.active (loop.expire_active _ hactive)
  · simp
  · simp

theorem Sound.again (h : Sound loop u) :
    Sound loop { u with timer := (loop.again u.timer).2 } := by
  apply h.handle
  · intro hactive
    obtain ⟨hcallback, hopen⟩ := loop.again_active _ hactive
    rw [loop.again_closing]
    refine ⟨hopen, ?_⟩
    rcases h.started hcallback with hclosing | hrefs
    · rw [hopen] at hclosing
      cases hclosing
    · exact hrefs
  · simp
  · simp

theorem Sound.mumbleTimerClose (h : Sound loop u) : Sound loop (u.mumbleTimerClose loop) := by
  unfold Userdata.mumbleTimerClose
  cases hclosed : u.closed with
  | true => exact h
  | false =>
      have hopen : loop.isClosing u.timer = false := by rw [← h.closed, hclosed]
      simp only [hopen, LoopTimer.stop_closing, if_false, Bool.false_eq_true]
      constructor <;> simp

/-- A timer that is closed stays as it is. -/
theorem mumbleTimerClose_of_closed (hclosed : u.closed = true) : u.mumbleTimerClose loop = u := by
  rw [Userdata.mumbleTimerClose, if_pos hclosed]

/-- One that was open is left to the loop. -/
theorem Sound.mumbleTimerClose_of_open (h : Sound loop u) (hopen : u.closed = false) :
    u.mumbleTimerClose loop =
      { u with closed := true, timer := loop.close (loop.stop u.timer), pending := true } := by
  have hclosing : loop.isClosing u.timer = false := by rw [← h.closed, hopen]
  simp [Userdata.mumbleTimerClose, hopen, hclosing]

/-- An operation that leaves the references and the memory of a timer as they are. -/
structure Keeps (loop : LoopTimer H) (u u' : Userdata H) : Prop where
  sound : Sound loop u → Sound loop u'
  self : u'.self = u.self
  callback : u'.callback = u.callback
  freed : u'.freed = u.freed
  script : u.script = true → u'.script = true

theorem Keeps.refl (u : Userdata H) : Keeps loop u u := ⟨id, rfl, rfl, rfl, id⟩

theorem Keeps.trans {u' u'' : Userdata H} (h : Keeps loop u u') (h' : Keeps loop u' u'') :
    Keeps loop u u'' :=
  ⟨h'.sound ∘ h.sound, h'.self.trans h.self, h'.callback.trans h.callback,
    h'.freed.trans h.freed, h'.script ∘ h.script⟩

theorem keeps_handle {timer : H} (hsound : Sound loop u → Sound loop { u with timer := timer }) :
    Keeps loop u { u with timer := timer } := ⟨hsound, rfl, rfl, rfl, id⟩

theorem keeps_settings (paused : Bool) (count : UInt32) (after : UInt64) :
    Keeps loop u { u with paused := paused, count := count, after := after } := by
  refine ⟨?_, rfl, rfl, rfl, id⟩
  intro h
  exact ⟨h.active, h.started, h.closed, h.pending, h.finalized⟩

theorem keeps_mumbleTimerClose : Keeps loop u (u.mumbleTimerClose loop) := by
  refine ⟨Sound.mumbleTimerClose, ?_, ?_, ?_, ?_⟩ <;> unfold Userdata.mumbleTimerClose
  all_goals
    split
    · simp
    · dsimp only
      split <;> simp

theorem keeps_uvTimerAgain (name : String) : Keeps loop u (u.uvTimerAgain loop name).2 := by
  unfold Userdata.uvTimerAgain
  split
  · exact Keeps.refl u
  · dsimp only
    split
    · exact keeps_handle Sound.again
    · exact keeps_handle Sound.again

/-- The methods that go on where `uv_timer_again` did. -/
theorem keeps_afterAgain (name : String) {next : Userdata H → Userdata H}
    (hnext : ∀ v, Keeps loop v (next v)) :
    Keeps loop u
      (match u.uvTimerAgain loop name with
      | (.ok _, u) => ((.ok (), next u) : Except String Unit × Userdata H)
      | (.error message, u) => (.error message, u)).2 := by
  have hagain : Keeps loop u (u.uvTimerAgain loop name).2 := keeps_uvTimerAgain name
  split
  · rename_i hresult
    rw [hresult] at hagain
    exact hagain.trans (hnext _)
  · rename_i hresult
    rw [hresult] at hagain
    exact hagain

theorem keeps_mumbleActiveTimer (name : String)
    {method : Userdata H → Except String Unit × Userdata H}
    (hmethod : Keeps loop u (method u).2) :
    Keeps loop u (u.mumbleActiveTimer name method).2 := by
  unfold Userdata.mumbleActiveTimer
  split
  · exact Keeps.refl u
  · exact hmethod

theorem keeps_timerPause : Keeps loop u (u.timerPause loop).2 := by
  apply keeps_afterAgain "pause"
  intro v
  exact (keeps_handle Sound.stop).trans (keeps_settings _ _ _)

theorem keeps_timerAgain : Keeps loop u (u.timerAgain loop).2 := by
  apply keeps_mumbleActiveTimer
  apply keeps_afterAgain "again"
  intro v
  exact keeps_settings _ _ _

theorem keeps_timerResume : Keeps loop u (u.timerResume loop).2 := by
  apply keeps_mumbleActiveTimer
  apply keeps_afterAgain "resume"
  intro v
  exact keeps_settings _ _ _

theorem keeps_timerSetRepeat (rep : UInt64) : Keeps loop u (u.timerSetRepeat loop rep) :=
  keeps_handle fun h => h.setRepeat rep

theorem keeps_timerSet (after rep : UInt64) : Keeps loop u (u.timerSet loop after rep) :=
  (keeps_timerSetRepeat rep).trans (keeps_settings _ _ after)

theorem keeps_timerGc : Keeps loop u (u.timerGc loop) := by
  have hkeeps : Keeps loop u (u.mumbleTimerClose loop) := keeps_mumbleTimerClose
  refine ⟨?_, hkeeps.self, hkeeps.callback, hkeeps.freed, hkeeps.script⟩
  intro h
  have hclose := hkeeps.sound h
  refine ⟨hclose.active, hclose.started, hclose.closed, hclose.pending, ?_⟩
  intro _
  cases hclosed : u.closed with
  | true =>
      rw [Userdata.timerGc, mumbleTimerClose_of_closed hclosed]
      exact hclosed
  | false => rw [Userdata.timerGc, h.mumbleTimerClose_of_open hclosed]

theorem keeps_expire :
    Keeps loop u ({ u with timer := loop.expire u.timer }.mumbleLuaTimer loop) := by
  apply (keeps_handle Sound.expire).trans
  unfold Userdata.mumbleLuaTimer
  split
  · exact Keeps.refl _
  · refine ⟨?_, rfl, rfl, rfl, fun _ => rfl⟩
    intro h
    exact ⟨h.active, h.started, h.closed, h.pending, h.finalized⟩

theorem keeps_afterCallback : Keeps loop u (u.afterCallback loop) := by
  unfold Userdata.afterCallback
  split
  · exact keeps_mumbleTimerClose
  · exact Keeps.refl u

/-- A timer that was closed before is not touched by what closes it. -/
theorem afterCallback_of_closed (hclosed : u.closed = true) : u.afterCallback loop = u := by
  unfold Userdata.afterCallback
  rw [mumbleTimerClose_of_closed hclosed, ite_self]

end Sound

section Registry

variable {t : ι} {registry : Registry ι C} {u : Userdata H}

/-- The references of a timer are in use, for what they were taken. -/
structure Backed (registry : Registry ι C) (t : ι) (u : Userdata H) : Prop where
  self : ∀ ref, u.self = some ref → (ref, .self t) ∈ registry
  callback : ∀ ref, u.callback = some ref → ∃ f, (ref, .callback t f) ∈ registry

/-- The references of the other timers stay in use. -/
def KeepsOthers (t : ι) (registry registry' : Registry ι C) : Prop :=
  ∀ entry ∈ registry, entry.2.owner ≠ t → entry ∈ registry'

theorem Backed.of_keeps {loop : LoopTimer H} (h : Backed registry t u) {u' : Userdata H}
    (hkeeps : Keeps loop u u') : Backed registry t u' := by
  refine ⟨?_, ?_⟩
  · rw [hkeeps.self]
    exact h.self
  · rw [hkeeps.callback]
    exact h.callback

theorem Backed.of_keepsOthers {other : ι} {registry' : Registry ι C} (h : Backed registry t u)
    (hother : t ≠ other) (hkeeps : KeepsOthers other registry registry') :
    Backed registry' t u := by
  refine ⟨?_, ?_⟩
  · intro ref href
    exact hkeeps _ (h.self ref href) hother
  · intro ref href
    obtain ⟨f, hf⟩ := h.callback ref href
    exact ⟨f, hkeeps _ hf hother⟩

theorem nodup_unref (ref : Option Nat) (h : (registry.map Prod.fst).Nodup) :
    ((mumbleRegistryUnref ref registry).map Prod.fst).Nodup := by
  cases ref with
  | none => exact h
  | some ref => exact h.sublist (List.filter_sublist.map _)

theorem mem_unref_of_ne {ref : Option Nat} {entry : Nat × Held ι C} (h : entry ∈ registry)
    (hne : ref ≠ some entry.1) : entry ∈ mumbleRegistryUnref ref registry := by
  cases ref with
  | none => exact h
  | some ref =>
      apply List.mem_filter.mpr
      refine ⟨h, ?_⟩
      simpa using fun heq : entry.1 = ref => hne (congrArg some heq.symm)

/-- A reference that is given back was taken for this timer. -/
theorem keepsOthers_unref {ref : Option Nat} (hnodup : (registry.map Prod.fst).Nodup)
    (href : ∀ r, ref = some r → ∃ held, held.owner = t ∧ (r, held) ∈ registry) :
    KeepsOthers t registry (mumbleRegistryUnref ref registry) := by
  intro entry hentry howner
  apply mem_unref_of_ne hentry
  intro heq
  obtain ⟨held, hheld, hmem⟩ := href _ heq
  have hsame := List.inj_on_of_nodup_map hnodup hmem hentry rfl
  apply howner
  rw [← hsame]
  exact hheld

theorem Backed.keepsOthers_callback (h : Backed registry t u)
    (hnodup : (registry.map Prod.fst).Nodup) :
    KeepsOthers t registry (mumbleRegistryUnref u.callback registry) := by
  apply keepsOthers_unref hnodup
  intro ref href
  obtain ⟨f, hf⟩ := h.callback ref href
  exact ⟨.callback t f, rfl, hf⟩

/-- A reference to the timer is no reference to a callback. -/
theorem Backed.self_unref_callback (h : Backed registry t u)
    (hnodup : (registry.map Prod.fst).Nodup) (ref : Nat) (href : u.self = some ref) :
    (ref, .self t) ∈ mumbleRegistryUnref u.callback registry := by
  have hmem := h.self ref href
  apply mem_unref_of_ne hmem
  intro hsame
  obtain ⟨f, hf⟩ := h.callback ref hsame
  cases List.inj_on_of_nodup_map hnodup hmem hf rfl

end Registry

section Moves

variable {loop : LoopTimer H} {registryRef : Audio.Mixer.RegistryRef}
  {s s' : State ι C H} {t : ι} {u u' : Userdata H}

theorem State.live_eq_some : s.live t = some u ↔ s.timers t = some u ∧ u.freed = false := by
  simp [State.live, Option.filter_eq_some_iff]

theorem nodup_ref (held : Held ι C) (h : (s.registry.map Prod.fst).Nodup) :
    ((s.mumbleRegistryRef registryRef held).2.registry.map Prod.fst).Nodup := by
  apply List.nodup_cons.mpr
  exact ⟨registryRef.fresh _, h⟩

/-- `timer_start` first makes sure that the timer refers to itself. -/
theorem referenceSelf_spec (registryRef : Audio.Mixer.RegistryRef)
    (hnodup : (s.registry.map Prod.fst).Nodup) (hbacked : Backed s.registry t u) :
    ∃ ref s', State.referenceSelf registryRef t u s = ({ u with self := some ref }, s') ∧
      s'.timers = s.timers ∧ (s'.registry.map Prod.fst).Nodup ∧
      KeepsOthers t s.registry s'.registry ∧
      Backed s'.registry t { u with self := some ref } := by
  cases hself : u.self with
  | some ref =>
      refine ⟨ref, s, ?_, rfl, hnodup, fun _ hentry _ => hentry, ?_⟩
      · simp only [State.referenceSelf, hself]
        rw [← hself]
      · rw [← hself]
        exact hbacked
  | none =>
      refine ⟨(s.mumbleRegistryRef registryRef (.self t)).1,
        (s.mumbleRegistryRef registryRef (.self t)).2, ?_, rfl, nodup_ref _ hnodup, ?_, ?_⟩
      · simp only [State.referenceSelf, hself]
      · intro entry hentry _
        exact List.mem_cons_of_mem _ hentry
      · refine ⟨?_, ?_⟩
        · intro ref href
          cases href
          exact List.mem_cons_self
        · intro ref href
          obtain ⟨f, hf⟩ := hbacked.callback ref href
          exact ⟨f, List.mem_cons_of_mem _ hf⟩

/-- Then it exchanges the reference to the callback. -/
theorem referenceCallback_spec (registryRef : Audio.Mixer.RegistryRef) (f : C)
    (hnodup : (s.registry.map Prod.fst).Nodup) (hbacked : Backed s.registry t u) :
    ∃ ref s', State.referenceCallback registryRef t f u s = ({ u with callback := some ref }, s') ∧
      s'.timers = s.timers ∧ (s'.registry.map Prod.fst).Nodup ∧
      KeepsOthers t s.registry s'.registry ∧
      Backed s'.registry t { u with callback := some ref } := by
  refine ⟨_, _, rfl, rfl, nodup_ref _ (nodup_unref _ hnodup), ?_, ?_⟩
  · intro entry hentry howner
    apply List.mem_cons_of_mem
    exact hbacked.keepsOthers_callback hnodup entry hentry howner
  · refine ⟨?_, ?_⟩
    · intro ref href
      apply List.mem_cons_of_mem
      exact hbacked.self_unref_callback hnodup ref href
    · intro ref href
      cases href
      exact ⟨f, List.mem_cons_self⟩

/-- The references are distinct, and the timers are what their members say. -/
structure Inv (loop : LoopTimer H) (s : State ι C H) : Prop where
  nodup : (s.registry.map Prod.fst).Nodup
  sound : ∀ t u, s.timers t = some u → Sound loop u
  backed : ∀ t u, s.timers t = some u → Backed s.registry t u

theorem inv_empty : Inv loop (State.empty : State ι C H) := by
  refine ⟨List.nodup_nil, ?_, ?_⟩
  · intro t u hu
    cases hu
  · intro t u hu
    cases hu

variable [DecidableEq ι]

/-- An operation on one timer, which comes to be `u'`. -/
structure Move (loop : LoopTimer H) (t : ι) (u' : Userdata H) (s s' : State ι C H) : Prop where
  timers : s'.timers = Function.update s.timers t (some u')
  nodup : (s'.registry.map Prod.fst).Nodup
  others : KeepsOthers t s.registry s'.registry
  sound : Sound loop u'
  backed : Backed s'.registry t u'

theorem Inv.of_move (h : Inv loop s) (hmove : Move loop t u' s s') : Inv loop s' := by
  refine ⟨hmove.nodup, ?_, ?_⟩
  · intro other v hv
    rw [hmove.timers] at hv
    by_cases hother : other = t
    · subst hother
      rw [Function.update_self] at hv
      cases hv
      exact hmove.sound
    · rw [Function.update_of_ne hother] at hv
      exact h.sound other v hv
  · intro other v hv
    rw [hmove.timers] at hv
    by_cases hother : other = t
    · subst hother
      rw [Function.update_self] at hv
      cases hv
      exact hmove.backed
    · rw [Function.update_of_ne hother] at hv
      exact (h.backed other v hv).of_keepsOthers hother hmove.others

theorem Inv.move_of_keeps (h : Inv loop s) (hu : s.timers t = some u) (hkeeps : Keeps loop u u') :
    Move loop t u' s (s.put t u') :=
  ⟨rfl, h.nodup, fun _ hentry _ => hentry, hkeeps.sound (h.sound t u hu),
    (h.backed t u hu).of_keeps hkeeps⟩

/-- `timer_start` leaves an open timer with both references. -/
theorem Inv.timerStart (h : Inv loop s) (hu : s.timers t = some u) (f : C)
    (after rep : UInt64) :
    ∃ u', Move loop t u' s (s.timerStart loop registryRef t f after rep u).2 ∧
      u'.freed = u.freed ∧ (u.script = true → u'.script = true) := by
  unfold State.timerStart
  split
  · refine ⟨u, ⟨?_, h.nodup, fun _ hentry _ => hentry, h.sound t u hu, h.backed t u hu⟩, rfl, id⟩
    rw [← hu, Function.update_eq_self]
  · rename_i hopen
    dsimp only
    generalize hv : (if loop.isActive u.timer = true then
      ({ u with after := after, timer := loop.stop u.timer } : Userdata H)
      else { u with after := after }) = v
    have hkeeps : Keeps loop u v := by
      rw [← hv]
      split
      · exact (keeps_handle Sound.stop).trans (keeps_settings _ _ after)
      · exact keeps_settings _ _ after
    have hsound : Sound loop v := hkeeps.sound (h.sound t u hu)
    obtain ⟨self, s₁, heq₁, htimers₁, hnodup₁, hothers₁, hbacked₁⟩ :=
      referenceSelf_spec registryRef h.nodup ((h.backed t u hu).of_keeps hkeeps)
    obtain ⟨callback, s₂, heq₂, htimers₂, hnodup₂, hothers₂, hbacked₂⟩ :=
      referenceCallback_spec registryRef f hnodup₁ hbacked₁
    simp only [heq₁, heq₂]
    refine ⟨{ v with
      self := some self, callback := some callback, timer := loop.start v.timer after rep,
      count := 0, paused := false }, ⟨?_, hnodup₂, ?_, ?_, ?_⟩, ?_, ?_⟩
    · simp only [State.put, htimers₂, htimers₁]
    · intro entry hentry howner
      exact hothers₂ entry (hothers₁ entry hentry howner) howner
    · refine ⟨?_, ?_, ?_, hsound.pending, hsound.finalized⟩
      · intro hactive
        refine ⟨?_, rfl, rfl⟩
        rw [loop.start_closing]
        exact loop.start_active _ _ _ hactive
      · intro _
        exact Or.inr ⟨rfl, rfl⟩
      · rw [loop.start_closing]
        exact hsound.closed
    · exact ⟨hbacked₂.self, hbacked₂.callback⟩
    · exact hkeeps.freed
    · exact hkeeps.script

/-- The close callback gives both references back. -/
theorem Inv.mumbleTimerOnClose (h : Inv loop s) (hu : s.timers t = some u)
    (hpending : u.pending = true) :
    Move loop t
      { u with timer := loop.finish u.timer, pending := false, callback := none, self := none } s
      (s.mumbleTimerOnClose loop t u) := by
  have hsound := h.sound t u hu
  have hbacked := h.backed t u hu
  have hnodup := nodup_unref u.callback h.nodup
  refine ⟨rfl, nodup_unref u.self hnodup, ?_, ?_, ?_⟩
  · intro entry hentry howner
    have hkept := hbacked.keepsOthers_callback h.nodup entry hentry howner
    apply keepsOthers_unref hnodup _ entry hkept howner
    intro ref href
    exact ⟨.self t, rfl, hbacked.self_unref_callback h.nodup ref href⟩
  · have hclosed := hsound.pending hpending
    refine ⟨?_, ?_, ?_, ?_, fun _ => hclosed⟩
    · intro hactive
      rw [loop.finish_active] at hactive
      cases hactive
    · intro _
      apply Or.inl
      rw [loop.finish_closing, ← hsound.closed]
      exact hclosed
    · rw [loop.finish_closing]
      exact hsound.closed
    · intro hnone
      cases hnone
  · refine ⟨?_, ?_⟩
    · intro ref href
      cases href
    · intro ref href
      cases href

theorem Inv.call (h : Inv loop s) (registryRef : Audio.Mixer.RegistryRef)
    (hu : s.timers t = some u) (method : Call C) :
    ∃ u', Move loop t u' s (s.call loop registryRef t method u).2 ∧
      u'.freed = u.freed ∧ (u.script = true → u'.script = true) := by
  have hkept : ∀ result : Except String Unit × Userdata H, Keeps loop u result.2 →
      ∃ u', Move loop t u' s (s.apply t result).2 ∧
        u'.freed = u.freed ∧ (u.script = true → u'.script = true) := by
    intro result hkeeps
    exact ⟨result.2, h.move_of_keeps hu hkeeps, hkeeps.freed, hkeeps.script⟩
  cases method with
  | start f after rep => exact h.timerStart hu f after rep
  | stop => exact hkept _ keeps_mumbleTimerClose
  | pause => exact hkept _ keeps_timerPause
  | again => exact hkept _ keeps_timerAgain
  | resume => exact hkept _ keeps_timerResume
  | set after rep => exact hkept _ (keeps_timerSet after rep)
  | setDuration after => exact hkept _ (keeps_settings _ _ after)
  | setRepeat rep => exact hkept _ (keeps_timerSetRepeat rep)

end Moves

section Runs

variable [DecidableEq ι] {loop : LoopTimer H} {registryRef : Audio.Mixer.RegistryRef}
  {s s' : State ι C H} {t : ι} {u u' : Userdata H}

/-- The loop has nothing to do with a timer whose memory was given back, nor with one that
nothing keeps. -/
structure Settled (loop : LoopTimer H) (s : State ι C H) (t : ι) (u : Userdata H) : Prop where
  freed : u.freed = true → loop.isActive u.timer = false ∧ u.pending = false
  dropped : u.freed = false → u.script = false →
    s.Registered t ∨ u.closed = true ∧ u.pending = false

def Safe (loop : LoopTimer H) (s : State ι C H) : Prop :=
  ∀ t u, s.timers t = some u → Settled loop s t u

omit [DecidableEq ι] in
theorem safe_empty : Safe loop (State.empty : State ι C H) := by
  intro t u hu
  cases hu

theorem Safe.of_move (h : Safe loop s) (hmove : Move loop t u' s s')
    (hsettled : Settled loop s' t u') : Safe loop s' := by
  intro other v hv
  rw [hmove.timers] at hv
  by_cases hother : other = t
  · subst hother
    rw [Function.update_self] at hv
    cases hv
    exact hsettled
  · rw [Function.update_of_ne hother] at hv
    have hbefore := h other v hv
    refine ⟨hbefore.freed, ?_⟩
    intro hlive hscript
    rcases hbefore.dropped hlive hscript with ⟨ref, href⟩ | hclosed
    · exact Or.inl ⟨ref, hmove.others _ href hother⟩
    · exact Or.inr hclosed

omit [DecidableEq ι] in
theorem settled_of_script (hlive : u.freed = false) (hscript : u.script = true) :
    Settled loop s t u := by
  refine ⟨?_, ?_⟩
  · intro hfreed
    rw [hlive] at hfreed
    cases hfreed
  · intro _ hdropped
    rw [hscript] at hdropped
    cases hdropped

omit [DecidableEq ι] in
theorem settled_of_closed (hlive : u.freed = false) (hclosed : u.closed = true)
    (hpending : u.pending = false) : Settled loop s t u := by
  refine ⟨?_, fun _ _ => Or.inr ⟨hclosed, hpending⟩⟩
  intro hfreed
  rw [hlive] at hfreed
  cases hfreed

/-- What an event does: nothing, or an operation on one timer. -/
def Moves (loop : LoopTimer H) (s : State ι C H) (e : Event ι C) (s' : State ι C H) : Prop :=
  s'.timers = s.timers ∧ s'.registry = s.registry ∨
    ∃ t u', Move loop t u' s s' ∧
      (Safe loop s → KeptWhenDropped s e → Settled loop s' t u')

theorem moves_refl (s : State ι C H) (e : Event ι C) : Moves loop s e s := Or.inl ⟨rfl, rfl⟩

theorem Inv.of_moves (h : Inv loop s) {e : Event ι C} (hmoves : Moves loop s e s') :
    Inv loop s' := by
  rcases hmoves with ⟨htimers, hregistry⟩ | ⟨t, u', hmove, -⟩
  · refine ⟨?_, ?_, ?_⟩
    · rw [hregistry]
      exact h.nodup
    · rw [htimers]
      exact h.sound
    · rw [htimers, hregistry]
      exact h.backed
  · exact h.of_move hmove

theorem Safe.of_moves (h : Safe loop s) {e : Event ι C} (hmoves : Moves loop s e s')
    (hkept : KeptWhenDropped s e) : Safe loop s' := by
  rcases hmoves with ⟨htimers, hregistry⟩ | ⟨t, u', hmove, hsettled⟩
  · intro t u hu
    rw [htimers] at hu
    refine ⟨(h t u hu).freed, ?_⟩
    unfold State.Registered
    rw [hregistry]
    exact (h t u hu).dropped
  · exact h.of_move hmove (hsettled h hkept)

theorem State.unreferenced_eq_true :
    s.unreferenced t u = true ↔ u.script = false ∧ ¬ s.Registered t := by
  have hregistered : s.registered t = true ↔ s.Registered t := by
    simp only [State.registered, State.Registered, List.any_eq_true]
    constructor
    · rintro ⟨⟨ref, held⟩, hmem, hheld⟩
      cases held with
      | self other =>
          have hsame : other = t := by simpa using hheld
          exact ⟨ref, hsame ▸ hmem⟩
      | callback other f => cases hheld
    · rintro ⟨ref, hmem⟩
      exact ⟨_, hmem, by simp⟩
  rw [State.unreferenced, ← hregistered]
  simp

/-- A live timer that nothing refers to has no close callback to come. -/
theorem Safe.of_unreferenced (h : Safe loop s) (hlive : s.live t = some u)
    (hnone : s.unreferenced t u = true) : u.closed = true ∧ u.pending = false := by
  obtain ⟨hu, hfreed⟩ := State.live_eq_some.mp hlive
  obtain ⟨hscript, hregistered⟩ := State.unreferenced_eq_true.mp hnone
  exact ((h t u hu).dropped hfreed hscript).resolve_left hregistered

theorem Inv.finalize (h : Inv loop s) (hlive : s.live t = some u)
    (hnone : s.unreferenced t u = true) (e : Event ι C) :
    Moves loop s e (s.put t (u.timerGc loop)) := by
  obtain ⟨hu, hfreed⟩ := State.live_eq_some.mp hlive
  refine Or.inr ⟨t, _, h.move_of_keeps hu keeps_timerGc, ?_⟩
  intro hsafe _
  obtain ⟨hclosed, hpending⟩ := hsafe.of_unreferenced hlive hnone
  rw [Userdata.timerGc, mumbleTimerClose_of_closed hclosed]
  exact settled_of_closed hfreed hclosed hpending

theorem Inv.free (h : Inv loop s) (hlive : s.live t = some u)
    (hnone : s.unreferenced t u = true) (e : Event ι C) :
    Moves loop s e (s.put t { u with freed := true }) := by
  obtain ⟨hu, -⟩ := State.live_eq_some.mp hlive
  have hsound := h.sound t u hu
  have hbacked := h.backed t u hu
  refine Or.inr ⟨t, _, ⟨rfl, h.nodup, fun _ hentry _ => hentry, ?_, ?_⟩, ?_⟩
  · exact ⟨hsound.active, hsound.started, hsound.closed, hsound.pending, hsound.finalized⟩
  · exact ⟨hbacked.self, hbacked.callback⟩
  · intro hsafe _
    refine ⟨?_, fun hkept => by cases hkept⟩
    intro _
    refine ⟨?_, (hsafe.of_unreferenced hlive hnone).2⟩
    -- an active timer refers to itself
    apply Bool.eq_false_iff.mpr
    intro hactive
    obtain ⟨-, hself, -⟩ := hsound.active hactive
    obtain ⟨ref, href⟩ := Option.isSome_iff_exists.mp hself
    exact (State.unreferenced_eq_true.mp hnone).2 ⟨ref, hbacked.self ref href⟩

/-- What the collector does with a timer, if nothing refers to it. -/
theorem moves_of_unreferenced {e : Event ι C} {turn : Userdata H → Bool}
    {act : Userdata H → State ι C H}
    (hact : ∀ u, s.live t = some u → s.unreferenced t u = true → Moves loop s e (act u)) :
    Moves loop s e
      (match s.live t with
      | some u => if s.unreferenced t u && turn u then act u else s
      | none => s) := by
  cases hlive : s.live t with
  | none => exact moves_refl s _
  | some u =>
      dsimp only
      split
      · rename_i hboth
        rw [Bool.and_eq_true] at hboth
        exact hact u hlive hboth.1
      · exact moves_refl s _

theorem Inv.collect (h : Inv loop s) (collection : Collection ι) :
    Moves loop s (.collect collection) (s.collect loop collection) := by
  cases collection with
  | finalize t =>
      apply moves_of_unreferenced
      intro u hlive hnone
      exact h.finalize hlive hnone _
  | free t =>
      apply moves_of_unreferenced
      intro u hlive hnone
      exact h.free hlive hnone _

theorem Inv.expire (h : Inv loop s) (hlive : s.live t = some u)
    (hactive : loop.isActive u.timer = true) (e : Event ι C) :
    Moves loop s e (s.expire loop t u) := by
  obtain ⟨hu, hfreed⟩ := State.live_eq_some.mp hlive
  have hmove := h.move_of_keeps hu keeps_expire
  refine Or.inr ⟨t, _, ⟨hmove.timers, hmove.nodup, hmove.others, hmove.sound, hmove.backed⟩, ?_⟩
  intro _ _
  have hopen := ((h.sound t u hu).active hactive).1
  rw [Userdata.mumbleLuaTimer, loop.expire_closing, hopen]
  exact settled_of_script hfreed rfl

theorem Inv.afterCallback (h : Inv loop s) (hlive : s.live t = some u) (e : Event ι C) :
    Moves loop s e { s.put t (u.afterCallback loop) with running := none } := by
  obtain ⟨hu, hfreed⟩ := State.live_eq_some.mp hlive
  have hkeeps : Keeps loop u (u.afterCallback loop) := keeps_afterCallback
  have hmove := h.move_of_keeps hu hkeeps
  refine Or.inr ⟨t, _, ⟨hmove.timers, hmove.nodup, hmove.others, hmove.sound, hmove.backed⟩, ?_⟩
  intro hsafe _
  cases hscript : u.script with
  | true => exact settled_of_script (hkeeps.freed.trans hfreed) (hkeeps.script hscript)
  | false =>
      rcases (hsafe t u hu).dropped hfreed hscript with hregistered | ⟨hclosed, hpending⟩
      · refine ⟨?_, fun _ _ => Or.inl hregistered⟩
        intro hafter
        rw [hkeeps.freed, hfreed] at hafter
        cases hafter
      · rw [afterCallback_of_closed hclosed]
        exact settled_of_closed hfreed hclosed hpending

/-- What is done with a timer, if it is live. -/
theorem moves_of_live {e : Event ι C} {act : Userdata H → Except String Unit × State ι C H}
    (hact : ∀ u, s.live t = some u → Moves loop s e (act u).2) :
    Moves loop s e
      (match s.live t with
      | some u => act u
      | none => (.ok (), s)).2 := by
  cases hlive : s.live t with
  | none => exact moves_refl s _
  | some u => exact hact u hlive

/-- What each event does to the timers. -/
theorem Inv.moves (h : Inv loop s) (registryRef : Audio.Mixer.RegistryRef) (e : Event ι C) :
    Moves loop s e (s.step loop registryRef e).2 := by
  cases e with
  | new t =>
      cases hu : s.timers t with
      | some u =>
          simp only [State.step, hu]
          exact moves_refl s _
      | none =>
          simp only [State.step, hu]
          refine Or.inr ⟨t, _, ⟨rfl, h.nodup, fun _ hentry _ => hentry, sound_mumbleTimerNew, ?_⟩,
            ?_⟩
          · refine ⟨?_, ?_⟩ <;> intro ref href <;> cases href
          · intro _ _
            exact settled_of_script rfl rfl
  | call t method =>
      apply moves_of_live
      intro u hlive
      obtain ⟨hu, hfreed⟩ := State.live_eq_some.mp hlive
      split
      · rename_i hscript
        obtain ⟨u', hmove, hfreed', hscript'⟩ := h.call registryRef hu method
        refine Or.inr ⟨t, u', hmove, ?_⟩
        intro _ _
        exact settled_of_script (hfreed'.trans hfreed) (hscript' hscript)
      · exact moves_refl s _
  | letGo t =>
      apply moves_of_live
      intro u hlive
      obtain ⟨hu, hfreed⟩ := State.live_eq_some.mp hlive
      have hsound := h.sound t u hu
      have hbacked := h.backed t u hu
      refine Or.inr ⟨t, _, ⟨rfl, h.nodup, fun _ hentry _ => hentry, ?_, ?_⟩, ?_⟩
      · exact ⟨hsound.active, hsound.started, hsound.closed, hsound.pending, hsound.finalized⟩
      · exact ⟨hbacked.self, hbacked.callback⟩
      · intro _ hkept
        refine ⟨?_, fun _ _ => hkept u hlive⟩
        intro hafter
        rw [hfreed] at hafter
        cases hafter
  | expire t =>
      apply moves_of_live
      intro u hlive
      split
      · rename_i hboth
        rw [Bool.and_eq_true] at hboth
        exact h.expire hlive hboth.2 _
      · exact moves_refl s _
  | callbackReturns =>
      cases hrunning : s.running with
      | none =>
          simp only [State.step, hrunning]
          exact moves_refl s _
      | some t =>
          cases hlive : s.live t with
          | none =>
              simp only [State.step, hrunning, hlive]
              exact Or.inl ⟨rfl, rfl⟩
          | some u =>
              simp only [State.step, hrunning, hlive]
              exact h.afterCallback hlive _
  | closeCallback t =>
      apply moves_of_live
      intro u hlive
      obtain ⟨hu, hfreed⟩ := State.live_eq_some.mp hlive
      split
      · rename_i hboth
        rw [Bool.and_eq_true] at hboth
        refine Or.inr ⟨t, _, h.mumbleTimerOnClose hu hboth.2, ?_⟩
        intro _ _
        exact settled_of_closed hfreed ((h.sound t u hu).pending hboth.2) rfl
      · exact moves_refl s _
  | collect collection => exact h.collect collection

omit [DecidableEq ι] in
theorem Inv.outlives (h : Inv loop s) (hsafe : Safe loop s) : Outlives loop s := by
  intro t u hu
  refine ⟨(hsafe t u hu).freed, ?_⟩
  intro hactive
  have hbacked := h.backed t u hu
  obtain ⟨-, hself, hcallback⟩ := (h.sound t u hu).active hactive
  obtain ⟨self, hself⟩ := Option.isSome_iff_exists.mp hself
  obtain ⟨callback, hcallback⟩ := Option.isSome_iff_exists.mp hcallback
  obtain ⟨f, hf⟩ := hbacked.callback callback hcallback
  exact ⟨⟨self, hself, hbacked.self self hself⟩, callback, f, hcallback, hf⟩

/-- The collector takes a live timer that nothing refers to while its close callback is to
come: it finalizes the timer, where it has not yet done so, and gives the memory back. -/
theorem Inv.collected_while_closing (h : Inv loop s)
    (registryRef : Audio.Mixer.RegistryRef) (hlive : s.live t = some u)
    (hnone : s.unreferenced t u = true) (hopen : ¬ (u.closed = true ∧ u.pending = false)) :
    ∃ u', u'.freed = true ∧ u'.pending = true ∧
      (Machine.final (State.step loop registryRef) s
        [.collect (.finalize t), .collect (.free t)]).timers t = some u' := by
  obtain ⟨hu, hfreed⟩ := State.live_eq_some.mp hlive
  have hsound := h.sound t u hu
  -- the userdata that the collector finds finalized
  obtain ⟨v, hv, hfinalized, hpending, hlive', hscript⟩ : ∃ v,
      s.collect loop (.finalize t) = s.put t v ∧ v.finalized = true ∧ v.pending = true ∧
        v.freed = false ∧ v.script = u.script := by
    cases hdone : u.finalized with
    | true =>
        have hclosed := hsound.finalized hdone
        refine ⟨u, ?_, hdone, ?_, hfreed, rfl⟩
        · simp only [State.collect, hlive, hdone, Bool.not_true, Bool.and_false,
            Bool.false_eq_true, if_false]
          rw [State.put, ← hu, Function.update_eq_self]
        · cases hpending : u.pending with
          | true => rfl
          | false => exact absurd ⟨hclosed, hpending⟩ hopen
    | false =>
        refine ⟨u.timerGc loop, ?_, rfl, ?_, ?_, ?_⟩
        · simp only [State.collect, hlive, hdone, hnone, Bool.not_false, Bool.and_self, if_true]
        · cases hclosed : u.closed with
          | true =>
              rw [Userdata.timerGc, mumbleTimerClose_of_closed hclosed]
              cases hpending : u.pending with
              | true => rfl
              | false => exact absurd ⟨hclosed, hpending⟩ hopen
          | false => rw [Userdata.timerGc, hsound.mumbleTimerClose_of_open hclosed]
        · have hkeeps : Keeps loop u (u.timerGc loop) := keeps_timerGc
          exact hkeeps.freed.trans hfreed
        · cases hclosed : u.closed with
          | true => rw [Userdata.timerGc, mumbleTimerClose_of_closed hclosed]
          | false => rw [Userdata.timerGc, hsound.mumbleTimerClose_of_open hclosed]
  have hafter : (s.put t v).live t = some v := by
    apply State.live_eq_some.mpr
    exact ⟨by simp [State.put], hlive'⟩
  have hunreferenced : (s.put t v).unreferenced t v = true := by
    obtain ⟨hdropped, hregistered⟩ := State.unreferenced_eq_true.mp hnone
    apply State.unreferenced_eq_true.mpr
    exact ⟨hscript.trans hdropped, hregistered⟩
  refine ⟨{ v with freed := true }, rfl, hpending, ?_⟩
  simp only [Machine.final, State.step, hv]
  simp only [State.collect, hafter, hunreferenced, hfinalized, Bool.and_self, if_true]
  exact Function.update_self ..

/-- The collector can take no timer too early just when every one that nothing keeps is done
with the loop. -/
theorem Inv.staysOutlived_iff (h : Inv loop s) :
    StaysOutlived loop registryRef s ↔ Safe loop s := by
  constructor
  · intro hstays t u hu
    refine ⟨(hstays [] t u hu).1, ?_⟩
    intro hfreed hscript
    by_contra hopen
    obtain ⟨hregistered, hopen⟩ := not_or.mp hopen
    obtain ⟨v, hv, hpending, hfinal⟩ := h.collected_while_closing registryRef
      (State.live_eq_some.mpr ⟨hu, hfreed⟩)
      (State.unreferenced_eq_true.mpr ⟨hscript, hregistered⟩) hopen
    have hdone := ((hstays [.finalize t, .free t] t v hfinal).1 hv).2
    rw [hpending] at hdone
    cases hdone
  · intro hsafe collections
    induction collections generalizing s with
    | nil => exact h.outlives hsafe
    | cons collection rest ih =>
        have hmoves := h.moves registryRef (.collect collection)
        exact ih (h.of_moves hmoves) (hsafe.of_moves hmoves trivial)

theorem Inv.step_iff (h : Inv loop s) (hsafe : Safe loop s) (e : Event ι C) :
    Safe loop (s.step loop registryRef e).2 ↔ KeptWhenDropped s e := by
  constructor
  · intro hafter
    cases e with
    | letGo t =>
        intro u hlive
        obtain ⟨-, hfreed⟩ := State.live_eq_some.mp hlive
        have hstep : (s.step loop registryRef (.letGo t)).2 =
            s.put t { u with script := false } := by
          simp only [State.step, hlive]
        rw [hstep] at hafter
        exact (hafter t _ (Function.update_self ..)).dropped hfreed rfl
    | _ => trivial
  · exact hsafe.of_moves (h.moves registryRef e)

end Runs

/-- For every run of calls, loop callbacks and collections: whatever the collector does, no
timer is freed while its handle is active or waits for the close callback, and active timers
are registered with their callbacks, just when a script drops a timer only while it is
registered or after the close callback. -/
theorem outlives_handle_iff [DecidableEq ι] (loop : LoopTimer H)
    (registryRef : Audio.Mixer.RegistryRef) (events : List (Event ι C)) :
    (∀ n ≤ events.length,
        StaysOutlived loop registryRef
          (Machine.final (State.step loop registryRef) State.empty (events.take n))) ↔
      Machine.Along (State.step loop registryRef) KeptWhenDropped State.empty events := by
  apply Machine.holds_along_iff_of_invariant (State.step loop registryRef) (Inv loop)
    (StaysOutlived loop registryRef)
  · intro s e h _
    exact h.of_moves (h.moves registryRef e)
  · intro s e h hstays
    rw [(h.of_moves (h.moves registryRef e)).staysOutlived_iff]
    exact h.step_iff (h.staysOutlived_iff.mp hstays) e
  · exact inv_empty
  · exact inv_empty.staysOutlived_iff.mpr safe_empty

/-- A timer that was never started is freed when its close callback is still to come. -/
theorem freed_before_closeCallback :
    ¬ ∀ events : List (Event Nat Nat),
      Outlives LoopTimer.plain
        (Machine.final (State.step LoopTimer.plain Audio.Mixer.countOn) State.empty events) := by
  intro h
  have hfreed := h [.new 0, .letGo 0, .collect (.finalize 0), .collect (.free 0)] 0
    { Userdata.mumbleTimerNew LoopTimer.plain with
      timer := ⟨false, true, false, 0⟩
      closed := true
      script := false
      pending := true
      finalized := true
      freed := true } rfl
  exact absurd (hfreed.1 rfl).2 (by decide)

end LuaMumble.Timer
