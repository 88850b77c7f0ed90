import LuaMumble.Audio.Reclaim

/-!
One stream among the others. The view of a stream holds what the state says of it: its
members, the registry keys and list indices it has, and where the two threads are with
it. The life of a stream goes through a few places, and the only registry reference of
the stream is where its place says. The table `allowed` says where the threads may be
at each place, and each lemma about an action checks one row of it.
-/

namespace LuaMumble.Audio.Reclaim

open Lib

/-- What the buffer thread is about to do with one stream. -/
inductive ThreadAt where
  | elsewhere
  | pinning (stage : Pinning)
  | pinned (stage : Pinned)
deriving DecidableEq

/-- What the main thread is about to do with one stream. -/
inductive MainAt where
  | elsewhere
  | releasing
  | stopping (stage : Stop)
  | playing (stage : Play)
deriving DecidableEq

/-- The state as far as it is about one stream. -/
structure View where
  sound : AudioStream
  script : Bool
  collected : Bool
  refs : List Nat
  listed : List (Option Nat)
  queued : List (Option Nat)
  thread : ThreadAt
  main : MainAt

section Viewing

variable {ι : Type} [DecidableEq ι]

def BufferThread.at (thread : BufferThread ι) (x : ι) : ThreadAt :=
  match thread with
  | .pinning stage sound _ => if sound = x then .pinning stage else .elsewhere
  | .pinned stage sound => if sound = x then .pinned stage else .elsewhere
  | _ => .elsewhere

def MainThread.at (main : MainThread ι) (x : ι) : MainAt :=
  match main with
  | .releasing sound => if sound = x then .releasing else .elsewhere
  | .stopping stage sound => if sound = x then .stopping stage else .elsewhere
  | .playing stage sound => if sound = x then .playing stage else .elsewhere
  | _ => .elsewhere

def view (s : State ι) (x : ι) : View :=
  { sound := s.sounds x
    script := s.script x
    collected := s.collected x
    refs := LinkList.indices s.registry x
    listed := LinkList.indices s.streamList x
    queued := LinkList.indices s.reclaimList x
    thread := s.thread.at x
    main := s.main.at x }

end Viewing

/-- The attempt to pin is under way. -/
@[simp] def ThreadAt.isPinning : ThreadAt → Bool
  | .pinning _ => true
  | _ => false

/-- The pin is counted in `usecount`. -/
@[simp] def ThreadAt.counted : ThreadAt → Bool
  | .pinning .rechecking | .pinning .dropping => true
  | .pinned .reading | .pinned .inUse => true
  | _ => false

/-- The buffer thread is in `sound_unpin_schedule_unref_if_needed`, behind the decrement. -/
@[simp] def ThreadAt.unpinning : ThreadAt → Bool
  | .pinned .unpinned | .pinned .checking | .pinned .queueing => true
  | _ => false

/-- Where the registry reference of a stream is: nowhere; in `refrence`, with the stream in
`stream_list` or not; in `reclaim_ref`, with the stream in `reclaim_list` or not; or back
in `refrence` with the stream in `reclaim_list` still. -/
inductive Place where
  | released
  | listed
  | unlisted
  | kept
  | queued
  | restored
deriving DecidableEq

namespace Place

@[simp] def refrence (place : Place) (ref : Nat) : Option Nat :=
  match place with
  | .listed | .unlisted | .restored => some ref
  | _ => none

@[simp] def reclaimRef (place : Place) (ref : Nat) : Option Nat :=
  match place with
  | .kept | .queued => some ref
  | _ => none

@[simp] def refs (place : Place) (ref : Nat) : List Nat :=
  match place with
  | .released => []
  | _ => [ref]

@[simp] def inStreamList (place : Place) (ref : Nat) : List (Option Nat) :=
  match place with
  | .listed => [some ref]
  | _ => []

@[simp] def inReclaimList (place : Place) (ref : Nat) : List (Option Nat) :=
  match place with
  | .queued | .restored => [some ref]
  | _ => []

end Place

/-- Where the threads may be with a stream. A stream in `stream_list` is not reclaimed. One
that was stopped and is not queued is owed that by the buffer thread, or by the stop
while it is under way; one that is queued is not in the hands of the buffer thread. -/
@[simp] def allowed (place : Place) (main : MainAt) (reclaimed : Bool) (thread : ThreadAt) : Bool :=
  match place, main with
  | .released, .elsewhere
  | .released, .playing .loading
  | .released, .playing .clearing => thread = .elsewhere
  | .released, .playing .cancelling
  | .released, .playing .referencing => !reclaimed && thread = .elsewhere
  | .listed, .elsewhere
  | .listed, .stopping .unlisting =>
      !reclaimed && thread ≠ .pinning .dropping && thread ≠ .pinned .queueing
  | .unlisted, .stopping .marking => !thread.isPinning && thread ≠ .pinned .queueing
  | .unlisted, .stopping .transferring =>
      reclaimed && !thread.isPinning && thread ≠ .pinned .queueing
  | .unlisted, .playing .removing
  | .unlisted, .playing .referencing
  | .unlisted, .playing .listing =>
      !reclaimed && !thread.isPinning && thread ≠ .pinned .queueing
  | .kept, .stopping .checkingUse => reclaimed && !thread.isPinning && !thread.unpinning
  | .kept, .stopping .queueing => reclaimed && thread = .elsewhere
  | .kept, .elsewhere
  | .kept, .playing .loading
  | .kept, .playing .clearing => reclaimed && !thread.isPinning && thread ≠ .elsewhere
  | .kept, .playing .cancelling => !reclaimed && !thread.isPinning
  | .kept, .releasing => thread = .elsewhere
  | .queued, .elsewhere
  | .queued, .playing .loading
  | .queued, .playing .clearing => reclaimed && thread = .elsewhere
  | .queued, .playing .cancelling => !reclaimed && thread = .elsewhere
  | .restored, .playing .removing => !reclaimed && thread = .elsewhere
  | _, _ => false

/-- The stream is at the place: its reference is where the place says, and the threads are
where the place allows. -/
structure Stands (v : View) (place : Place) (ref : Nat) : Prop where
  refrence : v.sound.refrence = place.refrence ref
  reclaimRef : v.sound.reclaimRef = place.reclaimRef ref
  refs : v.refs = place.refs ref
  listed : v.listed = place.inStreamList ref
  queued : v.queued = place.inReclaimList ref
  threads : allowed place v.main v.sound.reclaimed v.thread = true

/-- A stream that is at some place, with its pin count; collected only when nothing is
left of it, and playing only when it has a reference or is about to get one. -/
structure Good (v : View) : Prop where
  stands : ∃ place ref, Stands v place ref
  usecount : v.sound.usecount = if v.thread.counted then 1 else 0
  collected : v.collected = true → v.refs = [] ∧ v.script = false ∧ v.main = .elsewhere
  playing : v.sound.playing = true → v.sound.refrence = none → ∃ stage, v.main = .playing stage

section BufferThread

variable {v : View}

/-- The buffer thread goes on with the stream and changes nothing. -/
theorem Good.goes (h : Good v) {thread : ThreadAt} (hcounted : thread.counted = v.thread.counted)
    (hallowed : ∀ place ref, Stands v place ref →
      allowed place v.main v.sound.reclaimed thread = true) :
    Good { v with thread := thread } := by
  obtain ⟨⟨place, ref, hstands⟩, husecount, hcollected, hplaying⟩ := h
  rw [← hcounted] at husecount
  refine ⟨⟨place, ref, ?_⟩, husecount, hcollected, hplaying⟩
  exact { hstands with threads := hallowed place ref hstands }

/-- A stream with a node in `stream_list`, or one that the buffer thread tries to pin. -/
theorem Stands.eq_listed {place : Place} {ref : Nat} (h : Stands v place ref)
    (hlisted : v.listed ≠ [] ∨ v.thread.isPinning = true) : place = .listed := by
  obtain ⟨-, -, -, hnodes, -, hallowed⟩ := h
  unfold allowed at hallowed
  split at hallowed <;> simp_all

theorem allowed_listed_iff {main : MainAt} {reclaimed : Bool} {thread : ThreadAt} :
    allowed .listed main reclaimed thread = true ↔
      (main = .elsewhere ∨ main = .stopping .unlisting) ∧ reclaimed = false ∧
        thread ≠ .pinning .dropping ∧ thread ≠ .pinned .queueing := by
  cases main with
  | elsewhere => simp [and_assoc]
  | stopping stage => cases stage <;> simp [and_assoc]
  | playing stage => cases stage <;> simp
  | releasing => simp

/-- The buffer thread moves about freely with a stream in `stream_list`. -/
theorem Stands.allowed_listed {ref : Nat} (h : Stands v .listed ref) {thread : ThreadAt}
    (hdropping : thread ≠ .pinning .dropping) (hqueueing : thread ≠ .pinned .queueing) :
    allowed .listed v.main v.sound.reclaimed thread = true := by
  obtain ⟨hmain, hreclaimed, -⟩ := allowed_listed_iff.mp h.threads
  exact allowed_listed_iff.mpr ⟨hmain, hreclaimed, hdropping, hqueueing⟩

theorem Good.try_pin (h : Good v) (hthread : v.thread = .elsewhere) (hlisted : v.listed ≠ []) :
    Good { v with thread := .pinning .adding } := by
  apply h.goes (by simp [hthread])
  intro place ref hstands
  obtain rfl := hstands.eq_listed (.inl hlisted)
  exact hstands.allowed_listed (by simp) (by simp)

theorem Good.add_pin (h : Good v) (hthread : v.thread = .pinning .adding) :
    Good { v with
      sound := { v.sound with usecount := v.sound.usecount + 1 }
      thread := .pinning .rechecking } := by
  obtain ⟨⟨place, ref, hstands⟩, husecount, hcollected, hplaying⟩ := h
  have hallowed : allowed place v.main v.sound.reclaimed (.pinning .rechecking) = true := by
    obtain rfl := hstands.eq_listed (.inr (by simp [hthread]))
    exact hstands.allowed_listed (by simp) (by simp)
  refine ⟨⟨place, ref, { hstands with threads := hallowed }⟩, ?_, hcollected, hplaying⟩
  simp [husecount, hthread]

/-- The second test of `reclaimed` never fails. -/
theorem Good.keep_pin (h : Good v) (hthread : v.thread = .pinning .rechecking) :
    v.sound.reclaimed = false ∧ Good { v with thread := .pinned .reading } := by
  have hlisted {place ref} (hstands : Stands v place ref) : place = .listed :=
    hstands.eq_listed (.inr (by simp [hthread]))
  constructor
  · obtain ⟨place, ref, hstands⟩ := h.stands
    obtain rfl := hlisted hstands
    exact (allowed_listed_iff.mp hstands.threads).2.1
  · apply h.goes (by simp [hthread])
    intro place ref hstands
    obtain rfl := hlisted hstands
    exact hstands.allowed_listed (by simp) (by simp)

theorem Good.not_dropping (h : Good v) : v.thread ≠ .pinning .dropping := by
  intro hthread
  obtain ⟨place, ref, hstands⟩ := h.stands
  obtain rfl := hstands.eq_listed (.inr (by simp [hthread]))
  exact (allowed_listed_iff.mp hstands.threads).2.2.1 hthread

theorem Good.begin_use (h : Good v) (hthread : v.thread = .pinned .reading) :
    Good { v with thread := .pinned .inUse } := by
  apply h.goes (by simp [hthread])
  intro place ref hstands
  have hallowed := hstands.threads
  unfold allowed at hallowed ⊢
  split <;> simp_all

/-- The decrement, when no stop is about to look at the count. -/
theorem Good.unpin (h : Good v) (hthread : v.thread = .pinned .inUse)
    (hcheckingUse : v.main ≠ .stopping .checkingUse) :
    v.sound.usecount = 1 ∧
      Good { v with
        sound := { v.sound with usecount := v.sound.usecount - 1 }
        thread := .pinned .unpinned } := by
  obtain ⟨⟨place, ref, hstands⟩, husecount, hcollected, hplaying⟩ := h
  rw [hthread, ThreadAt.counted, if_pos rfl] at husecount
  have hallowed : allowed place v.main v.sound.reclaimed (.pinned .unpinned) = true := by
    have hbefore := hstands.threads
    unfold allowed at hbefore ⊢
    split <;> simp_all
  refine ⟨husecount, ⟨place, ref, { hstands with threads := hallowed }⟩, ?_, hcollected, hplaying⟩
  simp [husecount]

theorem Good.test_reclaimed (h : Good v) (hthread : v.thread = .pinned .unpinned) :
    Good { v with thread := if v.sound.reclaimed then .pinned .checking else .elsewhere } := by
  apply h.goes (by split <;> simp [hthread])
  intro place ref hstands
  have hallowed := hstands.threads
  cases hreclaimed : v.sound.reclaimed with
  | true =>
      unfold allowed at hallowed ⊢
      split <;> simp_all
  | false =>
      unfold allowed at hallowed ⊢
      split <;> simp_all

theorem Good.test_reclaimRef (h : Good v) (hthread : v.thread = .pinned .checking) :
    Good { v with
      thread := if v.sound.reclaimRef.isSome then .pinned .queueing else .elsewhere } := by
  apply h.goes (by split <;> simp [hthread])
  intro place ref hstands
  have hallowed := hstands.threads
  rw [hstands.reclaimRef]
  unfold allowed at hallowed ⊢
  split <;> simp_all

theorem Good.queue_unpinned (h : Good v) (hthread : v.thread = .pinned .queueing) :
    Good { v with
      queued := v.sound.reclaimRef :: v.queued
      thread := .elsewhere } := by
  obtain ⟨⟨place, ref, hstands⟩, husecount, hcollected, hplaying⟩ := h
  obtain ⟨hrefrence, hreclaimRef, hrefs, hlisted, hqueued, hbefore⟩ := hstands
  rw [hthread] at hbefore husecount
  have hplace : place = .kept ∧ allowed .queued v.main v.sound.reclaimed .elsewhere = true := by
    unfold allowed at hbefore ⊢
    split at hbefore <;> simp_all
  obtain ⟨rfl, hallowed⟩ := hplace
  refine ⟨⟨.queued, ref, hrefrence, hreclaimRef, hrefs, hlisted, ?_, hallowed⟩, husecount,
    hcollected, hplaying⟩
  simp [hreclaimRef, hqueued]

end BufferThread

section MainThread

variable {v : View}

/-- The place of a stream at the stages of the main thread that tell it. -/
def MainAt.place : MainAt → Option Place
  | .stopping .unlisting => some .listed
  | .stopping .marking | .stopping .transferring | .playing .listing => some .unlisted
  | .stopping .checkingUse | .stopping .queueing | .releasing => some .kept
  | _ => none

theorem place_of_allowed {place expected : Place} {main : MainAt} {reclaimed : Bool}
    {thread : ThreadAt} (hallowed : allowed place main reclaimed thread = true)
    (hmain : main.place = some expected) : place = expected := by
  unfold MainAt.place at hmain
  split at hmain <;> cases place <;> simp_all

/-- A stream in a call of the main thread is not collected. -/
theorem Good.not_collected (h : Good v) (hmain : v.main ≠ .elsewhere) : v.collected = false := by
  cases hcollected : v.collected with
  | false => rfl
  | true => exact absurd (h.collected hcollected).2.2 hmain

/-- What a step of the main thread leaves of a stream that is not collected. -/
theorem Good.of_stands (place : Place) (ref : Nat) (hstands : Stands v place ref)
    (husecount : v.sound.usecount = if v.thread.counted then 1 else 0)
    (hcollected : v.collected = false)
    (hplaying : v.sound.playing = true → v.sound.refrence = none →
      ∃ stage, v.main = .playing stage) : Good v :=
  ⟨⟨place, ref, hstands⟩, husecount, fun h => absurd h (by simp [hcollected]), hplaying⟩

theorem Good.not_collected_of_script (h : Good v) (hscript : v.script = true) :
    v.collected = false := by
  cases hcollected : v.collected with
  | false => rfl
  | true => simpa [hscript] using (h.collected hcollected).2.1

/-- The main thread goes on with the stream and changes nothing. -/
theorem Good.main_goes (h : Good v) {main : MainAt} (hcollected : v.collected = false)
    (hallowed : ∀ place ref, Stands v place ref →
      allowed place main v.sound.reclaimed v.thread = true)
    (hplaying : v.sound.playing = true → v.sound.refrence = none →
      ∃ stage, main = .playing stage) : Good { v with main := main } := by
  obtain ⟨⟨place, ref, hstands⟩, husecount, -, -⟩ := h
  refine Good.of_stands place ref ?_ husecount hcollected hplaying
  exact { hstands with threads := hallowed place ref hstands }

theorem Good.begin_stop (h : Good v) (hmain : v.main = .elsewhere) (hscript : v.script = true)
    (hplays : v.sound.playing = true) : Good { v with main := .stopping .unlisting } := by
  have hrefrence : v.sound.refrence ≠ none := by
    intro hnone
    obtain ⟨stage, hstage⟩ := h.playing hplays hnone
    simp [hmain] at hstage
  refine h.main_goes (h.not_collected_of_script hscript) ?_ fun _ hnone => absurd hnone hrefrence
  intro place ref hstands
  have hthreads := hstands.threads
  rw [hstands.refrence] at hrefrence
  cases place <;> simp_all

theorem Good.unlist (h : Good v) (hmain : v.main = .stopping .unlisting)
    (hthread : v.thread.isPinning = false) :
    v.sound.refrence.isSome ∧
      Good { v with
        listed := v.listed.erase v.sound.refrence
        main := .stopping .marking } := by
  have hcollected := h.not_collected (by simp [hmain])
  obtain ⟨⟨place, ref, hrefrence, hreclaimRef, hrefs, hlisted, hqueued, hthreads⟩,
    husecount, -, -⟩ := h
  have hplace : place = .listed := place_of_allowed hthreads (by rw [hmain]; rfl)
  subst hplace
  refine ⟨by simp [hrefrence], Good.of_stands .unlisted ref
    ⟨hrefrence, hreclaimRef, hrefs, ?_, hqueued, ?_⟩ husecount hcollected ?_⟩
  · simp [hlisted, hrefrence]
  · simp_all
  · simp [hrefrence]

theorem Good.mark (h : Good v) (hmain : v.main = .stopping .marking) :
    Good { v with
      sound := { v.sound with reclaimed := true }
      main := .stopping .transferring } := by
  have hcollected := h.not_collected (by simp [hmain])
  obtain ⟨⟨place, ref, hrefrence, hreclaimRef, hrefs, hlisted, hqueued, hthreads⟩,
    husecount, -, -⟩ := h
  have hplace : place = .unlisted := place_of_allowed hthreads (by rw [hmain]; rfl)
  subst hplace
  refine Good.of_stands .unlisted ref
    ⟨hrefrence, hreclaimRef, hrefs, hlisted, hqueued, ?_⟩ husecount hcollected ?_
  · simp_all
  · simp [hrefrence]

/-- The reference moves, when the buffer thread is not about to let the stream go. -/
theorem Good.transfer (h : Good v) (hmain : v.main = .stopping .transferring)
    (hthread : v.thread.unpinning = false) :
    v.sound.refrence.isSome ∧
      Good { v with
        sound := { v.sound with
          reclaimRef := v.sound.refrence
          refrence := none
          playing := false }
        main := .stopping .checkingUse } := by
  have hcollected := h.not_collected (by simp [hmain])
  obtain ⟨⟨place, ref, hrefrence, hreclaimRef, hrefs, hlisted, hqueued, hthreads⟩,
    husecount, -, -⟩ := h
  have hplace : place = .unlisted := place_of_allowed hthreads (by rw [hmain]; rfl)
  subst hplace
  refine ⟨by simp [hrefrence], Good.of_stands .kept ref
    ⟨rfl, hrefrence, hrefs, hlisted, hqueued, ?_⟩ husecount hcollected nofun⟩
  simp_all

/-- Between the transfer and the look at the count the buffer thread has the stream pinned, or
is elsewhere: the count tells which. -/
theorem Good.check_usecount (h : Good v) (hmain : v.main = .stopping .checkingUse) :
    Good { v with
      main :=
        if v.sound.usecount = 0 ∧ v.sound.reclaimRef.isSome then .stopping .queueing
        else .elsewhere } := by
  apply h.main_goes (h.not_collected (by simp [hmain]))
  · intro place ref hstands
    have hthreads := hstands.threads
    have hplace : place = .kept := place_of_allowed hthreads (by rw [hmain]; rfl)
    subst hplace
    rw [h.usecount, hstands.reclaimRef]
    rcases hthread : v.thread with _ | stage | stage
    · simp_all
    · simp_all
    · cases stage <;> simp_all
  · intro hp hr
    simpa [hmain] using h.playing hp hr

theorem Good.queue_stopped (h : Good v) (hmain : v.main = .stopping .queueing) :
    Good { v with
      queued := v.sound.reclaimRef :: v.queued
      main := .elsewhere } := by
  have hcollected := h.not_collected (by simp [hmain])
  obtain ⟨⟨place, ref, hrefrence, hreclaimRef, hrefs, hlisted, hqueued, hthreads⟩,
    husecount, -, hplaying⟩ := h
  have hplace : place = .kept := place_of_allowed hthreads (by rw [hmain]; rfl)
  subst hplace
  refine Good.of_stands .queued ref
    ⟨hrefrence, hreclaimRef, hrefs, hlisted, ?_, ?_⟩ husecount hcollected ?_
  · simp [hreclaimRef, hqueued]
  · simp_all
  · intro hp hr
    simpa [hmain] using hplaying hp hr

theorem Good.begin_play (h : Good v) (hmain : v.main = .elsewhere) (hscript : v.script = true) :
    Good { v with
      sound := { v.sound with playing := true }
      main := if v.sound.refrence.isSome then .elsewhere else .playing .loading } := by
  have hcollected := h.not_collected_of_script hscript
  obtain ⟨⟨place, ref, hrefrence, hreclaimRef, hrefs, hlisted, hqueued, hthreads⟩,
    husecount, -, -⟩ := h
  refine Good.of_stands place ref
    ⟨hrefrence, hreclaimRef, hrefs, hlisted, hqueued, ?_⟩ husecount hcollected ?_
  · rw [hrefrence]
    cases place <;> simp_all
  · intro _ hnone
    simp_all

theorem Good.load_reclaimed (h : Good v) (hmain : v.main = .playing .loading) :
    Good { v with
      main := if v.sound.reclaimed then .playing .clearing else .playing .referencing } := by
  apply h.main_goes (h.not_collected (by simp [hmain]))
  · intro place ref hstands
    have hthreads := hstands.threads
    cases hreclaimed : v.sound.reclaimed with
    | true => cases place <;> simp_all
    | false => cases place <;> simp_all
  · intro _ _
    split
    · exact ⟨_, rfl⟩
    · exact ⟨_, rfl⟩

theorem Good.clear_reclaimed (h : Good v) (hmain : v.main = .playing .clearing) :
    Good { v with
      sound := { v.sound with reclaimed := false }
      main := .playing .cancelling } := by
  have hcollected := h.not_collected (by simp [hmain])
  obtain ⟨⟨place, ref, hrefrence, hreclaimRef, hrefs, hlisted, hqueued, hthreads⟩,
    husecount, -, -⟩ := h
  refine Good.of_stands place ref
    ⟨hrefrence, hreclaimRef, hrefs, hlisted, hqueued, ?_⟩ husecount hcollected fun _ _ => ⟨_, rfl⟩
  cases place <;> simp_all

/-- The reference is taken back, when the buffer thread is not about to queue the stream. -/
theorem Good.take_back (h : Good v) (hmain : v.main = .playing .cancelling)
    (hsome : v.sound.reclaimRef.isSome) (hthread : v.thread ≠ .pinned .queueing) :
    Good { v with
      sound := { v.sound with refrence := v.sound.reclaimRef, reclaimRef := none }
      main := .playing .removing } := by
  have hcollected := h.not_collected (by simp [hmain])
  obtain ⟨⟨place, ref, hrefrence, hreclaimRef, hrefs, hlisted, hqueued, hthreads⟩,
    husecount, -, -⟩ := h
  have hplace : place = .kept ∨ place = .queued := by
    cases place <;> simp_all
  rcases hplace with rfl | rfl
  · refine Good.of_stands .unlisted ref
      ⟨hreclaimRef, rfl, hrefs, hlisted, hqueued, ?_⟩ husecount hcollected fun _ _ => ⟨_, rfl⟩
    simp_all
  · refine Good.of_stands .restored ref
      ⟨hreclaimRef, rfl, hrefs, hlisted, hqueued, ?_⟩ husecount hcollected fun _ _ => ⟨_, rfl⟩
    simp_all

theorem Good.nothing_to_take_back (h : Good v) (hmain : v.main = .playing .cancelling)
    (hnone : v.sound.reclaimRef = none) : Good { v with main := .playing .referencing } := by
  refine h.main_goes (h.not_collected (by simp [hmain])) ?_ fun _ _ => ⟨_, rfl⟩
  intro place ref hstands
  have hthreads := hstands.threads
  rw [hstands.reclaimRef] at hnone
  cases place <;> simp_all

theorem Good.unqueue (h : Good v) (hmain : v.main = .playing .removing) :
    Good { v with
      queued := v.queued.erase v.sound.refrence
      main := .playing .referencing } := by
  have hcollected := h.not_collected (by simp [hmain])
  obtain ⟨⟨place, ref, hrefrence, hreclaimRef, hrefs, hlisted, hqueued, hthreads⟩,
    husecount, -, -⟩ := h
  have hplace : place = .unlisted ∨ place = .restored := by
    cases place <;> simp_all
  rcases hplace with rfl | rfl
  · refine Good.of_stands .unlisted ref
      ⟨hrefrence, hreclaimRef, hrefs, hlisted, ?_, ?_⟩ husecount hcollected fun _ _ => ⟨_, rfl⟩
    · simp [hqueued]
    · simp_all
  · refine Good.of_stands .unlisted ref
      ⟨hrefrence, hreclaimRef, hrefs, hlisted, ?_, ?_⟩ husecount hcollected fun _ _ => ⟨_, rfl⟩
    · simp [hqueued, hrefrence]
    · simp_all

theorem Good.keep_reference (h : Good v) (hmain : v.main = .playing .referencing)
    (hsome : v.sound.refrence.isSome) : Good { v with main := .playing .listing } := by
  refine h.main_goes (h.not_collected (by simp [hmain])) ?_ fun _ _ => ⟨_, rfl⟩
  intro place ref hstands
  have hthreads := hstands.threads
  rw [hstands.refrence] at hsome
  cases place <;> simp_all

theorem Good.register (h : Good v) (hmain : v.main = .playing .referencing)
    (hnone : v.sound.refrence = none) (key : Nat) :
    Good { v with
      sound := { v.sound with refrence := some key }
      refs := key :: v.refs
      main := .playing .listing } := by
  have hcollected := h.not_collected (by simp [hmain])
  obtain ⟨⟨place, ref, hrefrence, hreclaimRef, hrefs, hlisted, hqueued, hthreads⟩,
    husecount, -, -⟩ := h
  have hplace : place = .released := by
    cases place <;> simp_all
  subst hplace
  refine Good.of_stands .unlisted key
    ⟨rfl, hreclaimRef, ?_, hlisted, hqueued, ?_⟩ husecount hcollected fun _ _ => ⟨_, rfl⟩
  · simp [hrefs]
  · simp_all

theorem Good.list (h : Good v) (hmain : v.main = .playing .listing) :
    Good { v with
      listed := v.sound.refrence :: v.listed
      main := .elsewhere } := by
  have hcollected := h.not_collected (by simp [hmain])
  obtain ⟨⟨place, ref, hrefrence, hreclaimRef, hrefs, hlisted, hqueued, hthreads⟩,
    husecount, -, -⟩ := h
  have hplace : place = .unlisted := place_of_allowed hthreads (by rw [hmain]; rfl)
  subst hplace
  refine Good.of_stands .listed ref
    ⟨hrefrence, hreclaimRef, hrefs, ?_, hqueued, ?_⟩ husecount hcollected ?_
  · simp [hlisted, hrefrence]
  · rcases hthread : v.thread with _ | stage | stage <;> simp_all
  · simp [hrefrence]

theorem Good.pop (h : Good v) (hmain : v.main = .elsewhere) {index : Option Nat}
    (hindex : index ∈ v.queued) :
    Good { v with
      queued := v.queued.erase index
      main := .releasing } := by
  obtain ⟨⟨place, ref, hrefrence, hreclaimRef, hrefs, hlisted, hqueued, hthreads⟩,
    husecount, hcollected, hplaying⟩ := h
  have hplace : place = .queued := by
    rw [hqueued] at hindex
    cases place <;> simp_all
  subst hplace
  refine Good.of_stands .kept ref
    ⟨hrefrence, hreclaimRef, hrefs, hlisted, ?_, ?_⟩ husecount ?_ ?_
  · simp_all
  · simp_all
  · cases hc : v.collected with
    | false => rfl
    | true => simp_all
  · intro hp hr
    simpa [hmain] using hplaying hp hr

theorem Good.release (h : Good v) (hmain : v.main = .releasing) {ref : Nat}
    (href : v.sound.reclaimRef = some ref) :
    Good { v with
      sound := { v.sound with reclaimRef := none }
      refs := v.refs.erase ref
      main := .elsewhere } := by
  have hcollected := h.not_collected (by simp [hmain])
  obtain ⟨⟨place, own, hrefrence, hreclaimRef, hrefs, hlisted, hqueued, hthreads⟩,
    husecount, -, hplaying⟩ := h
  have hplace : place = .kept := place_of_allowed hthreads (by rw [hmain]; rfl)
  subst hplace
  refine Good.of_stands .released own
    ⟨hrefrence, rfl, ?_, hlisted, hqueued, ?_⟩ husecount hcollected ?_
  · simp_all
  · simp_all
  · intro hp hr
    simpa [hmain] using hplaying hp hr

theorem Good.refrence_of_removing (h : Good v) (hmain : v.main = .playing .removing) :
    v.sound.refrence.isSome := by
  obtain ⟨place, ref, hstands⟩ := h.stands
  have hthreads := hstands.threads
  rw [hstands.refrence]
  cases place <;> simp_all

theorem Good.reclaimRef_of_releasing (h : Good v) (hmain : v.main = .releasing) :
    v.sound.reclaimRef.isSome := by
  obtain ⟨place, ref, hstands⟩ := h.stands
  have hthreads := hstands.threads
  rw [hstands.reclaimRef]
  cases place <;> simp_all

end MainThread

section Collector

variable {v : View}

theorem Good.forget (h : Good v) : Good { v with script := false } :=
  ⟨h.stands.imp fun _ => Exists.imp fun _ hstands => { hstands with }, h.usecount,
    fun hc => ⟨(h.collected hc).1, rfl, (h.collected hc).2.2⟩, h.playing⟩

theorem Good.acquire (h : Good v) (hrefs : v.refs ≠ []) : Good { v with script := true } :=
  ⟨h.stands.imp fun _ => Exists.imp fun _ hstands => { hstands with }, h.usecount,
    fun hc => absurd (h.collected hc).1 hrefs, h.playing⟩

theorem Good.collect (h : Good v) (hrefs : v.refs = []) (hscript : v.script = false)
    (hstop : ∀ stage, v.main ≠ .stopping stage) (hplay : ∀ stage, v.main ≠ .playing stage) :
    Good { v with collected := true } := by
  obtain ⟨⟨place, ref, hstands⟩, husecount, -, hplaying⟩ := h
  have hmain : v.main = .elsewhere := by
    have hthreads := hstands.threads
    have hplace := hstands.refs
    rcases hmain : v.main with _ | _ | stage | stage
    · rfl
    · cases place <;> simp_all
    · exact absurd hmain (hstop stage)
    · exact absurd hmain (hplay stage)
  exact ⟨⟨place, ref, { hstands with }⟩, husecount, fun _ => ⟨hrefs, hscript, hmain⟩, hplaying⟩

end Collector

section References

variable {v : View}

/-- The indices of a stream, and its references, are its keys in the registry. -/
theorem Good.ref_mem (h : Good v) {index : Option Nat}
    (hindex : index ∈ v.listed ∨ index ∈ v.queued) : ∃ ref ∈ v.refs, index = some ref := by
  obtain ⟨place, ref, -, -, hrefs, hlisted, hqueued, -⟩ := h.stands
  rw [hlisted, hqueued] at hindex
  refine ⟨ref, ?_, ?_⟩
  · rw [hrefs]
    cases place <;> simp_all
  · cases place <;> simp_all

theorem Good.refrence_mem (h : Good v) {ref : Nat} (href : v.sound.refrence = some ref) :
    ref ∈ v.refs := by
  obtain ⟨place, own, hrefrence, -, hrefs, -⟩ := h.stands
  cases place <;> simp_all

theorem Good.reclaimRef_mem (h : Good v) {ref : Nat} (href : v.sound.reclaimRef = some ref) :
    ref ∈ v.refs := by
  obtain ⟨place, own, -, hreclaimRef, hrefs, -⟩ := h.stands
  cases place <;> simp_all

/-- A stream in the hands of the buffer thread is registered. -/
theorem Good.refs_ne_nil (h : Good v) (hthread : v.thread ≠ .elsewhere) : v.refs ≠ [] := by
  obtain ⟨place, ref, -, -, hrefs, -, -, hthreads⟩ := h.stands
  rw [hrefs]
  rintro hnil
  have hplace : place = .released := by
    cases place <;> simp_all
  subst hplace
  cases hmain : v.main with
  | elsewhere => simp_all
  | stopping stage => simp_all
  | playing stage => cases stage <;> simp_all
  | releasing => simp_all

theorem Good.not_collected_of_refs (h : Good v) (hrefs : v.refs ≠ []) : v.collected = false := by
  cases hcollected : v.collected with
  | false => rfl
  | true => exact absurd (h.collected hcollected).1 hrefs

theorem Good.queued_length (h : Good v) : v.queued.length ≤ 1 := by
  obtain ⟨place, ref, -, -, -, -, hqueued, -⟩ := h.stands
  rw [hqueued]
  cases place <;> simp

end References

end LuaMumble.Audio.Reclaim
