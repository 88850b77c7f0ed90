import LuaMumble.Audio.Mixer
import LuaMumble.Audio.Reclaim

/-!
The two references of an audio stream and the two lists that it may be in. The calls of the
main thread, and a pin or an unpin of the buffer thread, are one step each, in any order on any
streams. A stream that plays or is paused has its reference and one node in `stream_list`; one
that was stopped keeps the reference until it is unpinned, and then in the queue of those that
are given back.
-/

namespace LuaMumble.Audio.Registry

open Lib
open Reclaim (LinkNode listAdd listRemove)

variable {ι : Type} [DecidableEq ι]

/-- The streams of a client. `registry` has the references in use. `bufferPins` and `mainPins`
count the pins that each thread holds, and `released` are the references that were given back,
with whether they were in use. -/
structure State (ι : Type) where
  sounds : ι → Reclaim.AudioStream
  registry : List Nat
  streamList : List (LinkNode ι)
  reclaimList : List (LinkNode ι)
  bufferPins : ι → Nat
  mainPins : ι → Nat
  released : List (Nat × Bool)

/-- All streams are open and at rest. -/
def opened : State ι where
  sounds := fun _ => Reclaim.openAudio
  registry := []
  streamList := []
  reclaimList := []
  bufferPins := fun _ => 0
  mainPins := fun _ => 0
  released := []

def State.modify (s : State ι) (sound : ι) (f : Reclaim.AudioStream → Reclaim.AudioStream) :
    State ι :=
  { s with sounds := Function.update s.sounds sound (f (s.sounds sound)) }

/-- `mumble_registry_unref` -/
def mumbleRegistryUnref (ref : Nat) (s : State ι) : State ι :=
  { s with
    registry := s.registry.filter fun other => other ≠ ref
    released := s.released ++ [(ref, decide (ref ∈ s.registry))] }

/-- `sound_try_pin`: nothing comes between its two tests. -/
def soundTryPin (sound : ι) (s : State ι) : Option (State ι) :=
  if (s.sounds sound).reclaimed then none
  else some (s.modify sound fun a => { a with usecount := a.usecount + 1 })

/-- `sound_unpin_schedule_unref_if_needed` -/
def soundUnpinScheduleUnrefIfNeeded (sound : ι) (s : State ι) : State ι :=
  let prev := (s.sounds sound).usecount
  let s := s.modify sound fun a => { a with usecount := a.usecount - 1 }
  if prev = 1 ∧ (s.sounds sound).reclaimed = true then
    if (s.sounds sound).reclaimRef.isSome then
      { s with reclaimList := listAdd s.reclaimList (s.sounds sound).reclaimRef sound }
    else s
  else s

/-- The main thread pins a stream, and drops the pin again. -/
def mainPin (sound : ι) (s : State ι) : Option (State ι) :=
  (soundTryPin sound s).map fun s =>
    { s with mainPins := Function.update s.mainPins sound (s.mainPins sound + 1) }

def mainUnpin (sound : ι) (s : State ι) : State ι :=
  soundUnpinScheduleUnrefIfNeeded sound
    { s with mainPins := Function.update s.mainPins sound (s.mainPins sound - 1) }

/-- `audiostream_reset_playback_state`, without the ring and the file. -/
def audiostreamResetPlaybackState (sound : ι) (s : State ι) : State ι :=
  s.modify sound fun a => { a with playing := false }

/-- The beginning of `audio_transmission_reference`: the reference that was kept for the
reclamation is taken back. -/
def cancelReclamation (sound : ι) (s : State ι) : State ι :=
  if (s.sounds sound).reclaimed then
    let s := s.modify sound fun a => { a with reclaimed := false }
    if (s.sounds sound).reclaimRef.isSome then
      let s := s.modify sound fun a => { a with refrence := a.reclaimRef, reclaimRef := none }
      { s with reclaimList := listRemove s.reclaimList (s.sounds sound).refrence }
    else s
  else s

/-- The middle of it: a reference where there is none. -/
def ensureReference (registryRef : Mixer.RegistryRef) (sound : ι) (s : State ι) : State ι :=
  if (s.sounds sound).refrence.isNone then
    let ref := registryRef.ref s.registry
    { s.modify sound fun a => { a with refrence := some ref } with registry := ref :: s.registry }
  else s

/-- `audio_transmission_reference` -/
def audioTransmissionReference (registryRef : Mixer.RegistryRef) (sound : ι) (s : State ι) :
    State ι :=
  let s := ensureReference registryRef sound (cancelReclamation sound s)
  { s with streamList := listAdd s.streamList (s.sounds sound).refrence sound }

/-- `audio_transmission_unreference_locked` -/
def audioTransmissionUnreferenceLocked (sound : ι) (s : State ι) : State ι :=
  let s :=
    if (s.sounds sound).refrence.isSome then
      { s with streamList := listRemove s.streamList (s.sounds sound).refrence }
    else s
  let s := s.modify sound fun a => { a with reclaimed := true }
  let s :=
    if (s.sounds sound).refrence.isSome then
      s.modify sound fun a => { a with reclaimRef := a.refrence, refrence := none }
    else s
  let s := audiostreamResetPlaybackState sound s
  if (s.sounds sound).usecount = 0 ∧ (s.sounds sound).reclaimRef.isSome = true then
    { s with reclaimList := listAdd s.reclaimList (s.sounds sound).reclaimRef sound }
  else s

/-- `audiostream_play` -/
def audiostreamPlay (registryRef : Mixer.RegistryRef) (sound : ι) (s : State ι) : State ι :=
  let s := audiostreamResetPlaybackState sound s
  let s := s.modify sound fun a => { a with playing := true }
  if (s.sounds sound).refrence.isNone then audioTransmissionReference registryRef sound s else s

/-- `audiostream_pause` -/
def audiostreamPause (sound : ι) (s : State ι) : State ι :=
  s.modify sound fun a => { a with playing := false }

/-- `audiostream_stop` -/
def audiostreamStop (sound : ι) (s : State ι) : State ι :=
  if (s.sounds sound).playing then audioTransmissionUnreferenceLocked sound s else s

def run (registryRef : Mixer.RegistryRef) (method : Mixer.Method) (sound : ι) (s : State ι) :
    State ι :=
  match method with
  | .play => audiostreamPlay registryRef sound s
  | .pause => audiostreamPause sound s
  | .stop => audiostreamStop sound s

/-- A call that a callback of `OnAudioStreamEnd` makes at the end of `sound`. It does not stop
this stream, whose mutex the mixer holds. -/
structure EndCall (sound : ι) where
  method : Mixer.Method
  target : ι
  other : method = .stop → target ≠ sound

/-- The turn in the mixer of a stream that comes to its end: `sound_try_pin`, the callbacks of
`OnAudioStreamEnd`, `audio_transmission_unreference_locked`, and the unpin. -/
def endOfStream (registryRef : Mixer.RegistryRef) (sound : ι) (calls : List (EndCall sound))
    (s : State ι) : State ι :=
  if s.streamList.any fun node => node.2 = sound then
    match mainPin sound s with
    | none => s
    | some s =>
        mainUnpin sound
          (if (s.sounds sound).playing then
            audioTransmissionUnreferenceLocked sound
              (calls.foldl (fun s call => run registryRef call.method call.target s) s)
          else s)
  else s

/-- A turn of the loop of `audio_transmission_bitrate_warning`. -/
def stopPinned (s : State ι) (sound : ι) : State ι :=
  match mainPin sound s with
  | none => s
  | some s => mainUnpin sound (audioTransmissionUnreferenceLocked sound s)

/-- `audio_transmission_bitrate_warning`: the node behind a stream is read before the stream is
stopped, and no turn takes out a node but its own. -/
def audioTransmissionBitrateWarning (s : State ι) : State ι :=
  (s.streamList.map Prod.snd).foldl stopPinned s

/-- The loop of `sound_clean_reclaimed`; each round takes a node out of the list, so its length
is enough fuel. -/
def soundCleanReclaimed : Nat → State ι → State ι
  | 0, s => s
  | fuel + 1, s =>
      match s.reclaimList with
      | [] => s
      | (idx, sound) :: _ =>
          let s := { s with reclaimList := listRemove s.reclaimList idx }
          soundCleanReclaimed fuel
            (match (s.sounds sound).reclaimRef with
              | some ref =>
                  mumbleRegistryUnref ref (s.modify sound fun a => { a with reclaimRef := none })
              | none => s)

/-- The buffer thread pins a stream that it finds in `stream_list`. -/
def bufferPin (sound : ι) (s : State ι) : State ι :=
  if s.streamList.any fun node => node.2 = sound then
    match soundTryPin sound s with
    | none => s
    | some s => { s with bufferPins := Function.update s.bufferPins sound (s.bufferPins sound + 1) }
  else s

/-- The buffer thread drops a pin that it holds. -/
def bufferUnpin (sound : ι) (s : State ι) : State ι :=
  if s.bufferPins sound = 0 then s
  else
    soundUnpinScheduleUnrefIfNeeded sound
      { s with bufferPins := Function.update s.bufferPins sound (s.bufferPins sound - 1) }

/-- What happens next: a call of a script, the end of a stream in the mixer, the bitrate
warning, `sound_clean_reclaimed`, a pin or an unpin. -/
inductive Step (ι : Type) where
  | call (method : Mixer.Method) (sound : ι)
  | endOfStream (sound : ι) (calls : List (EndCall sound))
  | bitrateWarning
  | clean
  | pin (sound : ι)
  | unpin (sound : ι)

def step (registryRef : Mixer.RegistryRef) (s : State ι) (e : Step ι) : Unit × State ι :=
  ((), match e with
    | .call method sound => run registryRef method sound s
    | .endOfStream sound calls => endOfStream registryRef sound calls s
    | .bitrateWarning => audioTransmissionBitrateWarning s
    | .clean => soundCleanReclaimed s.reclaimList.length s
    | .pin sound => bufferPin sound s
    | .unpin sound => bufferUnpin sound s)

/-- The stream owns the reference. -/
def Owns (a : Reclaim.AudioStream) (ref : Nat) : Prop :=
  a.refrence = some ref ∨ a.reclaimRef = some ref

/-- The indices of the nodes of a stream that has, or has not, that reference. -/
def nodesOf : Option Nat → List (Option Nat)
  | some ref => [some ref]
  | none => []

/-- The pins on a stream. -/
def State.pins (s : State ι) (sound : ι) : Nat :=
  s.bufferPins sound + s.mainPins sound

/-- What is asked of a stream: it has an active reference exactly where `stream_list` has one
node for it, with that index; it has no node there once it is reclaimed; and a reference that
waits to be given back is that of a reclaimed stream that is pinned, or queued once. -/
structure Registered (s : State ι) (sound : ι) : Prop where
  listed : ∀ ref, (s.sounds sound).refrence = some ref ↔
    LinkList.indices s.streamList sound = [some ref]
  unlisted : (s.sounds sound).refrence = none ↔ LinkList.indices s.streamList sound = []
  reclaimed : (s.sounds sound).reclaimed = true → LinkList.indices s.streamList sound = []
  reclaimRef : ∀ ref, (s.sounds sound).reclaimRef = some ref →
    (s.sounds sound).reclaimed = true ∧
      (0 < (s.sounds sound).usecount ∨ LinkList.indices s.reclaimList sound = [some ref])

/-- The invariant of one stream, with the indices of its nodes in the two lists. -/
structure Kept (a : Reclaim.AudioStream) (listed queued : List (Option Nat)) (pins : Nat) :
    Prop where
  listed : listed = nodesOf a.refrence
  queued : queued = if pins = 0 then nodesOf a.reclaimRef else []
  active : a.refrence ≠ none → a.reclaimed = false ∧ a.reclaimRef = none
  waiting : a.reclaimRef ≠ none → a.reclaimed = true
  playing : a.playing = true → a.refrence ≠ none
  usecount : a.usecount = pins

def State.Keeps (s : State ι) (sound : ι) : Prop :=
  Kept (s.sounds sound) (LinkList.indices s.streamList sound)
    (LinkList.indices s.reclaimList sound) (s.pins sound)

/-- The invariant: besides, the references in use are those that streams own, one each, and
no other was given back. -/
structure Inv (s : State ι) : Prop where
  kept : ∀ sound, s.Keeps sound
  owned : ∀ ref, ref ∈ s.registry ↔ ∃ sound, Owns (s.sounds sound) ref
  apart : ∀ sound other ref, Owns (s.sounds sound) ref → Owns (s.sounds other) ref → sound = other
  released : ∀ release ∈ s.released, release.2 = true

/-- The two states differ in one stream only. -/
structure SameBut (sound : ι) (s s' : State ι) : Prop where
  sounds : ∀ other, other ≠ sound → s'.sounds other = s.sounds other
  streamList : ∀ other, other ≠ sound →
    LinkList.indices s'.streamList other = LinkList.indices s.streamList other
  reclaimList : ∀ other, other ≠ sound →
    LinkList.indices s'.reclaimList other = LinkList.indices s.reclaimList other
  pins : ∀ other, other ≠ sound → s'.pins other = s.pins other

section Invariant

variable {s s' : State ι} {sound : ι}

/-- A step that writes to one stream. -/
theorem SameBut.of_update {a : Reclaim.AudioStream}
    (hsounds : s'.sounds = Function.update s.sounds sound a)
    (hstreamList : ∀ other, other ≠ sound →
      LinkList.indices s'.streamList other = LinkList.indices s.streamList other)
    (hreclaimList : ∀ other, other ≠ sound →
      LinkList.indices s'.reclaimList other = LinkList.indices s.reclaimList other)
    (hpins : ∀ other, other ≠ sound → s'.pins other = s.pins other) : SameBut sound s s' := by
  refine ⟨?_, hstreamList, hreclaimList, hpins⟩
  intro other hother
  rw [hsounds]
  exact Function.update_of_ne hother _ _

theorem inv_opened : Inv (opened : State ι) := by
  refine ⟨fun sound => ⟨rfl, rfl, by simp [opened, Reclaim.openAudio],
    by simp [opened, Reclaim.openAudio], by simp [opened, Reclaim.openAudio], rfl⟩, ?_, ?_,
    by simp [opened]⟩
  · simp [opened, Reclaim.openAudio, Owns]
  · simp [opened, Reclaim.openAudio, Owns]

theorem Kept.registered (h : s.Keeps sound) : Registered s sound := by
  refine ⟨?_, ?_, ?_, ?_⟩
  · intro ref
    rw [h.listed]
    cases (s.sounds sound).refrence with
    | none => simp [nodesOf]
    | some other => simp [nodesOf]
  · rw [h.listed]
    cases (s.sounds sound).refrence with
    | none => simp [nodesOf]
    | some other => simp [nodesOf]
  · intro hreclaimed
    have hnone : (s.sounds sound).refrence = none := by
      by_contra hsome
      rw [(h.active hsome).1] at hreclaimed
      cases hreclaimed
    rw [h.listed, hnone]
    rfl
  · intro ref href
    refine ⟨h.waiting (by simp [href]), ?_⟩
    by_cases hpins : s.pins sound = 0
    · right
      rw [h.queued, if_pos hpins, href]
      rfl
    · left
      rw [h.usecount]
      omega

/-- A step on one stream keeps the invariant if it keeps that of the stream, and the registry
in line with the references of the stream. -/
theorem Inv.update (h : Inv s) (sound : ι) (hsame : SameBut sound s s') (hkept : s'.Keeps sound)
    (hregistry : ∀ ref, ref ∈ s'.registry ↔
      Owns (s'.sounds sound) ref ∨ ref ∈ s.registry ∧ ¬ Owns (s.sounds sound) ref)
    (hfresh : ∀ ref, Owns (s'.sounds sound) ref → Owns (s.sounds sound) ref ∨ ref ∉ s.registry)
    (hreleased : ∀ release ∈ s'.released, release.2 = true) : Inv s' := by
  have hapart (other : ι) (ref : Nat) (hne : other ≠ sound) (hnew : Owns (s'.sounds sound) ref)
      (hother : Owns (s.sounds other) ref) : False := by
    rcases hfresh ref hnew with hold | hnot
    · exact hne (h.apart other sound ref hother hold)
    · exact hnot ((h.owned ref).mpr ⟨other, hother⟩)
  refine ⟨?_, ?_, ?_, hreleased⟩
  · intro other
    by_cases hother : other = sound
    · rw [hother]
      exact hkept
    · unfold State.Keeps
      rw [hsame.sounds other hother, hsame.streamList other hother,
        hsame.reclaimList other hother, hsame.pins other hother]
      exact h.kept other
  · intro ref
    rw [hregistry ref]
    constructor
    · rintro (hnew | ⟨hmem, hnot⟩)
      · exact ⟨sound, hnew⟩
      · obtain ⟨other, hother⟩ := (h.owned ref).mp hmem
        have hne : other ≠ sound := by
          rintro rfl
          exact hnot hother
        exact ⟨other, (hsame.sounds other hne).symm ▸ hother⟩
    · rintro ⟨other, hother⟩
      by_cases hsound : other = sound
      · exact Or.inl (hsound ▸ hother)
      · rw [hsame.sounds other hsound] at hother
        refine Or.inr ⟨(h.owned ref).mpr ⟨other, hother⟩, ?_⟩
        intro hself
        exact hsound (h.apart other sound ref hother hself)
  · intro x y ref hx hy
    by_cases hxs : x = sound <;> by_cases hys : y = sound
    · rw [hxs, hys]
    · rw [hxs] at hx
      rw [hsame.sounds y hys] at hy
      exact (hapart y ref hys hx hy).elim
    · rw [hys] at hy
      rw [hsame.sounds x hxs] at hx
      exact (hapart x ref hxs hy hx).elim
    · rw [hsame.sounds x hxs] at hx
      rw [hsame.sounds y hys] at hy
      exact h.apart x y ref hx hy

/-- The same where the stream owns what it owned. -/
theorem Inv.update_of_owns (h : Inv s) (sound : ι) (hsame : SameBut sound s s')
    (hkept : s'.Keeps sound)
    (howns : ∀ ref, Owns (s'.sounds sound) ref ↔ Owns (s.sounds sound) ref)
    (hregistry : s'.registry = s.registry) (hreleased : s'.released = s.released) : Inv s' := by
  refine h.update sound hsame hkept ?_ ?_ (hreleased ▸ h.released)
  · intro ref
    rw [hregistry, howns ref]
    have hmem : Owns (s.sounds sound) ref → ref ∈ s.registry := fun hown =>
      (h.owned ref).mpr ⟨sound, hown⟩
    tauto
  · intro ref hnew
    exact Or.inl ((howns ref).mp hnew)

/-- A node of another stream has another index. -/
theorem Inv.only_listed (h : Inv s) {ref : Nat} (hown : Owns (s.sounds sound) ref) (other : ι)
    (hmem : some ref ∈ LinkList.indices s.streamList other) : other = sound := by
  rw [(h.kept other).listed] at hmem
  refine h.apart other sound ref (Or.inl ?_) hown
  cases hother : (s.sounds other).refrence with
  | none => simp [hother, nodesOf] at hmem
  | some held => simpa [hother, nodesOf, eq_comm] using hmem

theorem Inv.only_queued (h : Inv s) {ref : Nat} (hown : Owns (s.sounds sound) ref) (other : ι)
    (hmem : some ref ∈ LinkList.indices s.reclaimList other) : other = sound := by
  rw [(h.kept other).queued] at hmem
  refine h.apart other sound ref (Or.inr ?_) hown
  split at hmem
  · cases hother : (s.sounds other).reclaimRef with
    | none => simp [hother, nodesOf] at hmem
    | some held => simpa [hother, nodesOf, eq_comm] using hmem
  · cases hmem

/-- A pin on a stream that is not reclaimed. -/
theorem Inv.pin (h : Inv s) (hreclaimed : (s.sounds sound).reclaimed = false)
    (bufferPins mainPins : ι → Nat)
    (hothers : ∀ other, other ≠ sound → bufferPins other + mainPins other = s.pins other)
    (hself : bufferPins sound + mainPins sound = s.pins sound + 1) :
    Inv { s.modify sound fun a => { a with usecount := a.usecount + 1 } with
      bufferPins := bufferPins
      mainPins := mainPins } := by
  have hkept := h.kept sound
  have hnone : (s.sounds sound).reclaimRef = none := by
    by_contra hsome
    rw [hkept.waiting hsome] at hreclaimed
    cases hreclaimed
  refine h.update_of_owns sound (.of_update rfl (fun _ _ => rfl) (fun _ _ => rfl) hothers) ?_ ?_
    rfl rfl
  · have hpins : State.pins { s.modify sound fun a => { a with usecount := a.usecount + 1 } with
        bufferPins := bufferPins, mainPins := mainPins } sound = s.pins sound + 1 := hself
    unfold State.Keeps
    rw [hpins]
    simp only [State.modify, Function.update_self]
    refine ⟨hkept.listed, ?_, hkept.active, hkept.waiting, hkept.playing, ?_⟩
    · rw [hkept.queued, hnone]
      simp [nodesOf]
    · have husecount := hkept.usecount
      simp only [husecount]
      omega
  · intro ref
    simp only [State.modify, Function.update_self]
    rfl

theorem unpin_eq (sound : ι) (s : State ι) :
    soundUnpinScheduleUnrefIfNeeded sound s =
      { s with
        sounds := Function.update s.sounds sound
          { s.sounds sound with usecount := (s.sounds sound).usecount - 1 }
        reclaimList :=
          if (s.sounds sound).usecount = 1 ∧ (s.sounds sound).reclaimed = true ∧
              (s.sounds sound).reclaimRef.isSome = true then
            listAdd s.reclaimList (s.sounds sound).reclaimRef sound
          else s.reclaimList } := by
  simp only [soundUnpinScheduleUnrefIfNeeded, State.modify, Function.update_self]
  by_cases hlast : (s.sounds sound).usecount = 1 ∧ (s.sounds sound).reclaimed = true
  · by_cases hsome : (s.sounds sound).reclaimRef.isSome = true
    · rw [if_pos hlast, if_pos hsome, if_pos ⟨hlast.1, hlast.2, hsome⟩]
    · rw [if_pos hlast, if_neg hsome, if_neg (fun h => hsome h.2.2)]
  · rw [if_neg hlast, if_neg (fun h => hlast ⟨h.1, h.2.1⟩)]

/-- An unpin: the last one queues a reclaimed stream. -/
theorem Inv.unpin (h : Inv s) (bufferPins mainPins : ι → Nat)
    (hothers : ∀ other, other ≠ sound → bufferPins other + mainPins other = s.pins other)
    (hself : bufferPins sound + mainPins sound + 1 = s.pins sound) :
    Inv (soundUnpinScheduleUnrefIfNeeded sound
      { s with bufferPins := bufferPins, mainPins := mainPins }) := by
  have hkept := h.kept sound
  have husecount := hkept.usecount
  have hqueued : LinkList.indices s.reclaimList sound = [] := by
    rw [hkept.queued, if_neg (by omega)]
  rw [unpin_eq]
  refine h.update_of_owns sound (.of_update rfl (fun _ _ => rfl) ?_ hothers) ?_ ?_ rfl rfl
  · intro other hother
    dsimp only
    split
    · exact LinkList.indices_cons_of_ne _ hother _
    · rfl
  · change Kept _ _ _ (bufferPins sound + mainPins sound)
    simp only [Function.update_self]
    refine ⟨hkept.listed, ?_, hkept.active, hkept.waiting, hkept.playing, ?_⟩
    · cases hreclaimRef : (s.sounds sound).reclaimRef with
      | none => simp [nodesOf, hqueued]
      | some ref =>
          have hreclaimed := hkept.waiting (by simp [hreclaimRef])
          by_cases hlast : bufferPins sound + mainPins sound = 0
          · have hone : (s.sounds sound).usecount = 1 := by omega
            simp [hone, hreclaimed, hlast, nodesOf, listAdd, hqueued]
          · have hmore : (s.sounds sound).usecount ≠ 1 := by omega
            rw [if_neg fun h => hmore h.1, if_neg hlast]
            exact hqueued
    · dsimp only
      omega
  · intro ref
    simp only [Function.update_self]
    rfl

theorem unreference_eq {ref : Nat} (href : (s.sounds sound).refrence = some ref) :
    audioTransmissionUnreferenceLocked sound s =
      { s with
        sounds := Function.update s.sounds sound
          { s.sounds sound with
            refrence := none
            reclaimRef := some ref
            reclaimed := true
            playing := false }
        streamList := listRemove s.streamList (some ref)
        reclaimList :=
          if (s.sounds sound).usecount = 0 then listAdd s.reclaimList (some ref) sound
          else s.reclaimList } := by
  by_cases husecount : (s.sounds sound).usecount = 0
  · simp [audioTransmissionUnreferenceLocked, audiostreamResetPlaybackState, State.modify, href,
      husecount]
  · simp [audioTransmissionUnreferenceLocked, audiostreamResetPlaybackState, State.modify, href,
      husecount]

/-- Taking the node of a reference out of `stream_list` changes nothing for other streams. -/
theorem Inv.streamList_remove (h : Inv s) {ref : Nat} (hown : Owns (s.sounds sound) ref)
    {other : ι} (hother : other ≠ sound) :
    LinkList.indices (listRemove s.streamList (some ref)) other =
      LinkList.indices s.streamList other :=
  LinkList.indices_remove_of_notMem fun hmem => hother (h.only_listed hown other hmem)

theorem Inv.reclaimList_remove (h : Inv s) {ref : Nat} (hown : Owns (s.sounds sound) ref)
    {other : ι} (hother : other ≠ sound) :
    LinkList.indices (listRemove s.reclaimList (some ref)) other =
      LinkList.indices s.reclaimList other :=
  LinkList.indices_remove_of_notMem fun hmem => hother (h.only_queued hown other hmem)

/-- A stop of a stream that has its reference: the reference waits to be given back, in the
queue if nobody has a pin. -/
theorem Inv.unreference (h : Inv s) (hactive : (s.sounds sound).refrence ≠ none) :
    Inv (audioTransmissionUnreferenceLocked sound s) := by
  have hkept := h.kept sound
  obtain ⟨hreclaimed, hnone⟩ := hkept.active hactive
  obtain ⟨ref, href⟩ := Option.ne_none_iff_exists'.mp hactive
  have hown : Owns (s.sounds sound) ref := Or.inl href
  rw [unreference_eq href]
  refine h.update_of_owns sound (.of_update rfl ?_ ?_ (fun _ _ => rfl)) ?_ ?_ rfl rfl
  · intro other hother
    exact h.streamList_remove hown hother
  · intro other hother
    dsimp only
    split
    · exact LinkList.indices_cons_of_ne _ hother _
    · rfl
  · have hlisted : LinkList.indices (listRemove s.streamList (some ref)) sound = [] := by
      rw [listRemove, LinkList.indices_remove_self (h.only_listed hown), hkept.listed, href]
      simp [nodesOf]
    have hqueued : LinkList.indices s.reclaimList sound = [] := by
      rw [hkept.queued, hnone]
      simp [nodesOf]
    have husecount := hkept.usecount
    unfold State.Keeps
    simp only [Function.update_self]
    refine ⟨hlisted, ?_, by simp, by simp, by simp, hkept.usecount⟩
    change _ = if s.pins sound = 0 then _ else _
    by_cases hpins : s.pins sound = 0
    · have hzero : (s.sounds sound).usecount = 0 := by omega
      simp [hzero, hpins, nodesOf, listAdd, hqueued]
    · have hmore : (s.sounds sound).usecount ≠ 0 := by omega
      simp [hmore, hpins, hqueued]
  · intro other
    simp only [Function.update_self, Owns]
    rw [href, hnone]
    simp

/-- A change of `playing` alone. -/
theorem Inv.setPlaying (h : Inv s) (playing : Bool)
    (hplaying : playing = true → (s.sounds sound).refrence ≠ none) :
    Inv (s.modify sound fun a => { a with playing := playing }) := by
  have hkept := h.kept sound
  refine h.update_of_owns sound (.of_update rfl (fun _ _ => rfl) (fun _ _ => rfl) (fun _ _ => rfl))
    ?_ ?_ rfl rfl
  · unfold State.Keeps
    simp only [State.modify, Function.update_self]
    exact ⟨hkept.listed, hkept.queued, hkept.active, hkept.waiting, hplaying, hkept.usecount⟩
  · intro ref
    simp only [State.modify, Function.update_self]
    rfl

variable (registryRef : Mixer.RegistryRef)

theorem play_eq_of_active (hactive : (s.sounds sound).refrence ≠ none) :
    audiostreamPlay registryRef sound s =
      s.modify sound fun a => { a with playing := true } := by
  obtain ⟨ref, href⟩ := Option.ne_none_iff_exists'.mp hactive
  simp [audiostreamPlay, audiostreamResetPlaybackState, State.modify, href]

/-- `audiostream_play` on a stream that waits to be given back. -/
theorem play_eq_of_waiting {ref : Nat} (hnone : (s.sounds sound).refrence = none)
    (href : (s.sounds sound).reclaimRef = some ref)
    (hreclaimed : (s.sounds sound).reclaimed = true) :
    audiostreamPlay registryRef sound s =
      { s with
        sounds := Function.update s.sounds sound
          { s.sounds sound with
            refrence := some ref
            reclaimRef := none
            reclaimed := false
            playing := true }
        streamList := listAdd s.streamList (some ref) sound
        reclaimList := listRemove s.reclaimList (some ref) } := by
  simp [audiostreamPlay, audiostreamResetPlaybackState, audioTransmissionReference,
    cancelReclamation, ensureReference, State.modify, hnone, href, hreclaimed]

/-- `audiostream_play` on a stream that has no reference. -/
theorem play_eq_of_none (hnone : (s.sounds sound).refrence = none)
    (hreclaimRef : (s.sounds sound).reclaimRef = none) :
    audiostreamPlay registryRef sound s =
      { s with
        sounds := Function.update s.sounds sound
          { s.sounds sound with
            refrence := some (registryRef.ref s.registry)
            reclaimed := false
            playing := true }
        registry := registryRef.ref s.registry :: s.registry
        streamList := listAdd s.streamList (some (registryRef.ref s.registry)) sound } := by
  cases hreclaimed : (s.sounds sound).reclaimed with
  | true =>
      simp [audiostreamPlay, audiostreamResetPlaybackState, audioTransmissionReference,
        cancelReclamation, ensureReference, State.modify, hnone, hreclaimRef, hreclaimed]
  | false =>
      simp [audiostreamPlay, audiostreamResetPlaybackState, audioTransmissionReference,
        cancelReclamation, ensureReference, State.modify, hnone, hreclaimRef, hreclaimed]

theorem Inv.play_waiting (h : Inv s) {ref : Nat} (hnone : (s.sounds sound).refrence = none)
    (href : (s.sounds sound).reclaimRef = some ref) :
    Inv (audiostreamPlay registryRef sound s) := by
  have hkept := h.kept sound
  have hown : Owns (s.sounds sound) ref := Or.inr href
  rw [play_eq_of_waiting registryRef hnone href (hkept.waiting (by simp [href]))]
  refine h.update_of_owns sound (.of_update rfl ?_ ?_ (fun _ _ => rfl)) ?_ ?_ rfl rfl
  · intro other hother
    exact LinkList.indices_cons_of_ne _ hother _
  · intro other hother
    exact h.reclaimList_remove hown hother
  · have hlisted : LinkList.indices s.streamList sound = [] := by
      rw [hkept.listed, hnone]
      rfl
    have hqueued : LinkList.indices (listRemove s.reclaimList (some ref)) sound = [] := by
      rw [listRemove, LinkList.indices_remove_self (h.only_queued hown), hkept.queued, href]
      split <;> simp [nodesOf]
    unfold State.Keeps
    simp only [Function.update_self]
    refine ⟨?_, ?_, by simp, by simp, by simp, hkept.usecount⟩
    · simp [listAdd, hlisted, nodesOf]
    · simp [hqueued, nodesOf]
  · intro other
    simp only [Function.update_self, Owns]
    rw [href, hnone]
    simp

theorem Inv.play_fresh (h : Inv s) (hnone : (s.sounds sound).refrence = none)
    (hreclaimRef : (s.sounds sound).reclaimRef = none) :
    Inv (audiostreamPlay registryRef sound s) := by
  have hkept := h.kept sound
  have hnew := registryRef.fresh s.registry
  rw [play_eq_of_none registryRef hnone hreclaimRef]
  have howns (ref : Nat) : ¬ Owns (s.sounds sound) ref := by
    simp [Owns, hnone, hreclaimRef]
  refine h.update sound (.of_update rfl ?_ (fun _ _ => rfl) (fun _ _ => rfl)) ?_ ?_ ?_ h.released
  · intro other hother
    exact LinkList.indices_cons_of_ne _ hother _
  · have hlisted : LinkList.indices s.streamList sound = [] := by
      rw [hkept.listed, hnone]
      rfl
    have hqueued : LinkList.indices s.reclaimList sound = [] := by
      rw [hkept.queued, hreclaimRef]
      simp [nodesOf]
    unfold State.Keeps
    simp only [Function.update_self]
    refine ⟨?_, ?_, by simp [hreclaimRef], by simp [hreclaimRef], by simp, hkept.usecount⟩
    · simp [listAdd, hlisted, nodesOf]
    · simp [hqueued, hreclaimRef, nodesOf]
  · intro ref
    simp [Owns, hnone, hreclaimRef, eq_comm]
  · intro ref hown
    right
    simp only [Function.update_self, Owns, hreclaimRef, reduceCtorEq, or_false,
      Option.some.injEq] at hown
    rw [← hown]
    exact hnew

theorem Inv.play (h : Inv s) : Inv (audiostreamPlay registryRef sound s) := by
  by_cases hactive : (s.sounds sound).refrence = none
  · cases href : (s.sounds sound).reclaimRef with
    | none => exact h.play_fresh registryRef hactive href
    | some ref => exact h.play_waiting registryRef hactive href
  · rw [play_eq_of_active registryRef hactive]
    exact h.setPlaying true fun _ => hactive

theorem Inv.run (h : Inv s) (method : Mixer.Method) : Inv (run registryRef method sound s) := by
  cases method with
  | play => exact h.play registryRef
  | pause => exact h.setPlaying false (by simp)
  | stop =>
      change Inv (audiostreamStop sound s)
      unfold audiostreamStop
      split
      · rename_i hplaying
        exact h.unreference ((h.kept sound).playing hplaying)
      · exact h

/-- A round of `sound_clean_reclaimed`: the reference of the first stream is given back. -/
theorem Inv.release (h : Inv s) {idx : Option Nat} {rest : List (LinkNode ι)}
    (hlist : s.reclaimList = (idx, sound) :: rest) :
    ∃ ref, (s.sounds sound).reclaimRef = some ref ∧
      Inv (mumbleRegistryUnref ref
        ({ s with reclaimList := listRemove s.reclaimList idx }.modify sound
          fun a => { a with reclaimRef := none })) := by
  have hkept := h.kept sound
  have hmem : idx ∈ LinkList.indices s.reclaimList sound := by
    rw [hlist, LinkList.indices_cons_self]
    exact List.mem_cons_self
  have hpins : s.pins sound = 0 := by
    by_contra hpinned
    rw [hkept.queued, if_neg hpinned] at hmem
    cases hmem
  obtain ⟨ref, href⟩ : ∃ ref, (s.sounds sound).reclaimRef = some ref := by
    rw [hkept.queued, if_pos hpins] at hmem
    cases href : (s.sounds sound).reclaimRef with
    | none => simp [href, nodesOf] at hmem
    | some ref => exact ⟨ref, rfl⟩
  have hidx : idx = some ref := by
    rw [hkept.queued, if_pos hpins, href] at hmem
    exact List.mem_singleton.mp hmem
  have hnone : (s.sounds sound).refrence = none := by
    by_contra hactive
    rw [(hkept.active hactive).2] at href
    cases href
  have hown : Owns (s.sounds sound) ref := Or.inr href
  have howns (other : Nat) : Owns (s.sounds sound) other ↔ other = ref := by
    simp [Owns, hnone, href, eq_comm]
  refine ⟨ref, href, h.update sound (.of_update rfl (fun _ _ => rfl) ?_ (fun _ _ => rfl))
    ?_ ?_ ?_ ?_⟩
  · intro other hother
    rw [hidx]
    exact h.reclaimList_remove hown hother
  · have hqueued : LinkList.indices (listRemove s.reclaimList (some ref)) sound = [] := by
      rw [listRemove, LinkList.indices_remove_self (h.only_queued hown), hkept.queued,
        if_pos hpins, href]
      simp [nodesOf]
    change Kept _ _ _ (s.pins sound)
    simp only [mumbleRegistryUnref, State.modify, Function.update_self]
    refine ⟨hkept.listed, ?_, by simp [hnone], by simp, hkept.playing, hkept.usecount⟩
    rw [hidx, hqueued]
    simp [nodesOf]
  · intro other
    rw [howns]
    simp [mumbleRegistryUnref, State.modify, Owns, hnone]
  · intro other hnew
    simp [mumbleRegistryUnref, State.modify, Owns, hnone] at hnew
  · intro release hrelease
    rcases List.mem_append.mp hrelease with hold | hnew
    · exact h.released release hold
    · rw [List.mem_singleton.mp hnew]
      exact decide_eq_true ((h.owned ref).mpr ⟨sound, hown⟩)

theorem Inv.clean (h : Inv s) (fuel : Nat) : Inv (soundCleanReclaimed fuel s) := by
  induction fuel generalizing s with
  | zero => exact h
  | succ fuel ih =>
      unfold soundCleanReclaimed
      cases hlist : s.reclaimList with
      | nil => exact h
      | cons node rest =>
          obtain ⟨idx, sound⟩ := node
          obtain ⟨ref, href, hinv⟩ := h.release hlist
          rw [hlist] at hinv
          simp only [href]
          exact ih hinv

/-- The loop has enough fuel: it ends with nothing left to give back. -/
theorem clean_reclaimList (fuel : Nat) (s : State ι) (hfuel : s.reclaimList.length ≤ fuel) :
    (soundCleanReclaimed fuel s).reclaimList = [] := by
  induction fuel generalizing s with
  | zero => exact List.eq_nil_of_length_eq_zero (Nat.le_zero.mp hfuel)
  | succ fuel ih =>
      unfold soundCleanReclaimed
      cases hlist : s.reclaimList with
      | nil => exact hlist
      | cons node rest =>
          obtain ⟨idx, sound⟩ := node
          have htaken : listRemove ((idx, sound) :: rest) idx = rest := by
            simp [listRemove, LinkList.remove]
          rw [hlist, List.length_cons] at hfuel
          dsimp only
          rw [htaken]
          apply ih
          split <;> exact Nat.le_of_succ_le_succ hfuel

/-- Calls on one stream leave the members of the others, and all pins, as they are. -/
structure Frame (sound : ι) (s s' : State ι) : Prop where
  sounds : ∀ other, other ≠ sound → s'.sounds other = s.sounds other
  bufferPins : s'.bufferPins = s.bufferPins
  mainPins : s'.mainPins = s.mainPins

omit [DecidableEq ι] in
theorem Frame.refl (sound : ι) (s : State ι) : Frame sound s s :=
  ⟨fun _ _ => rfl, rfl, rfl⟩

theorem frame_modify (sound : ι) (s : State ι)
    (f : Reclaim.AudioStream → Reclaim.AudioStream) : Frame sound s (s.modify sound f) :=
  ⟨fun _ hother => Function.update_of_ne hother _ _, rfl, rfl⟩

omit [DecidableEq ι] in
theorem Frame.trans {s'' : State ι} (h : Frame sound s s') (h' : Frame sound s' s'') :
    Frame sound s s'' :=
  ⟨fun other hother => (h'.sounds other hother).trans (h.sounds other hother),
    h'.bufferPins.trans h.bufferPins, h'.mainPins.trans h.mainPins⟩

omit [DecidableEq ι] in
theorem Frame.ite {s'' : State ι} {c : Prop} [Decidable c] (h : Frame sound s s')
    (h' : Frame sound s s'') : Frame sound s (if c then s' else s'') :=
  iteInduction (fun _ => h) fun _ => h'

theorem frame_unreference (sound : ι) (s : State ι) :
    Frame sound s (audioTransmissionUnreferenceLocked sound s) := by
  unfold audioTransmissionUnreferenceLocked
  extract_lets s₁ s₂ s₃ s₄
  have hunlisted : Frame sound s s₁ :=
    Frame.ite ⟨fun _ _ => rfl, rfl, rfl⟩ (Frame.refl sound s)
  have hreclaimed : Frame sound s s₂ := hunlisted.trans (frame_modify sound s₁ _)
  have hmoved : Frame sound s s₃ :=
    hreclaimed.trans (Frame.ite (frame_modify sound s₂ _) (Frame.refl sound s₂))
  have hreset : Frame sound s s₄ := hmoved.trans (frame_modify sound s₃ _)
  exact Frame.ite ⟨hreset.sounds, hreset.bufferPins, hreset.mainPins⟩ hreset

theorem frame_cancel (sound : ι) (s : State ι) : Frame sound s (cancelReclamation sound s) := by
  have hcleared := frame_modify sound s fun a => { a with reclaimed := false }
  unfold cancelReclamation
  dsimp only
  split
  · split
    · have htaken := hcleared.trans
        (frame_modify sound _ fun a => { a with refrence := a.reclaimRef, reclaimRef := none })
      exact ⟨htaken.sounds, htaken.bufferPins, htaken.mainPins⟩
    · exact hcleared
  · exact Frame.refl sound s

theorem frame_ensure (sound : ι) (s : State ι) :
    Frame sound s (ensureReference registryRef sound s) := by
  unfold ensureReference
  dsimp only
  split
  · have hset := frame_modify sound s fun a =>
      { a with refrence := some (registryRef.ref s.registry) }
    exact ⟨hset.sounds, hset.bufferPins, hset.mainPins⟩
  · exact Frame.refl sound s

theorem frame_reference (sound : ι) (s : State ι) :
    Frame sound s (audioTransmissionReference registryRef sound s) := by
  have hboth := (frame_cancel sound s).trans
    (frame_ensure registryRef sound (cancelReclamation sound s))
  exact ⟨hboth.sounds, hboth.bufferPins, hboth.mainPins⟩

theorem frame_run (method : Mixer.Method) (sound : ι) (s : State ι) :
    Frame sound s (run registryRef method sound s) := by
  cases method with
  | play =>
      have hplaying := (frame_modify sound s fun a => { a with playing := false }).trans
        (frame_modify sound _ fun a => { a with playing := true })
      change Frame sound s (audiostreamPlay registryRef sound s)
      unfold audiostreamPlay
      dsimp only
      split
      · exact hplaying.trans (frame_reference registryRef sound _)
      · exact hplaying
  | pause => exact frame_modify sound s fun a => { a with playing := false }
  | stop =>
      change Frame sound s (audiostreamStop sound s)
      unfold audiostreamStop
      split
      · exact frame_unreference sound s
      · exact Frame.refl sound s

/-- The calls at the end of a stream leave it its reference, and all pins. -/
theorem Inv.run_calls (calls : List (EndCall sound)) (h : Inv s)
    (hactive : (s.sounds sound).refrence ≠ none) :
    let s' := calls.foldl (fun s call => Registry.run registryRef call.method call.target s) s
    Inv s' ∧ (s'.sounds sound).refrence ≠ none ∧ s'.bufferPins = s.bufferPins ∧
      s'.mainPins = s.mainPins := by
  induction calls generalizing s with
  | nil => exact ⟨h, hactive, rfl, rfl⟩
  | cons call rest ih =>
      have hframe := frame_run registryRef call.method call.target s
      have hkeeps : ((Registry.run registryRef call.method call.target s).sounds sound).refrence ≠
          none := by
        by_cases htarget : call.target = sound
        · obtain ⟨method, target, hother⟩ := call
          dsimp only at htarget ⊢
          subst htarget
          cases method with
          | play =>
              change ((audiostreamPlay registryRef target s).sounds target).refrence ≠ none
              rw [play_eq_of_active registryRef hactive]
              simpa [State.modify] using hactive
          | pause => simpa [Registry.run, audiostreamPause, State.modify] using hactive
          | stop => exact absurd rfl (hother rfl)
        · rw [hframe.sounds sound (Ne.symm htarget)]
          exact hactive
      obtain ⟨hinv, hsome, hbuffer, hmain⟩ := ih (h.run registryRef call.method) hkeeps
      exact ⟨hinv, hsome, hbuffer.trans hframe.bufferPins, hmain.trans hframe.mainPins⟩

/-- A pin of the main thread, and what the unpin behind it finds. -/
theorem Inv.mainPin {s' : State ι} (h : Inv s) (hpin : mainPin sound s = some s') :
    Inv s' ∧ (s'.sounds sound).refrence = (s.sounds sound).refrence ∧ 0 < s'.mainPins sound ∧
      (∀ other, other ≠ sound → s'.sounds other = s.sounds other) := by
  unfold Registry.mainPin soundTryPin at hpin
  cases hreclaimed : (s.sounds sound).reclaimed with
  | true => simp [hreclaimed] at hpin
  | false =>
      simp only [hreclaimed, Bool.false_eq_true, if_false, Option.map_some,
        Option.some.injEq] at hpin
      subst hpin
      refine ⟨h.pin hreclaimed _ _ ?_ ?_, ?_, ?_, ?_⟩
      · intro other hother
        simp [State.modify, State.pins, Function.update_of_ne hother]
      · simp [State.modify, State.pins]
        omega
      · simp [State.modify]
      · simp [State.modify]
      · intro other hother
        exact Function.update_of_ne hother _ _

theorem Inv.mainUnpin (h : Inv s) (hpinned : 0 < s.mainPins sound) :
    Inv (mainUnpin sound s) := by
  refine h.unpin _ _ ?_ ?_
  · intro other hother
    simp [State.pins, Function.update_of_ne hother]
  · simp [State.pins]
    omega

omit [DecidableEq ι] in
/-- A stream with a node in `stream_list` has its reference. -/
theorem exists_node_iff [DecidableEq ι] {nodes : List (LinkNode ι)} :
    (nodes.any fun node => node.2 = sound) = true ↔ LinkList.indices nodes sound ≠ [] := by
  simp [LinkList.indices, List.filter_eq_nil_iff]

theorem Inv.active_of_node (h : Inv s)
    (hnode : (s.streamList.any fun node => node.2 = sound) = true) :
    (s.sounds sound).refrence ≠ none := by
  rw [exists_node_iff, (h.kept sound).listed] at hnode
  intro hnone
  rw [hnone] at hnode
  exact hnode rfl

theorem Inv.endOfStream (h : Inv s) (sound : ι) (calls : List (EndCall sound)) :
    Inv (endOfStream registryRef sound calls s) := by
  unfold Registry.endOfStream
  split
  · rename_i hnode
    have hactive := h.active_of_node hnode
    cases hpin : Registry.mainPin sound s with
    | none => exact h
    | some s' =>
        obtain ⟨hinv, href, hpinned, -⟩ := h.mainPin hpin
        dsimp only
        split
        · obtain ⟨hcalls, hsome, -, hmain⟩ :=
            hinv.run_calls registryRef calls (href ▸ hactive)
          apply (hcalls.unreference hsome).mainUnpin
          rw [(frame_unreference sound _).mainPins, hmain]
          exact hpinned
        · exact hinv.mainUnpin hpinned
  · exact h

/-- A turn of the loop of the bitrate warning stops the stream, and no other. -/
theorem Inv.stopPinned (h : Inv s)
    (hnode : (s.sounds sound).refrence ≠ none ∨ (s.sounds sound).reclaimed = true) :
    Inv (stopPinned s sound) ∧ ((stopPinned s sound).sounds sound).reclaimed = true ∧
      ∀ other, other ≠ sound → (stopPinned s sound).sounds other = s.sounds other := by
  unfold Registry.stopPinned
  cases hpin : Registry.mainPin sound s with
  | none =>
      refine ⟨h, ?_, fun _ _ => rfl⟩
      cases hreclaimed : (s.sounds sound).reclaimed with
      | true => rfl
      | false => simp [Registry.mainPin, soundTryPin, hreclaimed] at hpin
  | some s' =>
      obtain ⟨hinv, href, hpinned, hothers⟩ := h.mainPin hpin
      have hreclaimed : (s.sounds sound).reclaimed = false := by
        by_contra hnot
        simp [Registry.mainPin, soundTryPin, hnot] at hpin
      have hactive : (s'.sounds sound).refrence ≠ none := by
        rw [href]
        exact hnode.resolve_right (by simp [hreclaimed])
      obtain ⟨ref, hsome⟩ := Option.ne_none_iff_exists'.mp hactive
      have hframe := frame_unreference sound s'
      refine ⟨(hinv.unreference hactive).mainUnpin (hframe.mainPins ▸ hpinned), ?_, ?_⟩
      · simp [Registry.mainUnpin, unpin_eq, unreference_eq hsome]
      · intro other hother
        simp only [Registry.mainUnpin, unpin_eq]
        rw [Function.update_of_ne hother, hframe.sounds other hother, hothers other hother]

theorem Inv.bitrateWarning (h : Inv s) : Inv (audioTransmissionBitrateWarning s) := by
  unfold audioTransmissionBitrateWarning
  have hnodes : ∀ sound ∈ s.streamList.map Prod.snd,
      (s.sounds sound).refrence ≠ none ∨ (s.sounds sound).reclaimed = true := by
    intro sound hmem
    obtain ⟨node, hnode, rfl⟩ := List.mem_map.mp hmem
    exact Or.inl (h.active_of_node (List.any_eq_true.mpr ⟨node, hnode, by simp⟩))
  generalize s.streamList.map Prod.snd = sounds at hnodes
  induction sounds generalizing s with
  | nil => exact h
  | cons sound rest ih =>
      obtain ⟨hinv, hstopped, hothers⟩ := h.stopPinned (hnodes sound List.mem_cons_self)
      refine ih hinv ?_
      intro other hmem
      by_cases hsame : other = sound
      · exact Or.inr (hsame ▸ hstopped)
      · rw [hothers other hsame]
        exact hnodes other (List.mem_cons_of_mem _ hmem)

theorem Inv.bufferPin (h : Inv s) : Inv (bufferPin sound s) := by
  unfold Registry.bufferPin soundTryPin
  split
  · cases hreclaimed : (s.sounds sound).reclaimed with
    | true => exact h
    | false =>
        refine h.pin hreclaimed _ _ ?_ ?_
        · intro other hother
          simp [State.modify, State.pins, Function.update_of_ne hother]
        · simp [State.modify, State.pins]
          omega
  · exact h

theorem Inv.bufferUnpin (h : Inv s) : Inv (bufferUnpin sound s) := by
  unfold Registry.bufferUnpin
  split
  · exact h
  · refine h.unpin _ _ ?_ ?_
    · intro other hother
      simp [State.pins, Function.update_of_ne hother]
    · simp [State.pins]
      omega

theorem Inv.step (h : Inv s) (e : Step ι) : Inv (Registry.step registryRef s e).2 := by
  cases e with
  | call method sound => exact h.run registryRef method
  | endOfStream sound calls => exact h.endOfStream registryRef sound calls
  | bitrateWarning => exact h.bitrateWarning
  | clean => exact h.clean _
  | pin sound => exact h.bufferPin
  | unpin sound => exact h.bufferUnpin

end Invariant

/-- For every sequence of calls, ends of streams, warnings, cleanings, pins and unpins on the
streams of a client, the two lists and the two references of every stream agree, and every
reference that was given back was in use. -/
theorem streams_registered (registryRef : Mixer.RegistryRef) (steps : List (Step ι)) :
    let s := Machine.final (step registryRef) opened steps
    (∀ sound, Registered s sound) ∧ ∀ release ∈ s.released, release.2 = true := by
  intro s
  have h : Inv s := Machine.invariant_final Inv
    (fun _ e hinv => hinv.step registryRef e) opened steps inv_opened
  exact ⟨fun sound => Kept.registered (h.kept sound), h.released⟩

end LuaMumble.Audio.Registry
