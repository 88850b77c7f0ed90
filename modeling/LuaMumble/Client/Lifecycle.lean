import Mathlib.Logic.Function.Basic
import LuaMumble.Lib.Machine

/-!
What a client owns from its creation to its collection: threads, mutexes, and the objects that
its pointers are to. `mumble_client_new` starts the threads and leaves most pointers as it finds
them; `mumble_client_free` joins the threads and destroys the rest, at each failing exit of
`connect` and at the end of a connection. An operation on what is joined, destroyed or was never
there has no result.
-/

namespace LuaMumble.Client.Lifecycle

open Lib

/-- The pointers that `mumble_client_free` looks at. -/
inductive Pointer where
  | host
  | crypt
  | ssl
  | sslContext
  | serverHostUdp
  | serverHostTcp
  | decoder
  deriving DecidableEq

/-- What a client owns. An object goes by its pointer and the call of `connect` that made it. -/
inductive Resource where
  | mainMutex
  | innerMutex
  | encodeQueueMutex
  | sendQueueMutex
  | audioBufferThread
  | audioPlaybackThread
  | audioEncodeThread
  | object (pointer : Pointer) (attempt : Nat)
  deriving DecidableEq

/-- What there is from the creation on. -/
def fixedResources : List Resource :=
  [.mainMutex, .innerMutex, .encodeQueueMutex, .sendQueueMutex, .audioBufferThread,
    .audioPlaybackThread, .audioEncodeThread]

/-- `live` are the threads that run and what is not destroyed. `attempts` counts the calls of
`connect`, `disconnecting` the calls of `mumble_disconnect` whose `OnDisconnect` is not over, and
`freed` the calls of `mumble_client_free`. -/
structure MumbleClient where
  connecting : Bool
  pointer : Pointer → Option Nat
  attempts : Nat
  live : Resource → Bool
  disconnecting : Nat
  freed : Nat
  collected : Bool

namespace MumbleClient

variable (client : MumbleClient)

def use (resource : Resource) : Option MumbleClient :=
  if client.live resource then some client else none

/-- Join a thread, or destroy a mutex or an object. -/
def release (resource : Resource) : Option MumbleClient :=
  if client.live resource then
    some { client with live := Function.update client.live resource false }
  else none

/-- Tell a thread to stop, with a mutex held, and join it. -/
def stop (mutex thread : Resource) : Option MumbleClient :=
  (client.use mutex).bind fun client => client.release thread

end MumbleClient

/-- `mumble_client_new`, which sets `client->host` and leaves the other pointers as it finds
them in the memory. -/
def mumbleClientNew (memory : Pointer → Option Nat) : MumbleClient :=
  { connecting := false
    pointer := Function.update memory .host none
    attempts := 0
    live := fun resource => fixedResources.contains resource
    disconnecting := 0
    freed := 0
    collected := false }

/-- `mumble_audio_queue_shutdown` -/
def mumbleAudioQueueShutdown (client : MumbleClient) : Option MumbleClient := do
  let client ← client.stop .encodeQueueMutex .audioEncodeThread
  let client ← client.release .encodeQueueMutex
  client.release .sendQueueMutex

/-- Destroy an object, where the pointer is not NULL. -/
def destroy (client : MumbleClient) (pointer : Pointer) : Option MumbleClient :=
  match client.pointer pointer with
  | some attempt => client.release (.object pointer attempt)
  | none => some client

/-- Destroy an object and set the pointer to NULL. -/
def reset (client : MumbleClient) (pointer : Pointer) : Option MumbleClient :=
  (destroy client pointer).map fun client =>
    { client with pointer := Function.update client.pointer pointer none }

/-- The end of `mumble_client_free`; the handles of the threads are never 0. -/
def endThreads (client : MumbleClient) : Option MumbleClient := do
  let client ← client.stop .mainMutex .audioBufferThread
  let client ← client.stop .mainMutex .audioPlaybackThread
  let client ← mumbleAudioQueueShutdown client
  let client ← client.release .mainMutex
  let client ← client.release .innerMutex
  some { client with freed := client.freed + 1 }

/-- The pointers that are set to NULL, in the order in which they are freed. -/
def resetPointers : List Pointer :=
  [.host, .crypt, .ssl, .sslContext, .serverHostUdp, .serverHostTcp]

/-- `mumble_client_free`, which leaves the pointer to the decoder. -/
def mumbleClientFree (client : MumbleClient) : Option MumbleClient := do
  let client ← resetPointers.foldlM reset client
  let client ← destroy client .decoder
  endThreads client

/-- The end of `mumble_disconnect`: `mumble_client_cleanup`, which locks the main mutex, and
`mumble_client_free`. -/
def disconnected (client : MumbleClient) : Option MumbleClient :=
  (client.use .mainMutex).bind mumbleClientFree

/-- The exits of `mumble_client_connect` with an error. -/
inductive ConnectExit where
  | sslContext
  | certificate
  | tcpAddress
  | crypt
  | udpAddress
  | ssl
  | encoder
  | decoder
  | tcpConnect
  | fileno
  | sslFd
  | udpConnect

/-- The objects that `connect` has made at an exit, or at its end. A call of `getaddrinfo` that
fails makes none. -/
def made : Option ConnectExit → List Pointer
  | some .sslContext => [.host]
  | some .certificate | some .tcpAddress => [.host, .sslContext]
  | some .crypt => [.host, .sslContext, .serverHostTcp]
  | some .udpAddress => [.host, .sslContext, .serverHostTcp, .crypt]
  | some .ssl => [.host, .sslContext, .serverHostTcp, .crypt, .serverHostUdp]
  | some .encoder | some .decoder =>
      [.host, .sslContext, .serverHostTcp, .crypt, .serverHostUdp, .ssl]
  | some .tcpConnect | some .fileno | some .sslFd | some .udpConnect | none =>
      [.host, .sslContext, .serverHostTcp, .crypt, .serverHostUdp, .ssl, .decoder]

/-- The pointer that `connect` has set to NULL at an exit. -/
def nulled : Option ConnectExit → Option Pointer
  | some .sslContext => some .sslContext
  | some .crypt => some .crypt
  | some .ssl => some .ssl
  | some .decoder => some .decoder
  | _ => none

/-- The members at an exit of `connect`, or at its end. What the pointers were to before is not
freed. -/
def connected (client : MumbleClient) (exit : Option ConnectExit) : MumbleClient :=
  { client with
    pointer := fun pointer =>
      if pointer ∈ made exit then some client.attempts
      else if nulled exit = some pointer then none
      else client.pointer pointer
    attempts := client.attempts + 1
    live := fun resource =>
      client.live resource ||
        (made exit).any fun pointer => resource = .object pointer client.attempts }

/-- `mumble_client_connect`, which fails at an exit or succeeds. It does not look whether the
client is connecting already. -/
def mumbleClientConnect (client : MumbleClient) (exit : Option ConnectExit) :
    Option MumbleClient :=
  match exit with
  | some _ => mumbleClientFree (connected client exit)
  | none => some { connected client exit with connecting := true }

/-- What happens to a client: a call of `connect`, `mumble_disconnect` by the script, a socket
error or the server, the end of the callback of `OnDisconnect` in it, the collection. What the
callback does comes before its end. -/
inductive Event where
  | connect (exit : Option ConnectExit)
  | disconnect
  | hookReturned
  | collect

/-- One event. Once collected a client is not used; a client that is disconnecting is on the
stack and not collected. -/
def handle (client : MumbleClient) : Event → Option MumbleClient
  | .connect exit =>
      if client.collected then some client else mumbleClientConnect client exit
  | .disconnect =>
      if client.connecting && !client.collected then
        some { client with
          connecting := false
          disconnecting := client.disconnecting + 1 }
      else some client
  | .hookReturned =>
      if client.disconnecting = 0 then some client
      else disconnected { client with disconnecting := client.disconnecting - 1 }
  | .collect =>
      if client.collected || client.disconnecting != 0 then some client
      else if client.connecting then
        (disconnected { client with connecting := false }).map fun client =>
          { client with collected := true }
      else some { client with collected := true }

/-- A run: the client, if nothing went wrong, and what has happened, the last event first. -/
structure State where
  client : Option MumbleClient
  past : List Event

def created (memory : Pointer → Option Nat) : State :=
  { client := some (mumbleClientNew memory)
    past := [] }

def step (s : State) (e : Event) : Unit × State :=
  ((), { client := s.client.bind fun client => handle client e
         past := e :: s.past })

/-- No operation went wrong, `mumble_client_free` ran once at most, and no thread outlives the
client. -/
def Tidy (s : State) : Prop :=
  ∃ client, s.client = some client ∧ client.freed ≤ 1 ∧
    (client.collected = true →
      client.live .audioBufferThread = false ∧ client.live .audioPlaybackThread = false ∧
        client.live .audioEncodeThread = false)

section Past

/-! What an event finds, by the events before it. -/

/-- Of the calls of `connect` that succeeded and those of `disconnect`, the last was a
`connect`. -/
def isConnecting : List Event → Bool
  | [] => false
  | .connect none :: _ => true
  | .disconnect :: _ => false
  | _ :: past => isConnecting past

/-- The calls of `disconnect` that found the client connecting and whose `OnDisconnect` is not
over. -/
def ending : List Event → Nat
  | [] => 0
  | .disconnect :: past => if isConnecting past then ending past + 1 else ending past
  | .hookReturned :: past => ending past - 1
  | _ :: past => ending past

/-- A call of `connect` has failed, or a disconnect came to its end. -/
def HasEnded (past : List Event) : Prop :=
  (∃ exit, .connect (some exit) ∈ past) ∨
    ∃ later before, past = later ++ .hookReturned :: before ∧ ending before ≠ 0

/-- The client was collected, which happens to no client that is disconnecting. -/
def WasCollected (past : List Event) : Prop :=
  ∃ later before, past = later ++ .collect :: before ∧ ending before = 0

end Past

/-- `connect` has written the pointer when it fails. -/
def ConnectExit.Reached (exit : ConnectExit) (pointer : Pointer) : Prop :=
  pointer ∈ made (some exit) ∨ nulled (some exit) = some pointer

/-- The event frees the client once. `connect` fails, and a disconnect comes to its end, only if
none did before; where it is the first call of `connect` that fails, the pointers that it has not
reached happen to be NULL. The client is collected connecting with no end before, or after an end
and not connecting. -/
def FreesOnce (memory : Pointer → Option Nat) (past : List Event) : Event → Prop
  | .connect (some exit) =>
      ¬ WasCollected past →
        ¬ HasEnded past ∧
          (.connect none ∈ past ∨ ∀ pointer, ¬ exit.Reached pointer → memory pointer = none)
  | .connect none => True
  | .disconnect => True
  | .hookReturned => ¬ WasCollected past → ending past ≠ 0 → ¬ HasEnded past
  | .collect =>
      ¬ WasCollected past → ending past = 0 → (isConnecting past = true ↔ ¬ HasEnded past)

/-- The pointer is NULL or to an object. -/
def PointerOk (client : MumbleClient) (pointer : Pointer) : Prop :=
  ∀ attempt, client.pointer pointer = some attempt →
    client.live (.object pointer attempt) = true

/-- What is there tells if the client was freed. -/
structure MumbleClient.Owns (client : MumbleClient) : Prop where
  fixed : ∀ resource ∈ fixedResources, (client.live resource = true ↔ client.freed = 0)
  freed : client.freed ≤ 1

/-- What a call of `mumble_client_free` leaves. -/
structure MumbleClient.Freed (client client' : MumbleClient) : Prop where
  owns : client'.Owns
  freed : client'.freed = 1
  connecting : client'.connecting = client.connecting
  disconnecting : client'.disconnecting = client.disconnecting
  collected : client'.collected = client.collected

section Objects

variable {client client' : MumbleClient}

/-- The objects of some pointers are destroyed, and nothing else. -/
structure Destroyed (client client' : MumbleClient) (pointers : List Pointer) : Prop where
  pointer : ∀ other ∉ pointers, client'.pointer other = client.pointer other
  live : ∀ resource, (∀ pointer ∈ pointers, ∀ attempt, resource ≠ .object pointer attempt) →
    client'.live resource = client.live resource
  connecting : client'.connecting = client.connecting
  disconnecting : client'.disconnecting = client.disconnecting
  freed : client'.freed = client.freed
  collected : client'.collected = client.collected

theorem Destroyed.pointerOk_iff {pointers : List Pointer} (h : Destroyed client client' pointers)
    {other : Pointer} (hother : other ∉ pointers) :
    PointerOk client' other ↔ PointerOk client other := by
  have hlive (attempt : Nat) :
      client'.live (.object other attempt) = client.live (.object other attempt) := by
    apply h.live
    rintro pointer hpointer _ ⟨⟩
    exact hother hpointer
  simp only [PointerOk, h.pointer other hother, hlive]

theorem Destroyed.trans {last : MumbleClient} {first rest : List Pointer}
    (h : Destroyed client client' first) (hrest : Destroyed client' last rest) :
    Destroyed client last (first ++ rest) := by
  refine ⟨?_, ?_, hrest.connecting.trans h.connecting,
    hrest.disconnecting.trans h.disconnecting, hrest.freed.trans h.freed,
    hrest.collected.trans h.collected⟩
  · intro other hother
    rw [List.mem_append, not_or] at hother
    rw [hrest.pointer other hother.2, h.pointer other hother.1]
  · intro resource hne
    rw [hrest.live resource fun pointer hin => hne pointer (List.mem_append_right _ hin),
      h.live resource fun pointer hin => hne pointer (List.mem_append_left _ hin)]

theorem Destroyed.fixed {pointers : List Pointer} (h : Destroyed client client' pointers)
    {resource : Resource} (hfixed : resource ∈ fixedResources) :
    client'.live resource = client.live resource := by
  apply h.live
  rintro pointer - attempt rfl
  simp [fixedResources] at hfixed

/-- A pointer is freed just when it is in order. -/
theorem destroy_spec (client : MumbleClient) (pointer : Pointer) :
    (PointerOk client pointer ∧
        ∃ client', destroy client pointer = some client' ∧ Destroyed client client' [pointer]) ∨
      (¬ PointerOk client pointer ∧ destroy client pointer = none) := by
  unfold destroy PointerOk
  cases hpointer : client.pointer pointer with
  | none => exact Or.inl ⟨nofun, client, rfl, ⟨fun _ _ => rfl, fun _ _ => rfl, rfl, rfl, rfl, rfl⟩⟩
  | some attempt =>
      simp only [Option.some.injEq, forall_eq', MumbleClient.release]
      cases hlive : client.live (.object pointer attempt) with
      | false => exact Or.inr ⟨Bool.false_ne_true, rfl⟩
      | true =>
          refine Or.inl ⟨rfl, _, rfl, ⟨fun _ _ => rfl, ?_, rfl, rfl, rfl, rfl⟩⟩
          intro resource hne
          exact Function.update_of_ne (hne pointer (List.mem_singleton_self _) attempt) ..

theorem reset_spec (client : MumbleClient) (pointer : Pointer) :
    (PointerOk client pointer ∧
        ∃ client', reset client pointer = some client' ∧ Destroyed client client' [pointer]) ∨
      (¬ PointerOk client pointer ∧ reset client pointer = none) := by
  unfold reset
  rcases destroy_spec client pointer with ⟨hok, client', hclient', hdestroyed⟩ | ⟨hnot, hnone⟩
  · rw [hclient']
    refine Or.inl ⟨hok, _, rfl, ⟨?_, hdestroyed.live, hdestroyed.connecting,
      hdestroyed.disconnecting, hdestroyed.freed, hdestroyed.collected⟩⟩
    intro other hother
    rw [List.mem_singleton] at hother
    exact (Function.update_of_ne hother ..).trans (hdestroyed.pointer other (by simpa using hother))
  · rw [hnone]
    exact Or.inr ⟨hnot, rfl⟩

theorem reset_all_spec (client : MumbleClient) {pointers : List Pointer}
    (hnodup : pointers.Nodup) :
    ((∀ pointer ∈ pointers, PointerOk client pointer) ∧
        ∃ client', pointers.foldlM reset client = some client' ∧
          Destroyed client client' pointers) ∨
      (¬ (∀ pointer ∈ pointers, PointerOk client pointer) ∧
        pointers.foldlM reset client = none) := by
  induction pointers generalizing client with
  | nil =>
      exact Or.inl ⟨nofun, client, rfl, ⟨fun _ _ => rfl, fun _ _ => rfl, rfl, rfl, rfl, rfl⟩⟩
  | cons pointer rest ih =>
      rw [List.nodup_cons] at hnodup
      rw [List.forall_mem_cons, List.foldlM_cons, Option.bind_eq_bind]
      rcases reset_spec client pointer with ⟨hok, next, hnext, hfirst⟩ | ⟨hnot, hnone⟩
      · rw [hnext, Option.bind_some]
        have hsame : (∀ other ∈ rest, PointerOk next other) ↔
            ∀ other ∈ rest, PointerOk client other := by
          refine forall₂_congr fun other hother => hfirst.pointerOk_iff ?_
          rw [List.mem_singleton]
          rintro rfl
          exact hnodup.1 hother
        rcases ih next hnodup.2 with ⟨hrest, last, hlast, hothers⟩ | ⟨hrest, hlast⟩
        · exact Or.inl ⟨⟨hok, hsame.mp hrest⟩, last, hlast, hfirst.trans hothers⟩
        · exact Or.inr ⟨fun hall => hrest (hsame.mpr hall.2), hlast⟩
      · rw [hnone, Option.bind_none]
        exact Or.inr ⟨fun hall => hnot hall.1, rfl⟩

end Objects

section Free

variable {client : MumbleClient}

/-- The client, with these resources ended. -/
def MumbleClient.without (client : MumbleClient) (ended : List Resource) : MumbleClient :=
  { client with live := fun resource => client.live resource && !ended.contains resource }

theorem MumbleClient.live_without {resource : Resource} {ended : List Resource}
    (hlive : client.live resource = true) (hended : resource ∉ ended) :
    (client.without ended).live resource = true := by
  simp [MumbleClient.without, hlive, hended]

theorem MumbleClient.release_without {resource : Resource} {ended : List Resource}
    (hlive : client.live resource = true) (hended : resource ∉ ended) :
    (client.without ended).release resource = some (client.without (resource :: ended)) := by
  rw [MumbleClient.release, if_pos (live_without hlive hended)]
  congr 2
  funext other
  by_cases hother : other = resource
  · simp [hother]
  · simp [MumbleClient.without, hother]

theorem MumbleClient.stop_without {mutex thread : Resource} {ended : List Resource}
    (hmutex : client.live mutex = true) (hthread : client.live thread = true)
    (hmutexEnded : mutex ∉ ended) (hthreadEnded : thread ∉ ended) :
    (client.without ended).stop mutex thread = some (client.without (thread :: ended)) := by
  rw [MumbleClient.stop, MumbleClient.use, if_pos (live_without hmutex hmutexEnded),
    Option.bind_some, release_without hthread hthreadEnded]

/-- Where the threads run and the mutexes are there, all are ended. -/
theorem endThreads_of_live (hlive : ∀ resource ∈ fixedResources, client.live resource = true) :
    ∃ ended, endThreads client = some { client.without ended with freed := client.freed + 1 } ∧
      ∀ resource ∈ fixedResources, resource ∈ ended := by
  have hnone : client = client.without [] := by simp [MumbleClient.without]
  simp only [fixedResources, List.forall_mem_cons] at hlive
  -- each step ends what is live and not ended by an earlier one
  refine ⟨[.innerMutex, .mainMutex, .sendQueueMutex, .encodeQueueMutex, .audioEncodeThread,
    .audioPlaybackThread, .audioBufferThread], ?_, ?_⟩
  · rw [endThreads]
    nth_rewrite 1 [hnone]
    simp [mumbleAudioQueueShutdown, MumbleClient.stop_without, MumbleClient.release_without,
      hlive]
    rfl
  · simp [fixedResources]

theorem endThreads_eq_none (h : client.live .mainMutex = false) : endThreads client = none := by
  simp [endThreads, MumbleClient.stop, MumbleClient.use, h]

/-- `mumble_client_free` frees what was not freed, and goes wrong on anything else. -/
theorem MumbleClient.Owns.free (h : client.Owns) :
    ((client.freed = 0 ∧ ∀ pointer, PointerOk client pointer) ∧
        ∃ client', mumbleClientFree client = some client' ∧ client.Freed client') ∨
      (¬ (client.freed = 0 ∧ ∀ pointer, PointerOk client pointer) ∧
        mumbleClientFree client = none) := by
  have hnodup : resetPointers.Nodup := by decide
  have hall (hreset : ∀ pointer ∈ resetPointers, PointerOk client pointer)
      (hdecoder : PointerOk client .decoder) : ∀ pointer, PointerOk client pointer := by
    intro pointer
    cases pointer with
    | decoder => exact hdecoder
    | _ => exact hreset _ (by simp [resetPointers])
  unfold mumbleClientFree
  rw [Option.bind_eq_bind]
  rcases reset_all_spec client hnodup with ⟨hreset, next, hnext, hobjects⟩ | ⟨hnot, hnone⟩
  · rw [hnext, Option.bind_some]
    change (_ ∧ ∃ client', (destroy next .decoder).bind endThreads = some client' ∧ _) ∨
      (_ ∧ (destroy next .decoder).bind endThreads = none)
    have hsame : PointerOk next .decoder ↔ PointerOk client .decoder :=
      hobjects.pointerOk_iff (by decide)
    rcases destroy_spec next .decoder with ⟨hdecoder, last, hlast, hlastly⟩ | ⟨hnot, hnone⟩
    · rw [hlast, Option.bind_some]
      have hboth := hobjects.trans hlastly
      have hok := hall hreset (hsame.mp hdecoder)
      by_cases hfreed : client.freed = 0
      · left
        obtain ⟨ended, hend, hended⟩ := endThreads_of_live fun resource hmem =>
          (hboth.fixed hmem).trans ((h.fixed resource hmem).mpr hfreed)
        have hone : last.freed + 1 = 1 := by rw [hboth.freed, hfreed]
        refine ⟨⟨hfreed, hok⟩, _, hend, ⟨?_, Nat.le_of_eq hone⟩, hone, hboth.connecting,
          hboth.disconnecting, hboth.collected⟩
        intro resource hmem
        refine iff_of_false ?_ (Nat.succ_ne_zero _)
        simp [MumbleClient.without, hended resource hmem]
      · right
        refine ⟨fun hcontra => hfreed hcontra.1, endThreads_eq_none ?_⟩
        rw [hboth.fixed (by simp [fixedResources]), ← Bool.not_eq_true,
          h.fixed _ (by simp [fixedResources])]
        exact hfreed
    · rw [hnone]
      exact Or.inr ⟨fun hcontra => hnot (hsame.mpr (hcontra.2 _)), rfl⟩
  · rw [hnone]
    exact Or.inr ⟨fun hcontra => hnot fun pointer _ => hcontra.2 pointer, rfl⟩

/-- The same at the end of `mumble_disconnect`. -/
theorem MumbleClient.Owns.disconnected (h : client.Owns)
    (hpointers : client.freed = 0 → ∀ pointer, PointerOk client pointer) :
    (client.freed = 0 ∧
        ∃ client', Lifecycle.disconnected client = some client' ∧ client.Freed client') ∨
      (client.freed ≠ 0 ∧ Lifecycle.disconnected client = none) := by
  have hmain := h.fixed .mainMutex (by simp [fixedResources])
  by_cases hfreed : client.freed = 0
  · left
    rw [Lifecycle.disconnected, MumbleClient.use, if_pos (hmain.mpr hfreed), Option.bind_some]
    rcases h.free with ⟨-, hfree⟩ | ⟨hnot, -⟩
    · exact ⟨hfreed, hfree⟩
    · exact absurd ⟨hfreed, hpointers hfreed⟩ hnot
  · right
    rw [Lifecycle.disconnected, MumbleClient.use, if_neg (hmain.not.mpr hfreed)]
    exact ⟨hfreed, rfl⟩

end Free

section Events

variable {memory : Pointer → Option Nat} {client client' : MumbleClient} {past : List Event}

theorem occurred_cons_iff {P : List Event → Prop} (sought e : Event) (past : List Event) :
    (∃ later before, e :: past = later ++ sought :: before ∧ P before) ↔
      (e = sought ∧ P past) ∨ ∃ later before, past = later ++ sought :: before ∧ P before := by
  constructor
  · rintro ⟨later, before, hsplit, hbefore⟩
    cases later with
    | nil =>
        obtain ⟨rfl, rfl⟩ := List.cons.inj hsplit
        exact Or.inl ⟨rfl, hbefore⟩
    | cons first rest =>
        obtain ⟨rfl, rfl⟩ := List.cons.inj hsplit
        exact Or.inr ⟨rest, before, rfl, hbefore⟩
  · rintro (⟨rfl, hpast⟩ | ⟨later, before, rfl, hbefore⟩)
    · exact ⟨[], past, rfl, hpast⟩
    · exact ⟨e :: later, before, rfl, hbefore⟩

theorem hasEnded_cons_iff (e : Event) (past : List Event) :
    HasEnded (e :: past) ↔
      HasEnded past ∨ (∃ exit, e = .connect (some exit)) ∨
        (e = .hookReturned ∧ ending past ≠ 0) := by
  have hmem : (∃ exit, Event.connect (some exit) ∈ e :: past) ↔
      (∃ exit, e = .connect (some exit)) ∨ ∃ exit, .connect (some exit) ∈ past := by
    simp only [List.mem_cons, exists_or, @eq_comm _ e]
  unfold HasEnded
  rw [occurred_cons_iff, hmem, or_or_or_comm, or_comm, or_comm (a := ∃ exit, e = _)]

theorem wasCollected_cons_iff (e : Event) (past : List Event) :
    WasCollected (e :: past) ↔ WasCollected past ∨ (e = .collect ∧ ending past = 0) := by
  unfold WasCollected
  rw [occurred_cons_iff, or_comm]

/-- A client that is connecting has connected. -/
theorem mem_of_isConnecting (h : isConnecting past = true) : .connect none ∈ past := by
  induction past with
  | nil => cases h
  | cons e past ih =>
      cases e with
      | connect exit =>
          cases exit with
          | none => exact List.mem_cons_self
          | some exit => exact List.mem_cons_of_mem _ (ih h)
      | disconnect => cases h
      | hookReturned => exact List.mem_cons_of_mem _ (ih h)
      | collect => exact List.mem_cons_of_mem _ (ih h)

theorem mem_of_ending (h : ending past ≠ 0) : .connect none ∈ past := by
  induction past with
  | nil => exact absurd rfl h
  | cons e past ih =>
      apply List.mem_cons_of_mem
      cases e with
      | connect exit => exact ih h
      | disconnect =>
          unfold ending at h
          split at h
          · exact mem_of_isConnecting (by assumption)
          · exact ih h
      | hookReturned =>
          unfold ending at h
          exact ih (by omega)
      | collect => exact ih h

/-- What the members of a client that is not collected tell of its past. -/
structure Present (memory : Pointer → Option Nat) (client : MumbleClient) (past : List Event) :
    Prop where
  connecting : client.connecting = isConnecting past
  disconnecting : client.disconnecting = ending past
  freed : client.freed = 0 ↔ ¬ HasEnded past
  pointers : client.freed = 0 → .connect none ∈ past → ∀ pointer, PointerOk client pointer
  unset : client.freed = 0 → .connect none ∉ past →
    client.pointer = (mumbleClientNew memory).pointer ∧
      ∀ pointer attempt, client.live (.object pointer attempt) = false

structure Kept (memory : Pointer → Option Nat) (client : MumbleClient) (past : List Event) : Prop
    extends client.Owns where
  collected : client.collected = true ↔ WasCollected past
  still : client.collected = true → client.disconnecting = 0
  present : client.collected = false → Present memory client past

/-- The threads that run tell if the client was freed. -/
theorem MumbleClient.Owns.tidy_iff (h : client.Owns) :
    Tidy ⟨some client, past⟩ ↔ (client.collected = true → client.freed ≠ 0) := by
  have hthread {resource : Resource} (hmem : resource ∈ fixedResources) :
      client.live resource = false ↔ client.freed ≠ 0 := by
    rw [← Bool.not_eq_true, h.fixed resource hmem]
  constructor
  · rintro ⟨client', hclient', -, hthreads⟩ hcollected
    cases hclient'
    exact (hthread (by simp [fixedResources])).mp (hthreads hcollected).1
  · intro hfreed
    refine ⟨client, rfl, h.freed, ?_⟩
    intro hcollected
    have hended := hfreed hcollected
    exact ⟨(hthread (by simp [fixedResources])).mpr hended,
      (hthread (by simp [fixedResources])).mpr hended,
      (hthread (by simp [fixedResources])).mpr hended⟩

theorem not_tidy_none : ¬ Tidy ⟨none, past⟩ := by
  rintro ⟨client, hnone, -⟩
  cases hnone

/-- The threads and mutexes are as they were when `connect` has made its objects. -/
theorem MumbleClient.Owns.connected (h : client.Owns) (exit : Option ConnectExit) :
    (connected client exit).Owns := by
  refine ⟨?_, h.freed⟩
  intro resource hmem
  have hother : ∀ pointer, resource ≠ .object pointer client.attempts := by
    rintro pointer rfl
    simp [fixedResources] at hmem
  simpa [Lifecycle.connected, hother] using h.fixed resource hmem

/-- A pointer is in order where `connect` has written it, and elsewhere as before. -/
theorem pointerOk_connected_iff (exit : ConnectExit) (pointer : Pointer) :
    PointerOk (connected client (some exit)) pointer ↔
      (¬ exit.Reached pointer → PointerOk client pointer) := by
  unfold ConnectExit.Reached PointerOk connected
  by_cases hmade : pointer ∈ made (some exit)
  · simp [hmade]
  · by_cases hnulled : nulled (some exit) = some pointer
    · simp [hmade, hnulled]
    · simp [hmade, hnulled]

theorem pointerOk_connected (pointer : Pointer) :
    PointerOk (connected client none) pointer := by
  have hmade : pointer ∈ made none := by
    cases pointer <;> simp [made]
  unfold PointerOk connected
  simp [hmade]

/-- The pointers of a failing `connect`, for a client that was not freed. -/
theorem Present.pointers_connected_iff (h : Present memory client past) (hfreed : client.freed = 0)
    (exit : ConnectExit) :
    (∀ pointer, PointerOk (connected client (some exit)) pointer) ↔
      .connect none ∈ past ∨ ∀ pointer, ¬ exit.Reached pointer → memory pointer = none := by
  simp only [pointerOk_connected_iff]
  by_cases hpast : Event.connect none ∈ past
  · exact iff_of_true (fun pointer _ => h.pointers hfreed hpast pointer) (Or.inl hpast)
  · obtain ⟨hpointer, hlive⟩ := h.unset hfreed hpast
    rw [or_iff_right hpast]
    refine forall₂_congr fun pointer hreached => ?_
    have hhost : pointer ≠ .host := by
      rintro rfl
      apply hreached
      left
      cases exit <;> simp [made]
    simp only [PointerOk, hpointer, hlive, mumbleClientNew, Function.update_of_ne hhost,
      Bool.false_eq_true, imp_false]
    rw [Option.eq_none_iff_forall_ne_some]

/-- What an event leaves, and when it leaves it tidy. -/
def Handles (memory : Pointer → Option Nat) (client : MumbleClient) (past : List Event)
    (e : Event) : Prop :=
  (∀ client', handle client e = some client' → Kept memory client' (e :: past)) ∧
    (Tidy ⟨handle client e, e :: past⟩ ↔ FreesOnce memory past e)

theorem handles_of_some {e : Event} (hhandle : handle client e = some client')
    (hkept : Kept memory client' (e :: past))
    (htidy : (client'.collected = true → client'.freed ≠ 0) ↔ FreesOnce memory past e) :
    Handles memory client past e := by
  unfold Handles
  rw [hhandle, hkept.toOwns.tidy_iff]
  refine ⟨?_, htidy⟩
  intro other hother
  cases hother
  exact hkept

/-- A client that is collected is left alone. -/
theorem Kept.handles_collected (h : Kept memory client past)
    (htidy : client.collected = true → client.freed ≠ 0) (hcollected : client.collected = true)
    (e : Event) : Handles memory client past e := by
  have hwas := h.collected.mp hcollected
  have hsame : handle client e = some client := by
    cases e with
    | connect exit => simp [handle, hcollected]
    | disconnect => simp [handle, hcollected]
    | hookReturned => simp [handle, h.still hcollected]
    | collect => simp [handle, hcollected]
  have hkept : Kept memory client (e :: past) := by
    refine ⟨h.toOwns, ?_, h.still, ?_⟩
    · exact iff_of_true hcollected ((wasCollected_cons_iff e past).mpr (Or.inl hwas))
    · intro hnot
      rw [hcollected] at hnot
      cases hnot
  refine handles_of_some hsame hkept (iff_of_true htidy ?_)
  cases e with
  | connect exit =>
      cases exit with
      | none => trivial
      | some exit => exact fun hnot => absurd hwas hnot
  | disconnect => trivial
  | hookReturned => exact fun hnot => absurd hwas hnot
  | collect => exact fun hnot => absurd hwas hnot

theorem Kept.not_wasCollected (h : Kept memory client past)
    (hcollected : client.collected = false) : ¬ WasCollected past := by
  rw [← h.collected, hcollected]
  exact Bool.false_ne_true

theorem Kept.not_collected_cons (h : Kept memory client past)
    (hcollected : client.collected = false) {e : Event}
    (hother : ¬ (e = .collect ∧ ending past = 0)) : ¬ WasCollected (e :: past) := by
  rw [wasCollected_cons_iff, not_or]
  exact ⟨h.not_wasCollected hcollected, hother⟩

/-- A client that was freed by an event, or was not there to be freed. -/
theorem Kept.handles_free (h : Kept memory client past)
    (hcollected : client.collected = false) {e : Event} (other : MumbleClient) (p : Prop)
    (hother : ¬ (e = .collect ∧ ending past = 0)) (hfalse : other.collected = false)
    (hconnecting : other.connecting = isConnecting (e :: past))
    (hdisconnecting : other.disconnecting = ending (e :: past))
    (hends : p → HasEnded (e :: past))
    (hcases : (p ∧ ∃ client', handle client e = some client' ∧ other.Freed client') ∨
      (¬ p ∧ handle client e = none))
    (honce : FreesOnce memory past e ↔ p) : Handles memory client past e := by
  rcases hcases with ⟨hp, client', hhandle, hfreed⟩ | ⟨hnot, hnone⟩
  · have hone : client'.freed ≠ 0 := by
      rw [hfreed.freed]
      exact Nat.one_ne_zero
    have hnot : ¬ client'.collected = true := by
      rw [hfreed.collected, hfalse]
      exact Bool.false_ne_true
    refine handles_of_some hhandle ⟨hfreed.owns, ?_, fun hcontra => absurd hcontra hnot, ?_⟩
      (iff_of_true (fun _ => hone) (honce.mpr hp))
    · exact iff_of_false hnot (h.not_collected_cons hcollected hother)
    · intro _
      exact ⟨hfreed.connecting.trans hconnecting, hfreed.disconnecting.trans hdisconnecting,
        iff_of_false hone (not_not_intro (hends hp)), fun hcontra => absurd hcontra hone,
        fun hcontra => absurd hcontra hone⟩
  · unfold Handles
    rw [hnone]
    refine ⟨?_, iff_of_false not_tidy_none (honce.not.mpr hnot)⟩
    intro client' hclient'
    cases hclient'

theorem Kept.handles_connect (h : Kept memory client past)
    (hcollected : client.collected = false) (exit : Option ConnectExit) :
    Handles memory client past (.connect exit) := by
  have hpresent := h.present hcollected
  have howns := h.toOwns.connected exit
  have hother : ¬ (Event.connect exit = .collect ∧ ending past = 0) := by simp
  cases exit with
  | none =>
      have hhandle : handle client (.connect none) =
          some { connected client none with connecting := true } := by
        simp [handle, hcollected, mumbleClientConnect]
      have hended : HasEnded (.connect none :: past) ↔ HasEnded past := by
        simp [hasEnded_cons_iff]
      refine handles_of_some hhandle ⟨⟨howns.fixed, howns.freed⟩, ?_, ?_, ?_⟩ ?_
      · refine iff_of_false ?_ (h.not_collected_cons hcollected hother)
        change ¬ client.collected = true
        rw [hcollected]
        exact Bool.false_ne_true
      · intro hcontra
        change client.collected = true at hcontra
        rw [hcollected] at hcontra
        cases hcontra
      · intro _
        refine ⟨rfl, hpresent.disconnecting, hpresent.freed.trans hended.symm.not, ?_, ?_⟩
        · exact fun _ _ => pointerOk_connected
        · exact fun _ hnone => absurd List.mem_cons_self hnone
      · refine iff_of_true ?_ trivial
        intro hcontra
        change client.collected = true at hcontra
        rw [hcollected] at hcontra
        cases hcontra
  | some exit =>
      refine h.handles_free hcollected (connected client (some exit))
        (client.freed = 0 ∧ ∀ pointer, PointerOk (connected client (some exit)) pointer) hother
        hcollected hpresent.connecting hpresent.disconnecting (fun _ => ?_) ?_ ?_
      · exact (hasEnded_cons_iff _ _).mpr (Or.inr (Or.inl ⟨exit, rfl⟩))
      · have hhandle : handle client (.connect (some exit)) =
            mumbleClientFree (connected client (some exit)) := by
          simp [handle, hcollected, mumbleClientConnect]
        rw [hhandle]
        exact howns.free
      · rw [FreesOnce, imp_iff_right (h.not_wasCollected hcollected), hpresent.freed]
        refine and_congr_right fun hnot => ?_
        exact (hpresent.pointers_connected_iff (hpresent.freed.mpr hnot) exit).symm

/-- An event that leaves the client as it is. -/
theorem Kept.handles_same (h : Kept memory client past)
    (hcollected : client.collected = false) {e : Event}
    (htidy : client.collected = true → client.freed ≠ 0)
    (hsame : handle client e = some client) (hother : ¬ (e = .collect ∧ ending past = 0))
    (hconnecting : isConnecting (e :: past) = isConnecting past)
    (hending : ending (e :: past) = ending past) (hended : HasEnded (e :: past) ↔ HasEnded past)
    (hconnect : Event.connect none ≠ e) (honce : FreesOnce memory past e) :
    Handles memory client past e := by
  have hpresent := h.present hcollected
  have hmem : .connect none ∈ e :: past ↔ .connect none ∈ past := by
    rw [List.mem_cons, or_iff_right hconnect]
  refine handles_of_some hsame ⟨h.toOwns, ?_, h.still, ?_⟩ (iff_of_true htidy honce)
  · apply iff_of_false
    · rw [hcollected]
      exact Bool.false_ne_true
    · exact h.not_collected_cons hcollected hother
  · intro _
    refine ⟨hpresent.connecting.trans hconnecting.symm,
      hpresent.disconnecting.trans hending.symm, hpresent.freed.trans hended.symm.not, ?_, ?_⟩
    · rw [hmem]
      exact hpresent.pointers
    · rw [hmem]
      exact hpresent.unset

theorem Kept.handles_disconnect (h : Kept memory client past)
    (hcollected : client.collected = false)
    (htidy : client.collected = true → client.freed ≠ 0) :
    Handles memory client past .disconnect := by
  have hpresent := h.present hcollected
  have hended : HasEnded (.disconnect :: past) ↔ HasEnded past := by
    simp [hasEnded_cons_iff]
  cases hconnecting : client.connecting with
  | false =>
      have hpast : isConnecting past = false := by
        rw [← hpresent.connecting]
        exact hconnecting
      refine h.handles_same hcollected htidy ?_ (by simp) hpast.symm ?_ hended (by simp) trivial
      · simp [handle, hconnecting]
      · simp [ending, hpast]
  | true =>
      have hpast : isConnecting past = true := by
        rw [← hpresent.connecting]
        exact hconnecting
      have hhandle : handle client .disconnect = some { client with
          connecting := false
          disconnecting := client.disconnecting + 1 } := by
        simp [handle, hconnecting, hcollected]
      have hmem : .connect none ∈ Event.disconnect :: past ↔ .connect none ∈ past := by simp
      have hnot : ¬ client.collected = true := by
        rw [hcollected]
        exact Bool.false_ne_true
      refine handles_of_some hhandle ⟨⟨h.fixed, h.toOwns.freed⟩, ?_, ?_, ?_⟩
        (iff_of_true htidy trivial)
      · exact iff_of_false hnot (h.not_collected_cons hcollected (by simp))
      · exact fun hcontra => absurd hcontra hnot
      · intro _
        refine ⟨rfl, ?_, hpresent.freed.trans hended.symm.not, ?_, ?_⟩
        · simp [ending, hpast, hpresent.disconnecting]
        · rw [hmem]
          exact hpresent.pointers
        · rw [hmem]
          exact hpresent.unset

theorem Kept.handles_hookReturned (h : Kept memory client past)
    (hcollected : client.collected = false)
    (htidy : client.collected = true → client.freed ≠ 0) :
    Handles memory client past .hookReturned := by
  have hpresent := h.present hcollected
  by_cases hnone : client.disconnecting = 0
  · have hending : ending past = 0 := by
      rw [← hpresent.disconnecting]
      exact hnone
    refine h.handles_same hcollected htidy ?_ (by simp) rfl ?_ ?_ (by simp) ?_
    · simp [handle, hnone]
    · simp [ending, hending]
    · simp [hasEnded_cons_iff, hending]
    · exact fun _ hcontra => absurd hending hcontra
  · have hending : ending past ≠ 0 := by
      rw [← hpresent.disconnecting]
      exact hnone
    have howns : MumbleClient.Owns { client with disconnecting := client.disconnecting - 1 } :=
      ⟨h.fixed, h.toOwns.freed⟩
    refine h.handles_free hcollected { client with disconnecting := client.disconnecting - 1 }
      (client.freed = 0) (by simp) hcollected hpresent.connecting ?_ (fun _ => ?_) ?_ ?_
    · simp [ending, hpresent.disconnecting]
    · exact (hasEnded_cons_iff _ _).mpr (Or.inr (Or.inr ⟨rfl, hending⟩))
    · simp only [handle, hnone, if_false]
      exact howns.disconnected fun hfreed => hpresent.pointers hfreed (mem_of_ending hending)
    · rw [FreesOnce, imp_iff_right (h.not_wasCollected hcollected), imp_iff_right hending,
        hpresent.freed]

theorem Kept.handles_collect (h : Kept memory client past)
    (hcollected : client.collected = false)
    (htidy : client.collected = true → client.freed ≠ 0) :
    Handles memory client past .collect := by
  have hpresent := h.present hcollected
  have hended : HasEnded (.collect :: past) ↔ HasEnded past := by
    simp [hasEnded_cons_iff]
  by_cases hstill : client.disconnecting = 0
  · have hending : ending past = 0 := by
      rw [← hpresent.disconnecting]
      exact hstill
    have hwas : WasCollected (.collect :: past) :=
      (wasCollected_cons_iff _ _).mpr (Or.inr ⟨rfl, hending⟩)
    have honce : FreesOnce memory past .collect ↔
        (client.connecting = true ↔ client.freed = 0) := by
      rw [FreesOnce, imp_iff_right (h.not_wasCollected hcollected), imp_iff_right hending,
        hpresent.connecting, hpresent.freed]
    -- nothing is said of the members once the client is collected
    have hafter (other : MumbleClient) (howns : other.Owns) (hother : other.disconnecting = 0) :
        Kept memory { other with collected := true } (.collect :: past) := by
      refine ⟨⟨howns.fixed, howns.freed⟩, iff_of_true rfl hwas, fun _ => hother, ?_⟩
      intro hcontra
      cases hcontra
    cases hconnecting : client.connecting with
    | false =>
        have hhandle : handle client .collect = some { client with collected := true } := by
          simp [handle, hcollected, hstill, hconnecting]
        refine handles_of_some hhandle (hafter client h.toOwns hstill) ?_
        rw [honce, hconnecting]
        simp
    | true =>
        have howns : MumbleClient.Owns { client with connecting := false } :=
          ⟨h.fixed, h.toOwns.freed⟩
        have hhandle : handle client .collect =
            (disconnected { client with connecting := false }).map fun client =>
              { client with collected := true } := by
          simp [handle, hcollected, hstill, hconnecting]
        have hpast : .connect none ∈ past := by
          apply mem_of_isConnecting
          rw [← hpresent.connecting]
          exact hconnecting
        rcases howns.disconnected fun hfreed => hpresent.pointers hfreed hpast with
          ⟨hfreed, client', hclient', hleft⟩ | ⟨hfreed, hnone⟩
        · rw [hclient', Option.map_some] at hhandle
          refine handles_of_some hhandle (hafter client' hleft.owns ?_) ?_
          · exact hleft.disconnecting.trans hstill
          · rw [honce]
            refine iff_of_true (fun _ => ?_) (iff_of_true hconnecting hfreed)
            rw [hleft.freed]
            exact Nat.one_ne_zero
        · rw [hnone, Option.map_none] at hhandle
          unfold Handles
          rw [hhandle, honce]
          refine ⟨nofun, iff_of_false not_tidy_none ?_⟩
          intro hboth
          exact hfreed (hboth.mp hconnecting)
  · have hending : ending past ≠ 0 := by
      rw [← hpresent.disconnecting]
      exact hstill
    refine h.handles_same hcollected htidy ?_ (fun hcontra => hending hcontra.2) rfl rfl hended
      (by simp) fun _ hcontra => absurd hcontra hending
    simp [handle, hstill]

theorem Kept.handles (h : Kept memory client past) (htidy : Tidy ⟨some client, past⟩)
    (e : Event) : Handles memory client past e := by
  rw [h.toOwns.tidy_iff] at htidy
  cases hcollected : client.collected with
  | true => exact h.handles_collected htidy hcollected e
  | false =>
      cases e with
      | connect exit => exact h.handles_connect hcollected exit
      | disconnect => exact h.handles_disconnect hcollected htidy
      | hookReturned => exact h.handles_hookReturned hcollected htidy
      | collect => exact h.handles_collect hcollected htidy

theorem kept_new (memory : Pointer → Option Nat) :
    Kept memory (mumbleClientNew memory) [] := by
  refine ⟨⟨?_, Nat.zero_le 1⟩, ?_, fun _ => rfl, ?_⟩
  · intro resource hmem
    exact iff_of_true (by simpa [mumbleClientNew] using hmem) rfl
  · refine iff_of_false Bool.false_ne_true ?_
    rintro ⟨later, before, hsplit, -⟩
    simp at hsplit
  · intro _
    refine ⟨rfl, rfl, iff_of_true rfl ?_, ?_, fun _ _ => ⟨rfl, ?_⟩⟩
    · rintro (⟨exit, hmem⟩ | ⟨later, before, hsplit, -⟩)
      · cases hmem
      · simp at hsplit
    · intro _ hmem
      cases hmem
    · intro pointer attempt
      simp [mumbleClientNew, fixedResources]

end Events

end LuaMumble.Client.Lifecycle
