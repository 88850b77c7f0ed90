import LuaMumble.User.State
import LuaMumble.Userdata.Links

/-!
The channels that a user listens to, which a `UserState` edits as a `ChannelState` edits the links
of a channel. `isListening` looks the number of a channel up in the list, and `getListens` gives
the channels that the client knows.
-/

namespace LuaMumble.User

open Lib
open LuaMumble.Lib.Bag (addAll removeAll)
open LuaMumble.Lib.Machine (Along)
open LuaMumble.Userdata (hasKey_getLinks)

/-- The client finds an object for the channel. -/
def State.Knows (s : State) (channelId : UInt32) : Prop :=
  (mumbleChannelRawGet s channelId).isSome = true

/-- The client finds it behind the loop over volume adjustments. -/
def State.WillKnow (s : State) (adjustments : List (UInt32 × UInt32)) (channelId : UInt32) :
    Prop :=
  s.Knows channelId ∨ channelId.toNat < 2 ^ 31 ∧ channelId ∈ adjustments.map Prod.fst

/-- The user that the client has for the session. -/
def State.userOf (s : State) (session : UInt32) : MumbleUser :=
  ((s.users.table session).bind s.objects).getD (newUser session)

/-- `isListening` of the user, with a channel of that number. -/
def IsListening (s : State) (session channelId : UInt32) : Prop :=
  userGet s (s.userOf session) (fun _ => 0) (.isListening channelId) = some (.boolean true)

/-- `getListens` of the user reports the channel. -/
def ReportsListen (s : State) (session channelId : UInt32) : Prop :=
  ∃ value, userGet s (s.userOf session) (fun _ => 0) .getListens = some value ∧
    value.HasKey channelId.toNat

/-- Behind a `UserState`, both getters tell what they did before, with the channels that were added
and without those that were removed. -/
def ListensFollow (s : State) : Event → Prop
  | .userState state behind =>
      ∀ session, state.session = some session → ∀ channelId,
        let s' := (step s (.userState state behind)).2
        (IsListening s' session channelId ↔
          (IsListening s session channelId ∨ channelId ∈ state.listeningChannelAdd) ∧
            channelId ∉ state.listeningChannelRemove) ∧
        (ReportsListen s' session channelId ↔
          (ReportsListen s session channelId ∨ channelId ∈ state.listeningChannelAdd) ∧
            channelId ∉ state.listeningChannelRemove)
  | _ => True

/-- Where a channel is removed, it is removed as often as it was put in. One that is added and not
removed is known by then, and one that the user listened to before does not come to be known. -/
def ListensCounted (s : State) : Event → Prop
  | .userState state _ =>
      ∀ session, state.session = some session → ∀ channelId,
        let listens := (s.userOf session).listens
        let known := s.WillKnow state.listeningVolumeAdjustment channelId
        (channelId ∈ state.listeningChannelRemove →
          listens.count channelId + state.listeningChannelAdd.count channelId ≤
            state.listeningChannelRemove.count channelId) ∧
        (channelId ∉ state.listeningChannelRemove →
          (channelId ∈ state.listeningChannelAdd → known) ∧
          (channelId ∈ listens → known →
            s.Knows channelId ∨ channelId ∈ state.listeningChannelAdd))
  | _ => True

section Listens

variable {s : State} {session channelId : UInt32}

theorem isListening_iff :
    IsListening s session channelId ↔ channelId ∈ (s.userOf session).listens := by
  simp [IsListening, userGet, userIsListening]

theorem reportsListen_iff :
    ReportsListen s session channelId ↔
      channelId ∈ (s.userOf session).listens ∧ s.Knows channelId := by
  simp only [ReportsListen, userGet, Option.some.injEq, exists_eq_left', userGetListens,
    hasKey_getLinks]
  rfl

theorem knows_mumbleChannelGet (other : UInt32) :
    (mumbleChannelGet s channelId).2.Knows other ↔
      s.Knows other ∨ other.toNat < 2 ^ 31 ∧ other = channelId := by
  unfold State.Knows mumbleChannelRawGet
  by_cases hsmall : other.toNat < 2 ^ 31
  · rw [if_pos hsmall, if_pos hsmall, and_iff_right hsmall, mumbleChannelGet]
    split
    · rename_i n htable
      refine ⟨.inl, ?_⟩
      rintro (hother | rfl)
      · exact hother
      · rw [htable]
        rfl
    · simp only [Client.Objects.put, Function.update_apply]
      split_ifs with hother
      · simp [hother]
      · simp [hother]
  · rw [if_neg hsmall, if_neg hsmall, or_iff_left fun hboth => hsmall hboth.1]

/-- The loop makes the channels that it names known. -/
theorem knows_adjustVolumes (adjustments : List (UInt32 × UInt32)) :
    (adjustVolumes adjustments s).Knows channelId ↔ s.WillKnow adjustments channelId := by
  induction adjustments generalizing s with
  | nil => simp [adjustVolumes, State.WillKnow]
  | cons adjustment rest ih =>
      have hrest := ih (s := (mumbleChannelGet s adjustment.1).2)
      rw [adjustVolumes] at hrest ⊢
      rw [List.foldl_cons, hrest, State.WillKnow, State.WillKnow, knows_mumbleChannelGet,
        List.map_cons, List.mem_cons, or_assoc, ← and_or_left]

/-- The loop leaves the users alone. -/
theorem userOf_adjustVolumes (adjustments : List (UInt32 × UInt32)) :
    (adjustVolumes adjustments s).userOf session = s.userOf session := by
  refine adjustVolumes_keeps (fun s' => s'.userOf session = s.userOf session) ?_ adjustments rfl
  intro s' channelId hs'
  rw [← hs', mumbleChannelGet]
  split <;> rfl

/-- The object under the session is the one that `mumble_user_get` found or made. -/
theorem table_mumbleUserGet :
    (mumbleUserGet s session).2.users.table session = some (mumbleUserGet s session).1 := by
  unfold mumbleUserGet
  split
  · assumption
  · exact Function.update_self ..

variable (s session) in
/-- A user who was not known listens to nothing yet. -/
theorem userOf_mumbleUserGet : (mumbleUserGet s session).2.userOf session = s.userOf session := by
  unfold mumbleUserGet
  split
  · rfl
  · rename_i hnone
    have hbefore : s.userOf session = newUser session := by
      rw [State.userOf, hnone]
      rfl
    rw [hbefore, State.userOf]
    simp only [Client.Objects.put, Function.update_self, Option.bind_some, Option.getD_some]

theorem knows_mumbleUserGet : (mumbleUserGet s session).2.Knows channelId ↔ s.Knows channelId := by
  unfold mumbleUserGet
  split <;> rfl

/-- The user behind the message. -/
theorem userOf_packetUserState (state : UserState) (behind : Behind)
    (hsession : state.session = some session) :
    (packetUserState state behind s).2.userOf session =
      { state.assign session (s.userOf session) with connected := true } := by
  have htable : (mumbleUserGet s session).2.users.table session = _ := table_mumbleUserGet
  unfold packetUserState
  rw [hsession]
  simp only
  rw [userOf_adjustVolumes, State.userOf]
  simp only [htable, Option.bind_some, Function.update_self, Option.getD_some]
  rw [← userOf_mumbleUserGet s session, State.userOf, htable, Option.bind_some]

theorem knows_packetUserState (state : UserState) (behind : Behind)
    (hsession : state.session = some session) :
    (packetUserState state behind s).2.Knows channelId ↔
      s.WillKnow state.listeningVolumeAdjustment channelId := by
  unfold packetUserState
  rw [hsession]
  simp only
  rw [knows_adjustVolumes, State.WillKnow, State.WillKnow]
  exact or_congr_left knows_mumbleUserGet

/-- One message. -/
theorem listensFollow_iff (e : Event) : ListensFollow s e ↔ ListensCounted s e := by
  cases e with
  | userState state behind =>
      refine forall_congr' fun session => forall_congr' fun hsession => forall_congr' fun id => ?_
      have huser : (step s (.userState state behind)).2.userOf session = _ :=
        userOf_packetUserState state behind hsession
      have hknown : (step s (.userState state behind)).2.Knows id ↔ _ :=
        knows_packetUserState state behind hsession
      have hlist : (state.assign session (s.userOf session)).listens =
          removeAll state.listeningChannelRemove
            (addAll state.listeningChannelAdd (s.userOf session).listens) := rfl
      have hcounted := Bag.mem_update_eq_iff state.listeningChannelAdd
        state.listeningChannelRemove (s.userOf session).listens id
      have hshown := Bag.shown_update_iff state.listeningChannelAdd
        state.listeningChannelRemove (s.userOf session).listens id
        (show s.Knows id → s.WillKnow state.listeningVolumeAdjustment id from .inl)
      simp only [isListening_iff, reportsListen_iff, huser, hknown, hlist]
      rw [hcounted, hshown]
      constructor
      · rintro ⟨hremove, hkept, -⟩
        exact ⟨hremove, hkept⟩
      · rintro ⟨hremove, hkept⟩
        exact ⟨hremove, hkept, fun hremoved _ => hremove hremoved⟩
  | _ => exact Iff.rfl

end Listens

/-- In every run of messages about users, the getters follow the edits if and only if all of them
are counted. -/
theorem listens_follow_iff (events : List Event) :
    Along step ListensFollow start events ↔ Along step ListensCounted start events :=
  Machine.along_congr (fun _ => True) (fun _ _ _ => trivial) (fun _ e _ => listensFollow_iff e)
    start events trivial

/-- In every run, the links of a channel and the channels that a user listens to are the sets that
the messages make of them, if and only if the edits are counted. -/
theorem edits_followed_iff (contents : Userdata.Contents) (events : List Userdata.Event)
    (userEvents : List Event) :
    (Along (Userdata.step contents) (Userdata.LinksFollow contents) Userdata.start events ↔
      Along (Userdata.step contents) Userdata.LinksCounted Userdata.start events) ∧
    (Along step ListensFollow start userEvents ↔ Along step ListensCounted start userEvents) :=
  ⟨Userdata.links_follow_iff contents events, listens_follow_iff userEvents⟩

/-- A link that was added twice is still there when it has been removed, and so is a channel that
a user listens to. -/
theorem removed_still_there :
    (¬ ∀ contents events,
      Along (Userdata.step contents) (Userdata.LinksFollow contents) Userdata.start events) ∧
    ¬ ∀ userEvents, Along step ListensFollow start userEvents := by
  constructor
  · intro h
    have halong := (Userdata.links_follow_iff Userdata.quiet
      [.channelState 0 { channelId := some 7 } fun _ => 0,
        .channelState 0 { channelId := some 3, linksAdd := [7] } fun _ => 0,
        .channelState 0 { channelId := some 3, linksAdd := [7] } fun _ => 0,
        .channelState 0 { channelId := some 3, linksRemove := [7] } fun _ => 0]).mp (h _ _)
    have hcount := (halong.2.2.2.1 3 rfl rfl 7).2 (by decide) rfl
    exact absurd hcount (by decide)
  · intro h
    have halong := (listens_follow_iff
      [.userState { session := some 5, listeningChannelAdd := [7] } ⟨0, 0, 0⟩,
        .userState { session := some 5, listeningChannelAdd := [7] } ⟨0, 0, 0⟩,
        .userState { session := some 5, listeningChannelRemove := [7] } ⟨0, 0, 0⟩]).mp (h _)
    have hcount := (halong.2.2.1 5 rfl 7).1 (by decide)
    exact absurd hcount (by decide)

end LuaMumble.User
