import LuaMumble.Lib.Bag
import LuaMumble.Userdata.Said

/-!
The links of a channel. `links_add` and `links_remove` of a `ChannelState` are edits of a set of
channels, which the client keeps as a list: it puts every number in front that is to be added, and
takes one occurrence out for every number that is to be removed. `getLinks` leaves out the
channels that the client does not know.
-/

namespace LuaMumble.Userdata

open Lib
open LuaMumble.Lib.Bag (addAll removeAll)
open LuaMumble.Lib.Machine (final Along)

/-- The table has something under the number. -/
def LuaValue.HasKey (key : Nat) : LuaValue → Prop
  | .table entries => ∃ n, (key, some n) ∈ entries
  | _ => False

/-- The client finds an object for the channel. -/
def State.Knows (s : State) (client : Nat) (channelId : UInt32) : Prop :=
  (mumbleChannelRawGet s client channelId).isSome = true

/-- `getLinks` of the channel, called on the object that the client has for it and on `client->l`,
reports the link. -/
def ReportsLink (contents : Contents) (s : State) (client : Nat) (channelId link : UInt32) :
    Prop :=
  ∃ n value, s.channelAt client channelId = some n ∧
    (step contents s (.channelGet n .getLinks fun _ => 0)).1 = .pushed value ∧
    value.HasKey link.toNat

/-- The numbers that are kept for a channel. -/
def State.linksOf (s : State) (client : Nat) (channelId : UInt32) : List UInt32 :=
  (((s.channelAt client channelId).bind s.channels).map MumbleChannel.links).getD []

/-- Behind a `ChannelState` that edits the links, `getLinks` reports what it did before, with the
links that were added and without those that were removed. -/
def LinksFollow (contents : Contents) (s : State) : Event → Prop
  | .channelState client state behind =>
      ∀ channelId, state.channelId = some channelId → state.links = [] → ∀ link,
        (ReportsLink contents (step contents s (.channelState client state behind)).2
            client channelId link ↔
          (ReportsLink contents s client channelId link ∨ link ∈ state.linksAdd) ∧
            link ∉ state.linksRemove)
  | _ => True

/-- A link that is added and not removed is to a channel that the client knows by then; and where
one is removed, it is removed as often as it was put in. -/
def LinksCounted (s : State) : Event → Prop
  | .channelState client state _ =>
      ∀ channelId, state.channelId = some channelId → state.links = [] → ∀ link,
        let known := (mumbleChannelGet s client channelId).2.Knows client link
        (link ∈ state.linksAdd → link ∉ state.linksRemove → known) ∧
        (link ∈ state.linksRemove → known →
          (s.linksOf client channelId).count link + state.linksAdd.count link ≤
            state.linksRemove.count link)
  | _ => True

section Links

variable {contents : Contents} {s : State} {record : Record} {client n : Nat}
  {channelId link : UInt32}

theorem hasKey_getLinks (ids : List UInt32) (get : UInt32 → Option Nat) :
    (LuaValue.table (ids.map fun id => (id.toNat, get id))).HasKey link.toNat ↔
      link ∈ ids ∧ (get link).isSome = true := by
  simp only [LuaValue.HasKey, List.mem_map, Prod.mk.injEq]
  constructor
  · rintro ⟨n, id, hid, hnat, hget⟩
    rw [UInt32.toNat_inj] at hnat
    subst hnat
    exact ⟨hid, by rw [hget]; rfl⟩
  · rintro ⟨hid, hget⟩
    obtain ⟨n, hn⟩ := Option.isSome_iff_exists.mp hget
    exact ⟨n, link, hid, rfl, hn⟩

/-- What `getLinks` reports are the known ones of the numbers that are kept. -/
theorem reportsLink_iff (h : Keeps s record) :
    ReportsLink contents s client channelId link ↔
      link ∈ s.linksOf client channelId ∧ s.Knows client link := by
  unfold ReportsLink State.linksOf
  cases hn : s.channelAt client channelId with
  | none => simp
  | some n =>
      obtain ⟨channel, hchannel, hclient, -⟩ := h.known client channelId n hn
      simp only [Option.some.injEq, Option.bind_some, hchannel, Option.map_some, Option.getD_some]
      constructor
      · rintro ⟨_, value, rfl, hvalue, hkey⟩
        simp only [step, hchannel, channelGet, Output.pushed.injEq] at hvalue
        rw [← hvalue, hasKey_getLinks, hclient] at hkey
        exact hkey
      · intro hlink
        refine ⟨n, _, rfl, by simp only [step, hchannel, channelGet]; rfl, ?_⟩
        rw [hasKey_getLinks, hclient]
        exact hlink

/-- A channel that was not known has no links yet. -/
theorem linksOf_mumbleChannelGet :
    (mumbleChannelGet s client channelId).2.linksOf client channelId =
      s.linksOf client channelId := by
  unfold Userdata.mumbleChannelGet
  split
  · rfl
  · rename_i hnone
    have htable := channelAt_put s client client channelId channelId s.created
    rw [if_pos ⟨rfl, rfl⟩] at htable
    have hbefore : s.linksOf client channelId = [] := by
      rw [State.linksOf, hnone]
      rfl
    rw [hbefore, State.linksOf, State.channelAt]
    dsimp only
    rw [htable, Option.bind_some, Function.update_self]
    rfl

/-- A channel whose links are kept was known before. -/
theorem knows_of_mem_linksOf (hlink : link ∈ s.linksOf client channelId) :
    s.Knows client link ↔ (mumbleChannelGet s client channelId).2.Knows client link := by
  unfold Userdata.mumbleChannelGet
  split
  · rfl
  · rename_i hnone
    rw [State.linksOf, hnone] at hlink
    cases hlink

/-- The table after the message. -/
theorem knows_packetChannelState (state : ChannelState) (behind : Nat → UInt8)
    (hid : state.channelId = some channelId) :
    (packetChannelState client state behind s).2.Knows client link ↔
      (mumbleChannelGet s client channelId).2.Knows client link := by
  unfold packetChannelState
  rw [hid]
  rfl

/-- The numbers that are kept after the message. -/
theorem linksOf_packetChannelState (h : Keeps s record) (state : ChannelState)
    (behind : Nat → UInt8) (hid : state.channelId = some channelId) (hlinks : state.links = []) :
    (packetChannelState client state behind s).2.linksOf client channelId =
      removeAll state.linksRemove (addAll state.linksAdd (s.linksOf client channelId)) := by
  have hget := h.mumbleChannelGet client channelId
  have hn := channelAt_mumbleChannelGet s client channelId
  obtain ⟨channel, hchannel, -⟩ := hget.known client channelId _ hn
  have hbefore : s.linksOf client channelId = channel.links := by
    rw [← linksOf_mumbleChannelGet, State.linksOf, hn, Option.bind_some, hchannel]
    rfl
  have hafter : (packetChannelState client state behind s).2.linksOf client channelId =
      (state.assign channel).links := by
    unfold packetChannelState
    rw [hid]
    have htable : (setChannel (mumbleChannelGet s client channelId).1 state.assign
        (mumbleChannelGet s client channelId).2).channelAt client channelId =
          some (mumbleChannelGet s client channelId).1 := hn
    simp only [State.linksOf, htable, Option.bind_some]
    simp only [setChannel, Function.update_self, hchannel, Option.map_some, Option.getD_some]
  rw [hafter, hbefore, ChannelState.assign, hlinks]
  rfl

/-- One message. -/
theorem linksFollow_iff (h : Keeps s record) (e : Event) :
    LinksFollow contents s e ↔ LinksCounted s e := by
  cases e with
  | channelState client state behind =>
      apply forall_congr'
      intro channelId
      refine forall_congr' fun hid => forall_congr' fun hlinks => forall_congr' fun link => ?_
      have hnext := h.next contents (.channelState client state behind)
      rw [reportsLink_iff hnext, reportsLink_iff h]
      have hlist : (step contents s (.channelState client state behind)).2.linksOf client
          channelId = _ := linksOf_packetChannelState h state behind hid hlinks
      have hknown : (step contents s (.channelState client state behind)).2.Knows client link ↔ _ :=
        knows_packetChannelState state behind hid
      rw [hlist, hknown, and_congr_right fun hlink => knows_of_mem_linksOf hlink,
        Bag.shown_update_iff _ _ _ _ id]
      constructor
      · rintro ⟨hadd, hremove⟩
        exact ⟨fun hadded hkept => (hadd hkept).1 hadded, hremove⟩
      · rintro ⟨hadd, hremove⟩
        exact ⟨fun hkept => ⟨fun hadded => hadd hadded hkept, fun _ => .inl⟩, hremove⟩
  | _ => exact Iff.rfl

end Links

/-- In every run, `getLinks` follows the edits of the links at every `ChannelState`, if and only if
all of them are counted. -/
theorem links_follow_iff (contents : Contents) (events : List Event) :
    Along (step contents) (LinksFollow contents) start events ↔
      Along (step contents) LinksCounted start events := by
  apply Machine.along_congr fun s => ∃ record, Keeps s record
  · rintro s e ⟨record, h⟩
    exact ⟨_, h.next contents e⟩
  · rintro s e ⟨record, h⟩
    exact linksFollow_iff h e
  · exact ⟨_, keeps_start⟩

end LuaMumble.Userdata
