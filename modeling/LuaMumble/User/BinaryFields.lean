import LuaMumble.User.State
import LuaMumble.Userdata.DescriptionHash

/-!
The members of a message that are bytes: the texture of a user and the hashes. An event has the
texture as it is and a hash in hex, made from the copy that the client keeps, and the getters make
their strings from the copy later. A NUL among the bytes ends the copy, but the length that is
kept beside it goes on.
-/

namespace LuaMumble.User

open Lib
open LuaMumble.Lib.TracedRead hiding Entry
open LuaMumble.Lib.Machine (final Along)
open LuaMumble.Userdata (LuaValue mem_field strdup safeStrndup binToStrhex memoryOf pushlstring
  binToStrhexFrom pushstringFrom hexOf InCopy blockOf copyOf HexIntact)

/-- The members of a `UserState` that are bytes. -/
inductive BinaryField where
  | texture
  | commentHash
  | textureHash

namespace BinaryField

def member (state : UserState) : BinaryField → Option (List UInt8)
  | .texture => state.texture
  | .commentHash => state.commentHash
  | .textureHash => state.textureHash

/-- The name in the event. -/
def name : BinaryField → String
  | .texture => "texture"
  | .commentHash => "comment_hash"
  | .textureHash => "texture_hash"

def getter : BinaryField → Getter
  | .texture => .getTexture
  | .commentHash => .getCommentHash
  | .textureHash => .getTextureHash

/-- What a script is told of the bytes. -/
def told (bytes : List UInt8) : BinaryField → List UInt8
  | .texture => bytes
  | .commentHash | .textureHash => hexOf bytes

/-- The copy that a user has, with the length if it is kept. -/
def copy (user : MumbleUser) : BinaryField → Option (List UInt8) × Option Nat
  | .texture => (user.texture, none)
  | .commentHash => (user.commentHash, some user.commentHashLen)
  | .textureHash => (user.textureHash, some user.textureHashLen)

/-- What is read of the copy for the event. -/
def eventRead (bytes : List UInt8) : BinaryField → Traced Empty (List UInt8)
  | .texture => pushlstring bytes.length
  | .commentHash | .textureHash => binToStrhexFrom 0 bytes.length

/-- What the getter reads of the copy. A string is read up to its NUL, with the number of bytes
after which the reading is given up. -/
def getterRead (user : MumbleUser) (limit : Nat) (binary : BinaryField) :
    Traced Empty (List UInt8) :=
  match (binary.copy user).2, (binary.copy user).1 with
  | some len, _ => binToStrhexFrom 0 len
  | none, none => pure []
  | none, some _ => pushstringFrom 0 limit

def behind (behind : Behind) : BinaryField → Nat → UInt8
  | .texture => behind.texture
  | .commentHash => behind.commentHash
  | .textureHash => behind.textureHash

/-- The events of the hooks have the bytes, made from what was copied alone. -/
def EventTells (binary : BinaryField) (bytes : List UInt8) (behind : Behind)
    (calls : List HookCall) : Prop :=
  (∃ call ∈ calls, call.name = "OnUserState") ∧
  (∀ call ∈ calls, call.name = "OnUserState" ∨ call.name = "OnUserConnect" → ∀ value,
    (binary.name, value) ∈ call.event ↔ value = .string (binary.told bytes)) ∧
  Always (InCopy (blockOf bytes)) (binary.eventRead bytes)
    (memoryOf (blockOf bytes) (binary.behind behind))

/-- The getter of the user in the userdata `n` gives the bytes, made from what was copied alone. -/
def GetterTells (binary : BinaryField) (bytes : List UInt8) (n : Nat) (s : State) : Prop :=
  ∃ user, s.objects n = some user ∧ ∀ behind,
    userGet s user behind binary.getter = some (.string (binary.told bytes)) ∧
    ∀ limit, Always (InCopy ((binary.copy user).1.getD [])) (binary.getterRead user limit)
      (memoryOf ((binary.copy user).1.getD []) behind)

/-- A message that has the member again, for the user in the userdata. -/
def Rewrites (binary : BinaryField) (n : Nat) (s : State) : Event → Prop
  | .userState state _ => ∃ session, state.session = some session ∧
      (mumbleUserGet s session).1 = n ∧ (binary.member state).isSome = true
  | _ => False

/-- The event of the message has the bytes, and so has the getter at any later time, as long as
no message has the member again. -/
def Kept (binary : BinaryField) (s : State) (state : UserState) (session : UInt32)
    (bytes : List UInt8) : Prop :=
  ∀ behind,
    let n := (mumbleUserGet s session).1
    let s' := (packetUserState state behind s).2
    binary.EventTells bytes behind (packetUserState state behind s).1 ∧
    ∀ later, Along step (fun s e => ¬ binary.Rewrites n s e) s' later →
      binary.GetterTells bytes n (final step s' later)

/-- Bytes that `strndup` copies whole. The texture is read back as a string that ends with its
NUL, and it is NULL if it is empty. -/
def Intact (bytes : List UInt8) : BinaryField → Prop
  | .texture => bytes ≠ [] ∧ 0 ∉ bytes
  | .commentHash | .textureHash => 0 ∉ bytes.dropLast

section Events

variable {binary : BinaryField} {bytes : List UInt8} {s : State} {state : UserState}
  {session : UInt32}

theorem notMem_channelsField {name other : String} (hne : other ≠ name) (value : LuaValue)
    (channels : List UInt32) : (other, value) ∉ channelsField s name channels := by
  intro h
  unfold channelsField at h
  split_ifs at h
  · cases h
  · exact hne (congrArg Prod.fst (List.mem_singleton.mp h))

/-- What the event has for the bytes. -/
def eventValue (bytes : List UInt8) (behind : Behind) : BinaryField → LuaValue
  | .texture => pushCopy (safeStrndup bytes) behind.texture bytes.length
  | .commentHash =>
      .pushstring (binToStrhex (safeStrndup bytes) behind.commentHash bytes.length)
  | .textureHash =>
      .pushstring (binToStrhex (safeStrndup bytes) behind.textureHash bytes.length)

theorem mem_event (hmember : binary.member state = some bytes) (behind : Behind)
    (value : LuaValue) :
    (binary.name, value) ∈ state.event s session behind ↔
      value = binary.eventValue bytes behind := by
  have hadd : (binary.name, value) ∉
      channelsField s "listening_channel_add" state.listeningChannelAdd :=
    notMem_channelsField (by cases binary <;> simp [name]) value _
  have hremove : (binary.name, value) ∉
      channelsField s "listening_channel_remove" state.listeningChannelRemove :=
    notMem_channelsField (by cases binary <;> simp [name]) value _
  unfold UserState.event
  simp only [List.mem_append, hadd, hremove, or_false, mem_field]
  cases binary with
  | texture =>
      simp only [member] at hmember
      simp [name, hmember, eventValue]
  | commentHash =>
      simp only [member] at hmember
      simp [name, hmember, eventValue]
  | textureHash =>
      simp only [member] at hmember
      simp [name, hmember, eventValue]

/-- The hooks for the user are called with that event. -/
theorem mem_calls {behind : Behind} (hsession : state.session = some session) {call : HookCall}
    (hcall : call ∈ (packetUserState state behind s).1)
    (hname : call.name = "OnUserState" ∨ call.name = "OnUserConnect") :
    call.event = state.event (mumbleUserGet s session).2 session behind := by
  unfold packetUserState at hcall
  rw [hsession] at hcall
  simp only [List.mem_append, List.mem_singleton] at hcall
  obtain (hmoved | hconnect) | rfl := hcall
  · unfold UserState.moved at hmoved
    split at hmoved
    · cases hmoved
    · split_ifs at hmoved
      · rw [List.mem_singleton.mp hmoved] at hname
        simp at hname
      · cases hmoved
  · split_ifs at hconnect
    · rw [List.mem_singleton.mp hconnect]
    · cases hconnect
  · rfl

variable (binary) in
theorem eventValue_eq_iff (behind : Behind) :
    LuaValue.string (binary.told bytes) = binary.eventValue bytes behind ∧
      Always (InCopy (blockOf bytes)) (binary.eventRead bytes)
        (memoryOf (blockOf bytes) (binary.behind behind)) ↔
    0 ∉ bytes.dropLast := by
  have hhex : ∀ behind, LuaValue.string (hexOf bytes) =
      .pushstring (binToStrhex (safeStrndup bytes) behind bytes.length) ∧
        Always (InCopy (blockOf bytes)) (binToStrhexFrom 0 bytes.length)
          (memoryOf (blockOf bytes) behind) ↔ 0 ∉ bytes.dropLast := by
    intro behind
    rw [← Userdata.hexIntact_iff bytes behind, Userdata.HexIntact, eq_comm,
      Userdata.pushstring_eq_string_iff]
  cases binary with
  | texture =>
      have hreads : Always (InCopy (blockOf bytes)) (pushlstring bytes.length)
          (memoryOf (blockOf bytes) behind.texture) ↔ 0 ∉ bytes.dropLast := by
        rw [pushlstring, always_slice, InCopy, Nat.zero_add]
        exact Userdata.length_le_blockOf_iff bytes
      refine (and_congr_right fun _ => hreads).trans (and_iff_right_of_imp ?_)
      intro hcopied
      have hbytes := Userdata.bytesAt_blockOf hcopied behind.texture
      exact congrArg LuaValue.string hbytes.symm
  | commentHash => exact hhex behind.commentHash
  | textureHash => exact hhex behind.textureHash

/-- The events have the bytes just when the copy is whole. -/
theorem eventTells_iff {behind : Behind} (hsession : state.session = some session)
    (hmember : binary.member state = some bytes) :
    binary.EventTells bytes behind (packetUserState state behind s).1 ↔
      0 ∉ bytes.dropLast := by
  have hcalled : ∃ call ∈ (packetUserState state behind s).1, call.name = "OnUserState" := by
    unfold packetUserState
    rw [hsession]
    exact ⟨_, List.mem_append_right _ (List.mem_singleton_self _), rfl⟩
  rw [EventTells, ← binary.eventValue_eq_iff behind, and_iff_right hcalled]
  apply and_congr_left'
  constructor
  · intro h
    obtain ⟨call, hcall, hname⟩ := hcalled
    have htold := (h call hcall (.inl hname) (.string (binary.told bytes))).mpr rfl
    rwa [mem_calls hsession hcall (.inl hname), mem_event hmember] at htold
  · intro htold call hcall hname value
    rw [mem_calls hsession hcall hname, mem_event hmember, ← htold]

end Events

section Getters

variable {binary : BinaryField} {bytes : List UInt8} {s : State} {state : UserState}
  {session : UInt32} {n : Nat}

/-- The user in the userdata has the copy. -/
def Has (binary : BinaryField) (n : Nat) (copy : Option (List UInt8) × Option Nat)
    (s : State) : Prop :=
  n < s.created ∧ ∃ user, s.objects n = some user ∧ binary.copy user = copy

theorem created_mumbleUserGet_le : s.created ≤ (mumbleUserGet s session).2.created := by
  unfold mumbleUserGet
  split
  · exact le_refl _
  · exact Nat.le_succ _

theorem created_mumbleChannelGet_le (channelId : UInt32) :
    s.created ≤ (mumbleChannelGet s channelId).2.created := by
  unfold mumbleChannelGet
  split
  · exact le_refl _
  · exact Nat.le_succ _

theorem objects_mumbleChannelGet (channelId : UInt32) :
    (mumbleChannelGet s channelId).2.objects = s.objects := by
  unfold mumbleChannelGet
  split <;> rfl

variable {copy : Option (List UInt8) × Option Nat}

theorem has_mumbleChannelGet (h : binary.Has n copy s) (channelId : UInt32) :
    binary.Has n copy (mumbleChannelGet s channelId).2 := by
  obtain ⟨hcreated, user, huser, hcopy⟩ := h
  refine ⟨lt_of_lt_of_le hcreated (created_mumbleChannelGet_le channelId), user, ?_, hcopy⟩
  rw [objects_mumbleChannelGet, huser]

theorem has_adjustVolumes (h : binary.Has n copy s) (adjustments : List (UInt32 × UInt32)) :
    binary.Has n copy (adjustVolumes adjustments s) :=
  adjustVolumes_keeps (binary.Has n copy)
    (fun _ channelId hs => has_mumbleChannelGet hs channelId) adjustments h

variable (session) in
theorem has_mumbleUserGet (h : binary.Has n copy s) :
    binary.Has n copy (mumbleUserGet s session).2 := by
  obtain ⟨hcreated, user, huser, hcopy⟩ := h
  refine ⟨lt_of_lt_of_le hcreated created_mumbleUserGet_le, user, ?_, hcopy⟩
  unfold mumbleUserGet
  split
  · exact huser
  · simp only [Function.update_of_ne hcreated.ne]
    exact huser

/-- A message without the member leaves the copy alone. -/
theorem copy_assign (hmember : binary.member state = none) (user : MumbleUser) :
    binary.copy { state.assign session user with connected := true } = binary.copy user := by
  cases binary <;> simp_all [copy, member, UserState.assign]

/-- One step. -/
theorem has_step (h : binary.Has n copy s) (e : Event) (hkept : ¬ binary.Rewrites n s e) :
    binary.Has n copy (step s e).2 := by
  cases e with
  | userState state behind =>
      simp only [step, packetUserState]
      split
      · exact h
      · rename_i session hsession
        apply has_adjustVolumes
        obtain ⟨hcreated, user, huser, hcopy⟩ := has_mumbleUserGet session h
        by_cases hn : (mumbleUserGet s session).1 = n
        · have hmember : binary.member state = none := by
            rw [← Option.not_isSome_iff_eq_none]
            intro hsome
            exact hkept ⟨session, hsession, hn, hsome⟩
          refine ⟨hcreated, _, by rw [hn]; exact Function.update_self .., ?_⟩
          rw [copy_assign hmember, huser, ← hcopy]
          rfl
        · refine ⟨hcreated, user, ?_, hcopy⟩
          simp only [Function.update_of_ne (Ne.symm hn)]
          exact huser
  | userRemove session => exact h
  | channelState channelId => exact has_mumbleChannelGet h channelId
  | channelRemove channelId => exact h
  | serverSync => exact h
  | cleanup => exact h

/-- The objects of the table were made before. -/
def Made (s : State) : Prop := ∀ session n, s.users.table session = some n → n < s.created

theorem made_mumbleUserGet (h : Made s) :
    Made (mumbleUserGet s session).2 ∧
      (mumbleUserGet s session).1 < (mumbleUserGet s session).2.created := by
  unfold mumbleUserGet
  split
  · rename_i n hn
    exact ⟨h, h session n hn⟩
  · refine ⟨?_, Nat.lt_succ_self _⟩
    intro other m hm
    simp only [Client.Objects.put, Function.update_apply] at hm
    split_ifs at hm
    · cases hm
      exact Nat.lt_succ_self _
    · exact Nat.lt_succ_of_lt (h other m hm)

theorem made_mumbleChannelGet (h : Made s) (channelId : UInt32) :
    Made (mumbleChannelGet s channelId).2 := by
  intro session n hn
  apply lt_of_lt_of_le _ (created_mumbleChannelGet_le channelId)
  apply h session n
  unfold mumbleChannelGet at hn
  split at hn <;> exact hn

theorem made_adjustVolumes (h : Made s) (adjustments : List (UInt32 × UInt32)) :
    Made (adjustVolumes adjustments s) :=
  adjustVolumes_keeps Made (fun _ channelId hs => made_mumbleChannelGet hs channelId) adjustments h

theorem made_step (s : State) (e : Event) (h : Made s) : Made (step s e).2 := by
  cases e with
  | userState state behind =>
      simp only [step, packetUserState]
      split
      · exact h
      · apply made_adjustVolumes
        exact (made_mumbleUserGet h).1
  | userRemove session =>
      intro other n hn
      simp only [step, Client.Objects.remove, Function.update_apply] at hn
      split_ifs at hn
      exact h other n hn
  | channelState channelId => exact made_mumbleChannelGet h channelId
  | channelRemove channelId => exact h
  | serverSync => exact h
  | cleanup =>
      intro session n hn
      cases hn

/-- The copy that the message makes. -/
def copied (bytes : List UInt8) : BinaryField → Option (List UInt8) × Option Nat
  | .texture => (safeStrndup bytes, none)
  | .commentHash | .textureHash => (safeStrndup bytes, some bytes.length)

theorem has_packetUserState (h : Made s) (behind : Behind) (hsession : state.session = some session)
    (hmember : binary.member state = some bytes) :
    binary.Has (mumbleUserGet s session).1 (binary.copied bytes)
      (packetUserState state behind s).2 := by
  unfold packetUserState
  rw [hsession]
  apply has_adjustVolumes
  refine ⟨(made_mumbleUserGet h).2, _, Function.update_self .., ?_⟩
  cases binary <;> simp_all [copy, member, copied, UserState.assign]

/-- A hash, from the copy and the length. -/
theorem hash_told_iff :
    (∀ behind, (binToStrhex (safeStrndup bytes) behind bytes.length).map LuaValue.string =
        some (.string (hexOf bytes)) ∧
      ∀ _limit : Nat, Always (InCopy (blockOf bytes)) (binToStrhexFrom 0 bytes.length)
        (memoryOf (blockOf bytes) behind)) ↔ 0 ∉ bytes.dropLast := by
  have hone (behind : Nat → UInt8) :
      (binToStrhex (safeStrndup bytes) behind bytes.length).map LuaValue.string =
        some (.string (hexOf bytes)) ↔
      binToStrhex (safeStrndup bytes) behind bytes.length = some (hexOf bytes) := by
    simp
  simp only [hone, forall_const]
  exact Userdata.forall_hexIntact_iff bytes

/-- A texture, from the copy alone. -/
theorem texture_told_iff :
    (∀ behind, some (LuaValue.pushstring ((safeStrndup bytes).map strdup)) =
        some (.string bytes) ∧
      ∀ limit, Always (InCopy (blockOf bytes))
        (match safeStrndup bytes with
          | none => pure []
          | some _ => pushstringFrom 0 limit)
        (memoryOf (blockOf bytes) behind)) ↔ bytes ≠ [] ∧ 0 ∉ bytes := by
  by_cases hbytes : bytes = []
  · simp [hbytes, Userdata.safeStrndup_nil, LuaValue.pushstring]
  · have hreads (behind : Nat → UInt8) (limit : Nat) :=
      (Userdata.pushstringFrom_copyOf bytes behind limit).2
    simp only [Userdata.safeStrndup_of_ne hbytes, Userdata.blockOf_of_ne hbytes, hreads,
      Option.map_some, Userdata.strdup_copyOf, LuaValue.pushstring, Option.some.injEq,
      LuaValue.string.injEq, forall_const, and_true, ne_eq, hbytes, not_false_iff, true_and]
    rw [List.takeWhile_eq_self_iff]
    simp only [bne_iff_ne, ne_eq]
    exact ⟨fun h hnul => h 0 hnul rfl, fun h byte hbyte hnul => h (hnul ▸ hbyte)⟩

/-- The getter has the bytes just when the copy, with the length that is kept, makes them. -/
theorem getterTells_iff (h : binary.Has n (binary.copied bytes) s) :
    binary.GetterTells bytes n s ↔ binary.Intact bytes := by
  obtain ⟨-, user, huser, hcopy⟩ := h
  simp only [GetterTells, huser, Option.some.injEq, exists_eq_left', getterRead]
  cases binary with
  | texture =>
      have htexture : user.texture = safeStrndup bytes := congrArg Prod.fst hcopy
      simp only [hcopy, getter, userGet, htexture, told, copied]
      rw [Intact, ← texture_told_iff]
      refine forall_congr' fun behind => and_congr_right' (forall_congr' fun limit => ?_)
      rw [blockOf]
      cases safeStrndup bytes <;> rfl
  | commentHash =>
      obtain ⟨hhash, hlen⟩ := Prod.mk.inj hcopy
      simp only [hcopy, getter, userGet, hhash, Option.some.inj hlen, told, copied]
      exact hash_told_iff
  | textureHash =>
      obtain ⟨hhash, hlen⟩ := Prod.mk.inj hcopy
      simp only [hcopy, getter, userGet, hhash, Option.some.inj hlen, told, copied]
      exact hash_told_iff

/-- One message. -/
theorem kept_iff (h : Made s) (hsession : state.session = some session)
    (hmember : binary.member state = some bytes) :
    binary.Kept s state session bytes ↔ binary.Intact bytes := by
  have hhas (behind : Behind) := has_packetUserState h behind hsession hmember
  constructor
  · intro hkept
    obtain ⟨-, hgetter⟩ := hkept ⟨fun _ => 0, fun _ => 0, fun _ => 0⟩
    exact (getterTells_iff (hhas _)).mp (hgetter [] trivial)
  · intro hintact behind
    have hcopied : 0 ∉ bytes.dropLast := by
      cases binary with
      | texture => exact fun hnul => hintact.2 (List.mem_of_mem_dropLast hnul)
      | commentHash => exact hintact
      | textureHash => exact hintact
    refine ⟨(eventTells_iff hsession hmember).mpr hcopied, ?_⟩
    intro later hlater
    have hlast := Machine.invariant_final_of_along
      (binary.Has (mumbleUserGet s session).1 (binary.copied bytes))
      (fun _ e hs he => has_step hs e he) _ later (hhas behind) hlater
    exact (getterTells_iff hlast).mpr hintact

end Getters

end BinaryField

/-- Every binary member of a `UserState` is kept. -/
def UserKept (s : State) (state : UserState) : Prop :=
  ∀ (binary : BinaryField) session bytes, state.session = some session →
    binary.member state = some bytes → binary.Kept s state session bytes

/-- `strndup` copies each of them whole. -/
def UserIntact (state : UserState) : Prop :=
  ∀ (binary : BinaryField) session bytes, state.session = some session →
    binary.member state = some bytes → binary.Intact bytes

/-- The hash of a `ChannelState` is kept. -/
def ChannelKept (contents : Userdata.Contents) (s : Userdata.State) (client : Nat)
    (state : Userdata.ChannelState) : Prop :=
  ∀ channelId bytes, state.channelId = some channelId → state.descriptionHash = some bytes →
    Userdata.HashKept contents s client state channelId bytes

/-- `strndup` copies it whole. -/
def ChannelIntact (state : Userdata.ChannelState) : Prop :=
  ∀ channelId bytes, state.channelId = some channelId → state.descriptionHash = some bytes →
    0 ∉ bytes.dropLast

theorem userKept_iff (events : List Event) (state : UserState) :
    UserKept (final step start events) state ↔ UserIntact state := by
  have hmade : BinaryField.Made (final step start events) := by
    apply Machine.invariant_final _ BinaryField.made_step
    intro session n hn
    cases hn
  refine forall_congr' fun binary => forall_congr' fun session => forall_congr' fun bytes => ?_
  refine forall_congr' fun hsession => forall_congr' fun hmember => ?_
  exact BinaryField.kept_iff hmade hsession hmember

theorem channelKept_iff (contents : Userdata.Contents) (events : List Userdata.Event)
    (client : Nat) (state : Userdata.ChannelState) :
    ChannelKept contents (final (Userdata.step contents) Userdata.start events) client state ↔
      ChannelIntact state := by
  have hkeeps := Userdata.keeps_start.run contents events
  refine forall_congr' fun channelId => forall_congr' fun bytes => ?_
  refine forall_congr' fun hid => forall_congr' fun hhash => ?_
  exact Userdata.hashKept_iff hkeeps hid hhash

/-- After every run, the binary members of a message are kept, in the events and for the getters,
if and only if there is no NUL in them where `strndup` would stop before their end. -/
theorem binary_kept_iff (contents : Userdata.Contents) (events : List Userdata.Event)
    (client : Nat) (channelState : Userdata.ChannelState) (userEvents : List Event)
    (userState : UserState) :
    (ChannelKept contents (final (Userdata.step contents) Userdata.start events) client
        channelState ↔ ChannelIntact channelState) ∧
    (UserKept (final step start userEvents) userState ↔ UserIntact userState) :=
  ⟨channelKept_iff contents events client channelState, userKept_iff userEvents userState⟩

/-- A NUL in the middle of a hash, or in a texture, is the end of what is kept. -/
theorem nul_cuts_bytes :
    ¬ ChannelKept Userdata.quiet Userdata.start 0
        { channelId := some 3, descriptionHash := some [0x61, 0, 0x62] } ∧
    ¬ UserKept start { session := some 5, texture := some [0x61, 0, 0x62] } ∧
    ¬ UserKept start { session := some 5, commentHash := some [0x61, 0, 0x62] } ∧
    ¬ UserKept start { session := some 5, textureHash := some [0x61, 0, 0x62] } := by
  refine ⟨?_, ?_, ?_, ?_⟩
  · intro h
    have hintact := (channelKept_iff Userdata.quiet [] 0 _).mp h
    exact absurd (hintact 3 _ rfl rfl) (by decide)
  · intro h
    have hintact := (userKept_iff [] _).mp h .texture 5 _ rfl rfl
    exact absurd hintact.2 (by decide)
  · intro h
    have hintact := (userKept_iff [] _).mp h .commentHash 5 _ rfl rfl
    exact hintact (by decide)
  · intro h
    have hintact := (userKept_iff [] _).mp h .textureHash 5 _ rfl rfl
    exact hintact (by decide)

end LuaMumble.User
