import LuaMumble.Client.Announced

/-!
Whether the client is shown as recording. Each user has a file while it is being recorded;
`client->recording` sums the users of `user_list` up, and is computed anew by
`mumble_update_recording_status`, which then tells the server. `startRecord` and `stopRecord`
call it. A user also leaves the list with a `UserRemove` or at the end of the connection, and is
later collected.
-/

namespace LuaMumble.Client.Recording

open Lib

/-- `recordingFile` tells of each user if the file is not NULL. `sent` are the `UserState`
messages that were sent with `recording`, and the session in them. -/
structure Recorder where
  client : MumbleClient
  recordingFile : MumbleUser → Bool
  collected : MumbleUser → Bool
  recording : Bool
  sent : List (UInt32 × Bool)

abbrev State := NodeList.Outcome Recorder

/-- A client that connects, without users. -/
def connected : State :=
  .finished
    { client := { mumbleClientNew with connecting := true }
      recordingFile := fun _ => false
      collected := fun _ => false
      recording := false
      sent := [] }

namespace Recorder

variable (s : Recorder)

/-- `mumble_update_recording_status` -/
def mumbleUpdateRecordingStatus : Recorder :=
  let isRecordingUser := s.client.users.list.nodes.any fun node => s.recordingFile node.data
  if s.recording = isRecordingUser then s
  else
    { s with
      recording := isRecordingUser
      sent := s.sent ++ [(s.client.session, isRecordingUser)] }

/-- `user_startRecord`, where the file is opened or not. -/
def userStartRecord (user : MumbleUser) (opened : Bool) : Recorder :=
  if s.recordingFile user then s
  else if opened then
    { s with
      recordingFile := Function.update s.recordingFile user true }.mumbleUpdateRecordingStatus
  else s

/-- `user_handle_stop_recording`, without the silence at the end. -/
def userHandleStopRecording (user : MumbleUser) : Recorder :=
  { s with recordingFile := Function.update s.recordingFile user false }

/-- `user_stopRecord` -/
def userStopRecord (user : MumbleUser) : Recorder :=
  if s.recordingFile user then (s.userHandleStopRecording user).mumbleUpdateRecordingStatus else s

/-- `user_gc` -/
def userGc (user : MumbleUser) : Recorder :=
  let s := if s.recordingFile user then s.userHandleStopRecording user else s
  { s with collected := Function.update s.collected user true }

/-- A user that the script can have. -/
def present (user : MumbleUser) : Bool :=
  decide (user.userdata < s.client.created) && !s.collected user

/-- A user that was removed. -/
def removed (user : MumbleUser) : Bool :=
  decide (s.client.users.table user.session ≠ some user)

end Recorder

/-- Anything that the client handles, a new connection, a call of a script, or the collection of
a user. -/
inductive Event where
  | client (e : Client.Event)
  | connect
  | startRecord (user : MumbleUser) (opened : Bool)
  | stopRecord (user : MumbleUser)
  | collect (user : MumbleUser)

def handle (s : Recorder) : Event → State
  | .client e =>
      match Client.handle s.client e with
      | .finished client => .finished { s with client := client }
      | .dangling => .dangling
      | .running => .running
  | .connect => .finished { s with client := { s.client with connecting := true } }
  | .startRecord user opened =>
      .finished (if s.present user then s.userStartRecord user opened else s)
  | .stopRecord user => .finished (if s.present user then s.userStopRecord user else s)
  | .collect user =>
      .finished (if s.present user && s.removed user then s.userGc user else s)

def step (s : State) (e : Event) : Unit × State :=
  ((), s.andThen fun s => handle s e)

/-- The user of the session is known and being recorded. -/
def RecordedAt (s : Recorder) (session : UInt32) : Prop :=
  ∃ user, s.client.users.table session = some user ∧ s.recordingFile user = true

/-- The client shows what there is, and the server was told what it shows. -/
structure Shown (s : Recorder) : Prop where
  recording : s.recording = true ↔ ∃ session, RecordedAt s session
  told : (s.sent.getLast?.map Prod.snd).getD false = s.recording

def Indicated (s : State) : Prop := ∃ r, s = .finished r ∧ Shown r

/-- The users that an event takes out, by their sessions: the one of a `UserRemove`, or all of
them where it is of the client itself or the connection ends otherwise. -/
def takesOut (client : MumbleClient) : Client.Event → UInt32 → Bool
  | .userRemove (some user), session =>
      if client.session = user.session then client.connecting
      else decide (session = user.session)
  | .disconnect, _ => client.connecting
  | _, _ => false

/-- Where a known user is being recorded, one that is stays behind. -/
def LeavesOneRecorded (s : State) : Event → Prop
  | .client e => ∀ r, s = .finished r → (∃ session, RecordedAt r session) →
      ∃ session, RecordedAt r session ∧ takesOut r.client e session = false
  | _ => True

section Users

variable {client client' client'' : MumbleClient} {gone : UInt32 → Bool}

/-- What an event does to the known users: those of some sessions go, and others are new. -/
structure Changes (client client' : MumbleClient) (gone : UInt32 → Bool) : Prop where
  created : client.created ≤ client'.created
  kept : ∀ session user, client.users.table session = some user → gone session = false →
    client'.users.table session = some user
  known : ∀ session user, client'.users.table session = some user →
    client.users.table session = some user ∧ gone session = false ∨
      client.created ≤ user.userdata

theorem Changes.of_users (husers : client'.users = client.users)
    (hcreated : client.created ≤ client'.created) : Changes client client' fun _ => false := by
  refine ⟨hcreated, ?_, ?_⟩
  · intro session user huser _
    rw [husers]
    exact huser
  · intro session user huser
    rw [husers] at huser
    exact Or.inl ⟨huser, rfl⟩

theorem Changes.refl (client : MumbleClient) : Changes client client fun _ => false :=
  Changes.of_users rfl (Nat.le_refl _)

theorem Changes.trans (h : Changes client client' fun _ => false)
    (h' : Changes client' client'' gone) : Changes client client'' gone := by
  refine ⟨Nat.le_trans h.created h'.created, ?_, ?_⟩
  · intro session user huser hstays
    exact h'.kept session user (h.kept session user huser rfl) hstays
  · intro session user huser
    rcases h'.known session user huser with ⟨hbefore, hstays⟩ | hnew
    · rcases h.known session user hbefore with ⟨hfirst, -⟩ | hnew
      · exact Or.inl ⟨hfirst, hstays⟩
      · exact Or.inr hnew
    · exact Or.inr (Nat.le_trans h.created hnew)

theorem changes_userGet (session : UInt32) :
    Changes client (mumbleUserGet client session).2 fun _ => false := by
  unfold mumbleUserGet
  split
  · exact Changes.refl client
  · rename_i hnone
    refine ⟨Nat.le_succ _, ?_, ?_⟩
    · intro other user huser _
      have hother : other ≠ session := by
        rintro rfl
        rw [hnone] at huser
        cases huser
      simpa [Objects.put, Function.update_of_ne hother] using huser
    · intro other user huser
      by_cases hother : other = session
      · subst hother
        simp only [Objects.put, Function.update_self, Option.some.injEq] at huser
        rw [← huser]
        exact Or.inr (Nat.le_refl _)
      · simp only [Objects.put, Function.update_of_ne hother] at huser
        exact Or.inl ⟨huser, rfl⟩

theorem changes_channelGet (channelId : UInt32) :
    Changes client (mumbleChannelGet client channelId).2 fun _ => false := by
  apply Changes.of_users (channelGet_users channelId)
  unfold mumbleChannelGet
  split
  · exact Nat.le_refl _
  · exact Nat.le_succ _

theorem changes_channelGets (channelIds : List UInt32) :
    Changes client
      (channelIds.foldl (fun client channelId => (mumbleChannelGet client channelId).2) client)
      fun _ => false := by
  induction channelIds generalizing client with
  | nil => exact Changes.refl client
  | cons channelId rest ih => exact (changes_channelGet channelId).trans ih

theorem changes_userRemove (session : UInt32) :
    Changes client (mumbleUserRemove client session) fun other => decide (other = session) := by
  refine ⟨Nat.le_refl _, ?_, ?_⟩
  · intro other user huser hstays
    have hother : other ≠ session := of_decide_eq_false hstays
    simpa [mumbleUserRemove, Objects.remove, Function.update_of_ne hother] using huser
  · intro other user huser
    by_cases hother : other = session
    · subst hother
      simp [mumbleUserRemove, Objects.remove] at huser
    · simp only [mumbleUserRemove, Objects.remove, Function.update_of_ne hother] at huser
      exact Or.inl ⟨huser, decide_eq_false hother⟩

/-- The cleanup creates nothing. -/
theorem cleanup_created (hcleanup : mumbleClientCleanup client = .finished client') :
    client'.created = client.created := by
  unfold mumbleClientCleanup at hcleanup
  split at hcleanup
  · rename_i middle hmiddle
    rw [cleanupUsers] at hmiddle
    rw [cleanupChannels] at hcleanup
    have hfirst : middle.created = client.created := by
      refine NodeList.walk_invariant (P := fun c => c.created = client.created) ?_ ?_ hmiddle
      · exact fun _ _ h => h
      · rfl
    refine NodeList.walk_invariant (P := fun c => c.created = client.created) ?_ ?_ hcleanup
    · exact fun _ _ h => h
    · exact hfirst
  · rename_i houtcome
    exact absurd hcleanup (houtcome client')

theorem changes_disconnect (h : client.WellKept)
    (hdisconnect : mumbleDisconnect client = .finished client') :
    Changes client client' fun _ => client.connecting := by
  unfold mumbleDisconnect at hdisconnect
  split at hdisconnect
  · rename_i hconnecting
    have hmirrored : ({ client with connecting := false } : MumbleClient).Mirrored :=
      ⟨h.users, h.channels⟩
    obtain ⟨cleaned, hcleaned, -, husers, -⟩ := hmirrored.cleanup
    have hsame : cleaned = client' := by
      rw [hcleaned] at hdisconnect
      cases hdisconnect
      rfl
    refine ⟨Nat.le_of_eq (cleanup_created hdisconnect).symm, ?_, ?_⟩
    · intro session user _ hstays
      rw [hconnecting] at hstays
      cases hstays
    · intro session user huser
      rw [← hsame, husers.1 session] at huser
      cases huser
  · rename_i hnot
    cases hdisconnect
    rw [Bool.eq_false_iff.mpr hnot]
    exact Changes.of_users rfl (Nat.le_refl _)

theorem changes_packetUserState (message : Option UserState) :
    Changes client (packetUserState client message) fun _ => false := by
  unfold packetUserState
  split
  · exact Changes.refl client
  · split
    · exact Changes.refl client
    · exact (changes_userGet _).trans (changes_channelGets _)

theorem changes_packetServerSync (message : Option ServerSync) :
    Changes client (packetServerSync client message) fun _ => false := by
  unfold packetServerSync
  split
  · exact Changes.refl client
  · rename_i sync
    have hsession : Changes client
        { client with session := sync.session.getD client.session } fun _ => false :=
      Changes.of_users rfl (Nat.le_refl _)
    dsimp only
    split
    · exact hsession.trans (changes_channelGet 0)
    · exact hsession

theorem changes_packetPermissionQuery (message : Option PermissionQuery) :
    Changes client (packetPermissionQuery client message) fun _ => false := by
  unfold packetPermissionQuery
  split
  · exact changes_channelGet _
  · exact Changes.refl client

theorem changes_mumbleHandleUdpPacket (packet : UdpPacket) :
    Changes client (mumbleHandleUdpPacket client packet) fun _ => false := by
  cases packet with
  | audio session => exact changes_userGet session
  | other => exact Changes.refl client

/-- A `UserRemove` of the client itself ends the connection. -/
theorem changes_packetUserRemove (h : client.WellKept) (user : UserRemove)
    (hhandle : packetUserRemove client (some user) = .finished client') :
    Changes client client' (takesOut client (.userRemove (some user))) := by
  simp only [packetUserRemove] at hhandle
  split at hhandle
  · rename_i hown
    have hgone : takesOut client (.userRemove (some user)) = fun _ => client.connecting := by
      funext session
      simp only [takesOut, hown, if_true]
    rw [hgone]
    split at hhandle
    · rename_i actor ban _ _
      have hdisconnect := changes_disconnect (h.userGet actor) hhandle
      rw [userGet_connecting] at hdisconnect
      exact (changes_userGet actor).trans hdisconnect
    · exact changes_disconnect h hhandle
  · rename_i hother
    have hgone : takesOut client (.userRemove (some user)) =
        fun session => decide (session = user.session) := by
      funext session
      simp only [takesOut, hother, if_false]
    rw [hgone]
    cases hhandle
    exact changes_userRemove user.session

/-- What a handler does to the known users. -/
theorem changes_handle (h : client.WellKept) (e : Client.Event)
    (hhandle : Client.handle client e = .finished client') :
    Changes client client' (takesOut client e) := by
  cases e with
  | userState message =>
      cases hhandle
      exact changes_packetUserState message
  | userRemove message =>
      cases message with
      | none =>
          cases hhandle
          exact Changes.refl client
      | some user => exact changes_packetUserRemove h user hhandle
  | serverSync message =>
      cases hhandle
      exact changes_packetServerSync message
  | channelState channelId =>
      cases channelId with
      | none =>
          cases hhandle
          exact Changes.refl client
      | some channelId =>
          cases hhandle
          exact changes_channelGet channelId
  | channelRemove channelId =>
      cases hhandle
      exact Changes.of_users rfl (Nat.le_refl _)
  | permissionQuery message =>
      cases hhandle
      exact changes_packetPermissionQuery message
  | lookup =>
      cases hhandle
      exact Changes.refl client
  | udp packet =>
      cases hhandle
      exact changes_mumbleHandleUdpPacket packet
  | tunnel packet =>
      cases hhandle
      exact changes_mumbleHandleUdpPacket packet
  | sendAudio =>
      cases hhandle
      exact changes_userGet client.session
  | disconnect => exact changes_disconnect h hhandle

end Users

section Shown

variable {s : Recorder}

/-- The users are well kept, only users that were created have files, and the last message
says what the client shows. -/
structure Recorder.Kept (s : Recorder) : Prop where
  wellKept : s.client.WellKept
  files : ∀ user, s.recordingFile user = true → user.userdata < s.client.created
  told : (s.sent.getLast?.map Prod.snd).getD false = s.recording

/-- The loop of `mumble_update_recording_status` finds a known user that is being recorded. -/
theorem Recorder.Kept.any_iff (h : s.Kept) :
    (s.client.users.list.nodes.any fun node => s.recordingFile node.data) = true ↔
      ∃ session, RecordedAt s session := by
  rw [List.any_eq_true]
  constructor
  · rintro ⟨node, hnode, hfile⟩
    exact ⟨node.index, node.data,
      (h.wellKept.users.same _ _).mpr ⟨node, hnode, rfl, rfl⟩, hfile⟩
  · rintro ⟨session, user, huser, hfile⟩
    obtain ⟨node, hnode, -, hdata⟩ := (h.wellKept.users.same _ _).mp huser
    rw [← hdata] at hfile
    exact ⟨node, hnode, hfile⟩

/-- `mumble_update_recording_status` brings the member up to date and tells the server. -/
theorem Recorder.Kept.update (h : s.Kept) :
    s.mumbleUpdateRecordingStatus.Kept ∧ Shown s.mumbleUpdateRecordingStatus := by
  unfold Recorder.mumbleUpdateRecordingStatus
  dsimp only
  split
  · rename_i hsame
    exact ⟨h, ⟨by rw [hsame]; exact h.any_iff, h.told⟩⟩
  · have hkept : Recorder.Kept
        { s with
          recording := s.client.users.list.nodes.any fun node => s.recordingFile node.data
          sent := s.sent ++ [(s.client.session,
            s.client.users.list.nodes.any fun node => s.recordingFile node.data)] } :=
      ⟨h.wellKept, h.files, by simp⟩
    exact ⟨hkept, ⟨h.any_iff, hkept.told⟩⟩

/-- A file of a user that was created may be opened or closed. -/
theorem Recorder.Kept.setFile (h : s.Kept) {user : MumbleUser} {file : Bool}
    (hcreated : file = true → user.userdata < s.client.created) :
    Recorder.Kept { s with recordingFile := Function.update s.recordingFile user file } := by
  refine ⟨h.wellKept, ?_, h.told⟩
  intro other hother
  by_cases hsame : other = user
  · subst hsame
    simp only [Function.update_self] at hother
    exact hcreated hother
  · simp only [Function.update_of_ne hsame] at hother
    exact h.files other hother

theorem Recorder.Kept.start (h : s.Kept) (hshown : Shown s) {user : MumbleUser}
    (hpresent : s.present user = true) (opened : Bool) :
    (s.userStartRecord user opened).Kept ∧ Shown (s.userStartRecord user opened) := by
  unfold Recorder.userStartRecord
  split
  · exact ⟨h, hshown⟩
  · split
    · rw [Recorder.present, Bool.and_eq_true] at hpresent
      exact (h.setFile fun _ => of_decide_eq_true hpresent.1).update
    · exact ⟨h, hshown⟩

theorem Recorder.Kept.stop (h : s.Kept) (hshown : Shown s) (user : MumbleUser) :
    (s.userStopRecord user).Kept ∧ Shown (s.userStopRecord user) := by
  unfold Recorder.userStopRecord
  split
  · have hclosed : (s.userHandleStopRecording user).Kept := h.setFile nofun
    exact hclosed.update
  · exact ⟨h, hshown⟩

/-- The file of a user that is not known may be closed without an update. -/
theorem Shown.close_removed (h : Shown s) {user : MumbleUser} (hkept : s.Kept)
    (hremoved : s.removed user = true) : Shown (s.userHandleStopRecording user) := by
  have hknown : ∀ session known, s.client.users.table session = some known → known ≠ user := by
    rintro session known hsession rfl
    have hown := hkept.wellKept.own_session session known hsession
    apply of_decide_eq_true hremoved
    rw [hown]
    exact hsession
  refine ⟨?_, h.told⟩
  have hiff : (∃ session, RecordedAt (s.userHandleStopRecording user) session) ↔
      ∃ session, RecordedAt s session := by
    apply exists_congr
    intro session
    apply exists_congr
    intro known
    apply and_congr_right
    intro hsession
    simp only [Recorder.userHandleStopRecording, Function.update_of_ne (hknown _ _ hsession)]
  rw [hiff]
  exact h.recording

theorem Recorder.Kept.gc (h : s.Kept) (hshown : Shown s) {user : MumbleUser}
    (hremoved : s.removed user = true) : (s.userGc user).Kept ∧ Shown (s.userGc user) := by
  unfold Recorder.userGc
  dsimp only
  split
  · have hclosed : (s.userHandleStopRecording user).Kept := h.setFile nofun
    have hstill := hshown.close_removed h hremoved
    exact ⟨⟨hclosed.wellKept, hclosed.files, hclosed.told⟩, ⟨hstill.recording, hstill.told⟩⟩
  · exact ⟨⟨h.wellKept, h.files, h.told⟩, ⟨hshown.recording, hshown.told⟩⟩

/-- Behind an event that the client handles, those are known and recorded that were before and
that the event does not take out: a new user has no file. -/
theorem Recorder.Kept.recorded_iff (h : s.Kept) {client' : MumbleClient} {gone : UInt32 → Bool}
    (hchanges : Changes s.client client' gone) :
    (∃ session, RecordedAt { s with client := client' } session) ↔
      ∃ session, RecordedAt s session ∧ gone session = false := by
  apply exists_congr
  intro session
  constructor
  · rintro ⟨user, huser, hfile⟩
    rcases hchanges.known session user huser with ⟨hbefore, hstays⟩ | hnew
    · exact ⟨⟨user, hbefore, hfile⟩, hstays⟩
    · exact absurd (h.files user hfile) (Nat.not_lt.mpr hnew)
  · rintro ⟨⟨user, huser, hfile⟩, hstays⟩
    exact ⟨user, hchanges.kept session user huser hstays, hfile⟩

theorem Recorder.Kept.shown_iff (h : s.Kept) (hshown : Shown s) {client' : MumbleClient}
    {gone : UInt32 → Bool} (hchanges : Changes s.client client' gone) :
    Shown { s with client := client' } ↔
      ((∃ session, RecordedAt s session) →
        ∃ session, RecordedAt s session ∧ gone session = false) := by
  constructor
  · intro hafter hrecorded
    apply (h.recorded_iff hchanges).mp
    exact hafter.recording.mp (hshown.recording.mpr hrecorded)
  · intro hleaves
    refine ⟨?_, h.told⟩
    rw [h.recorded_iff hchanges, hshown.recording]
    constructor
    · exact hleaves
    · rintro ⟨session, hrecorded, -⟩
      exact ⟨session, hrecorded⟩

/-- One event: the client shows what there is just when the event leaves one of those that are
recorded. -/
theorem Recorder.Kept.handle (h : s.Kept) (hshown : Shown s) (e : Event) :
    ∃ s', handle s e = .finished s' ∧ s'.Kept ∧
      (Shown s' ↔ LeavesOneRecorded (.finished s) e) := by
  cases e with
  | client e =>
      obtain ⟨client', hclient', hhandles⟩ :
          ∃ client', Client.handle s.client e = .finished client' ∧
            Handles s.client (fun _ => false) e client' := h.wellKept.handle e
      have hchanges := changes_handle h.wellKept e hclient'
      refine ⟨{ s with client := client' }, by simp only [Recording.handle, hclient'], ?_, ?_⟩
      · refine ⟨hhandles.wellKept, ?_, h.told⟩
        intro user hfile
        exact Nat.lt_of_lt_of_le (h.files user hfile) hchanges.created
      · rw [h.shown_iff hshown hchanges]
        simp only [LeavesOneRecorded, NodeList.Outcome.finished.injEq, forall_eq']
  | connect =>
      refine ⟨_, rfl, ⟨h.wellKept.of_users rfl h.wellKept.channels, h.files, h.told⟩, ?_⟩
      exact iff_of_true ⟨hshown.recording, hshown.told⟩ trivial
  | startRecord user opened =>
      refine ⟨_, rfl, ?_⟩
      split
      · rename_i hpresent
        obtain ⟨hkept, hafter⟩ := h.start hshown hpresent opened
        exact ⟨hkept, iff_of_true hafter trivial⟩
      · exact ⟨h, iff_of_true hshown trivial⟩
  | stopRecord user =>
      refine ⟨_, rfl, ?_⟩
      split
      · obtain ⟨hkept, hafter⟩ := h.stop hshown user
        exact ⟨hkept, iff_of_true hafter trivial⟩
      · exact ⟨h, iff_of_true hshown trivial⟩
  | collect user =>
      refine ⟨_, rfl, ?_⟩
      split
      · rename_i hboth
        rw [Bool.and_eq_true] at hboth
        obtain ⟨hkept, hafter⟩ := h.gc hshown hboth.2
        exact ⟨hkept, iff_of_true hafter trivial⟩
      · exact ⟨h, iff_of_true hshown trivial⟩

end Shown

/-- For every run of calls, messages and collections: after every event the client is shown as
recording just when a known user is being recorded, and the server was told, just when no event
takes out the last known user that is being recorded. -/
theorem recording_shown_iff (events : List Event) :
    (∀ n ≤ events.length, Indicated (Machine.final step connected (events.take n))) ↔
      Machine.Along step LeavesOneRecorded connected events := by
  refine Machine.holds_along_iff_of_invariant step
    (fun s => ∃ r, s = .finished r ∧ r.Kept) Indicated ?_ ?_ connected events ⟨_, rfl, ?_⟩
    ⟨_, rfl, ?_⟩
  · rintro s e ⟨r, rfl, hkept⟩ ⟨r', hr', hshown⟩
    cases hr'
    obtain ⟨next, hnext, hkept', -⟩ := hkept.handle hshown e
    exact ⟨next, hnext, hkept'⟩
  · rintro s e ⟨r, rfl, hkept⟩ ⟨r', hr', hshown⟩
    cases hr'
    obtain ⟨next, hnext, -, hiff⟩ := hkept.handle hshown e
    rw [← hiff]
    have hstep : (step (.finished r) e).2 = .finished next := hnext
    rw [hstep, Indicated]
    simp only [NodeList.Outcome.finished.injEq, exists_eq_left']
  · exact ⟨wellKept_connected, nofun, rfl⟩
  · refine ⟨?_, rfl⟩
    constructor
    · intro hrecording
      cases hrecording
    · rintro ⟨session, user, huser, hfile⟩
      cases hfile

/-- The server removes the one user that is being recorded: the client stays shown as
recording. -/
theorem removed_still_shown :
    ¬ ∀ events : List Event, Indicated (Machine.final step connected events) := by
  intro h
  obtain ⟨r, hr, hshown⟩ := h
    [.client (.userState (some ⟨some 5, []⟩)), .startRecord ⟨0, 5⟩ true,
      .client (.userRemove (some ⟨5, none, none⟩))]
  cases hr
  obtain ⟨session, user, huser, -⟩ := hshown.recording.mp rfl
  change Function.update (Function.update (fun _ => none) 5 (some ⟨0, 5⟩)) 5 none session =
    some user at huser
  rw [Function.update_idem, Function.update_apply, ite_self] at huser
  cases huser

end LuaMumble.Client.Recording
