import LuaMumble.Voice.Nesting
import Mathlib.Computability.DFA

/-!
The hooks of one user over a run of voice packets, legacy and protobuf mixed. The hooks spell
utterances: a start, one event for each packet, and a stop before the next start. Whatever
terminators are lost or repeated, this holds of packets that are handled one after another. It
does not hold where a packet is handled inside the hooks of another that find the user in a
state not yet reported.
-/

namespace LuaMumble.Voice

open Lib Lib.TracedRead
open scoped Computability

/-- `V+` -/
def voiced : Language SpeakingEvent :=
  {[.speak]}∗ * {[.speak]}

/-- `S V+` -/
def begun : Language SpeakingEvent :=
  {[.start]} * voiced

/-- `(S V+ E)*` -/
def utterances : Language SpeakingEvent :=
  (begun * {[.stop]})∗

/-- The last start has not been followed by a stop. -/
def Unfinished (events : List SpeakingEvent) : Prop :=
  ∃ past since, events = past ++ .start :: since ∧ .start ∉ since ∧ .stop ∉ since

/-- The hooks of a run alternate, with one `OnUserSpeak` for each packet handed in, and leave the
user speaking just when the last utterance is unfinished. -/
structure Alternates (session : UInt32) (called : Called) (last : Nesting) : Prop where
  spells : called.map Prod.snd ∈ utterances * (1 + begun)
  onePerPacket : ∀ n < last.packets, called.count (n, .speak) = 1
  speaking : isSpeaking last.client session = true ↔ Unfinished (called.map Prod.snd)

/-- Inside `OnUserStartSpeaking` and `OnUserSpeak` of the last packet of an utterance the user is
no longer speaking, but `OnUserStopSpeaking` is still to come. -/
def Handler.AllowsPacket (handler : Handler) : Prop :=
  handler.stage = .stopping ∨ handler.packet.speaking = true

/-- What a run has to meet: a packet that was received has a payload, none is handed in inside
`OnUserStartSpeaking` or `OnUserSpeak` of the last packet of an utterance, and the user is
speaking when `OnUserStartSpeaking` of any other packet returns. -/
def InTurn (session : UInt32) (s : Nesting) : VoiceEvent session → Prop
  | .packet packet =>
      packet.dataNull = false ∧ ∀ handler ∈ s.handlers.head?, handler.AllowsPacket
  | .hookReturned =>
      ∀ handler ∈ s.handlers.head?, handler.stage = .starting → handler.packet.speaking = true →
        isSpeaking s.client session = true
  | .elsewhere .. => True

instance (handler : Handler) : Decidable handler.AllowsPacket :=
  inferInstanceAs (Decidable (_ ∨ _))

instance (session : UInt32) (s : Nesting) :
    ∀ e : VoiceEvent session, Decidable (InTurn session s e)
  | .packet _ => inferInstanceAs (Decidable (_ ∧ _))
  | .hookReturned => inferInstanceAs (Decidable (∀ handler ∈ s.handlers.head?, _))
  | .elsewhere .. => .isTrue trivial

section Language

variable {events : List SpeakingEvent}

theorem kstar_append {l : Language SpeakingEvent} {last : List SpeakingEvent}
    (h : events ∈ l∗) (hlast : last ∈ l) : events ++ last ∈ l∗ := by
  have hle : l∗ * l ≤ l∗ := kstar_mul_le_kstar
  exact hle (Language.append_mem_mul h hlast)

theorem begun_of_utterances (h : events ∈ utterances) :
    events ++ [.start, .speak] ∈ utterances * begun := by
  apply Language.append_mem_mul h
  have hvoiced : [.speak] ∈ voiced := Language.append_mem_mul (Language.nil_mem_kstar _) rfl
  have hstart : [.start] ∈ ({[.start]} : Language SpeakingEvent) := rfl
  exact Language.append_mem_mul hstart hvoiced

theorem begun_append_speak (h : events ∈ utterances * begun) :
    events ++ [.speak] ∈ utterances * begun := by
  obtain ⟨past, hpast, _, ⟨start, hstart, _, ⟨since, hsince, last, hlast, rfl⟩, rfl⟩, rfl⟩ := h
  simp only [List.append_assoc]
  apply Language.append_mem_mul hpast
  apply Language.append_mem_mul hstart
  rw [← List.append_assoc]
  exact Language.append_mem_mul (kstar_append hsince hlast) rfl

theorem utterances_append_stop (h : events ∈ utterances * begun) :
    events ++ [.stop] ∈ utterances := by
  obtain ⟨past, hpast, last, hlast, rfl⟩ := h
  rw [List.append_assoc]
  exact kstar_append hpast (Language.append_mem_mul hlast rfl)

theorem eq_speak_of_voiced {last : List SpeakingEvent} (h : last ∈ voiced) :
    ∀ event ∈ last, event = .speak := by
  obtain ⟨past, hpast, _, rfl, rfl⟩ := h
  obtain ⟨parts, rfl, hparts⟩ := Language.mem_kstar.mp hpast
  intro event hevent
  rcases List.mem_append.mp hevent with hin | hin
  · obtain ⟨part, hpart, hmem⟩ := List.mem_flatten.mp hin
    rw [hparts part hpart] at hmem
    exact List.mem_singleton.mp hmem
  · exact List.mem_singleton.mp hin

theorem unfinished_of_begun (h : events ∈ utterances * begun) : Unfinished events := by
  obtain ⟨past, _, _, ⟨_, rfl, since, hsince, rfl⟩, rfl⟩ := h
  have hspeak := eq_speak_of_voiced hsince
  refine ⟨past, since, rfl, ?_, ?_⟩
  · intro hmem
    cases hspeak _ hmem
  · intro hmem
    cases hspeak _ hmem

/-- Whole utterances end in a stop. -/
theorem getLast_of_utterances (h : events ∈ utterances) :
    events = [] ∨ events.getLast? = some .stop := by
  obtain ⟨parts, rfl, hparts⟩ := Language.mem_kstar.mp h
  rcases List.eq_nil_or_concat parts with rfl | ⟨before, last, rfl⟩
  · exact Or.inl rfl
  · obtain ⟨start, _, _, rfl, rfl⟩ := hparts last (by simp)
    refine Or.inr ?_
    simp

theorem not_unfinished_of_utterances (h : events ∈ utterances) : ¬ Unfinished events := by
  rintro ⟨past, since, rfl, _, hstop⟩
  rcases getLast_of_utterances h with hnil | hlast
  · simp at hnil
  · rw [List.getLast?_append_of_ne_nil _ (List.cons_ne_nil _ _)] at hlast
    rcases List.mem_cons.mp (List.mem_of_getLast? hlast) with heq | hmem
    · cases heq
    · exact hstop hmem

/-- How far the events have come: `utterance` behind whole utterances, `opened` behind a start,
`unfinished` behind the events of packets after it. -/
inductive Phase where
  | utterance
  | opened
  | unfinished
  | broken
  deriving DecidableEq

/-- The automaton of the utterances. -/
def spelling : DFA SpeakingEvent Phase where
  step
    | .utterance, .start => .opened
    | .opened, .speak => .unfinished
    | .unfinished, .speak => .unfinished
    | .unfinished, .stop => .utterance
    | _, _ => .broken
  start := .utterance
  accept := {.utterance, .unfinished}

/-- What has gone wrong stays so. -/
theorem evalFrom_broken (events : List SpeakingEvent) :
    spelling.evalFrom .broken events = .broken := by
  induction events with
  | nil => rfl
  | cons event rest ih => exact ih

/-- What the events have spelled where the automaton stands. -/
def Phase.Spelled (events : List SpeakingEvent) : Phase → Prop
  | .utterance => events ∈ utterances
  | .opened => ∃ past ∈ utterances, events = past ++ [.start]
  | .unfinished => events ∈ utterances * begun
  | .broken => True

theorem spelled_eval (events : List SpeakingEvent) :
    (spelling.eval events).Spelled events := by
  induction events using List.reverseRecOn with
  | nil => exact Language.nil_mem_kstar _
  | append_singleton past event ih =>
      rw [DFA.eval_append_singleton]
      cases hphase : spelling.eval past with
      | utterance =>
          rw [hphase] at ih
          cases event with
          | start => exact ⟨past, ih, rfl⟩
          | speak => trivial
          | stop => trivial
      | opened =>
          rw [hphase] at ih
          cases event with
          | start => trivial
          | speak =>
              obtain ⟨before, hbefore, rfl⟩ := ih
              rw [List.append_assoc]
              exact begun_of_utterances hbefore
          | stop => trivial
      | unfinished =>
          rw [hphase] at ih
          cases event with
          | start => trivial
          | speak => exact begun_append_speak ih
          | stop => exact utterances_append_stop ih
      | broken =>
          cases event <;> trivial

theorem evalFrom_speak {last : List SpeakingEvent} (h : ∀ event ∈ last, event = .speak) :
    spelling.evalFrom .unfinished last = .unfinished := by
  induction last with
  | nil => rfl
  | cons event rest ih =>
      rw [h event List.mem_cons_self]
      exact ih fun other hother => h other (List.mem_cons_of_mem _ hother)

theorem evalFrom_begun (h : events ∈ begun) :
    spelling.evalFrom .utterance events = .unfinished := by
  obtain ⟨_, rfl, since, hsince, rfl⟩ := h
  obtain ⟨past, hpast, last, rfl, rfl⟩ := hsince
  have hspeak := eq_speak_of_voiced (Language.append_mem_mul hpast rfl)
  cases past with
  | nil => rfl
  | cons event rest =>
      rw [hspeak event (by simp)]
      apply evalFrom_speak
      intro other hother
      exact hspeak other (by simpa using Or.inr (List.mem_append.mp hother))

theorem eval_of_utterances (h : events ∈ utterances) : spelling.eval events = .utterance := by
  obtain ⟨parts, rfl, hparts⟩ := Language.mem_kstar.mp h
  have hfrom : spelling.evalFrom .utterance parts.flatten = .utterance := by
    clear h
    induction parts with
    | nil => rfl
    | cons part rest ih =>
        obtain ⟨start, hstart, last, rfl, rfl⟩ := hparts part List.mem_cons_self
        have hpart : spelling.evalFrom .utterance (start ++ [.stop]) = .utterance := by
          rw [DFA.evalFrom_of_append, evalFrom_begun hstart]
          rfl
        rw [List.flatten_cons, DFA.evalFrom_of_append, hpart]
        exact ih fun other hother => hparts other (List.mem_cons_of_mem _ hother)
  exact hfrom

/-- Whole utterances are where the automaton is back at its start. -/
theorem eval_eq_utterance_iff : spelling.eval events = .utterance ↔ events ∈ utterances := by
  refine ⟨?_, eval_of_utterances⟩
  intro h
  have hspelled := spelled_eval events
  rwa [h] at hspelled

theorem eval_eq_unfinished_iff :
    spelling.eval events = .unfinished ↔ events ∈ utterances * begun := by
  constructor
  · intro h
    have hspelled := spelled_eval events
    rwa [h] at hspelled
  · rintro ⟨past, hpast, last, hlast, rfl⟩
    have hback : spelling.evalFrom .utterance past = .utterance := eval_of_utterances hpast
    change spelling.evalFrom .utterance (past ++ last) = .unfinished
    rw [DFA.evalFrom_of_append, hback, evalFrom_begun hlast]

/-- The automaton accepts utterances of which the last may be unfinished. -/
theorem mem_accepts_spelling_iff :
    events ∈ spelling.accepts ↔ events ∈ utterances * (1 + begun) := by
  rw [mul_add, mul_one, DFA.mem_accepts]
  exact or_congr eval_eq_utterance_iff eval_eq_unfinished_iff

end Language

section Runs

variable {session : UInt32} {s : Nesting} {called : Called}

/-- The phase behind the hooks called so far. -/
def phase (called : Called) : Phase :=
  spelling.eval (called.map Prod.snd)

@[simp] theorem phase_append_single (called : Called) (n : Nat) (event : SpeakingEvent) :
    phase (called ++ [(n, event)]) = spelling.step (phase called) event := by
  rw [phase, List.map_append, List.map_singleton, DFA.eval_append_singleton]
  rfl

theorem phase_append_of_broken (h : phase called = .broken) (later : Called) :
    phase (called ++ later) = .broken := by
  rw [phase, List.map_append]
  change spelling.evalFrom .utterance _ = .broken
  rw [DFA.evalFrom_of_append]
  have hbroken : spelling.evalFrom .utterance (called.map Prod.snd) = .broken := h
  rw [hbroken, evalFrom_broken]

/-- An utterance is unfinished just when the user is speaking. -/
def Settled (phase : Phase) (speaking : Bool) : Prop :=
  phase = if speaking then .unfinished else .utterance

/-- What holds inside the hook of a handler: the last packet of an utterance finds its own start
or event at the end of the log, and any other packet may have had others handled in between. -/
def Handler.Stands (handler : Handler) (phase : Phase) (speaking : Bool) : Prop :=
  match handler.stage, handler.packet.speaking with
  | .starting, false => phase = .opened ∧ speaking = false
  | .starting, true => (phase = .opened ∧ speaking = true) ∨ Settled phase speaking
  | .speaking, false => phase = .unfinished ∧ speaking = false
  | .speaking, true => Settled phase speaking
  | .stopping, _ => Settled phase speaking

/-- `OnUserStopSpeaking` is called for the last packet of an utterance and for no other. -/
structure Handler.Intact (handler : Handler) : Prop where
  received : handler.packet.dataNull = false
  stops : (handler.oneFrame || (handler.stateChange && !handler.packet.speaking)) =
    !handler.packet.speaking

theorem Handler.Intact.onUserStopSpeaking_eq {handler : Handler} (h : handler.Intact)
    (s : Nesting) : s.onUserStopSpeaking handler =
      if handler.packet.speaking then ([], s)
      else ([(handler.number, .stop)],
        { s with handlers := { handler with stage := .stopping } :: s.handlers }) := by
  rw [Nesting.onUserStopSpeaking, h.stops]
  cases handler.packet.speaking with
  | false => rfl
  | true => rfl

/-- What holds in the innermost hook, or outside. -/
def Nesting.Stands (session : UInt32) (s : Nesting) (called : Called) : Prop :=
  match s.handlers with
  | [] => Settled (phase called) (isSpeaking s.client session)
  | handler :: _ => handler.Stands (phase called) (isSpeaking s.client session)

/-- The invariant of a run in turn. -/
structure Kept (session : UInt32) (s : Nesting) (called : Called) : Prop where
  running : s.crashed = false
  intact : ∀ handler ∈ s.handlers, handler.Intact
  waiting : ∀ handler ∈ s.handlers.tail, handler.AllowsPacket
  stands : s.Stands session called

/-- The program is gone, or will be when a packet without a payload gets to its event. -/
def Nesting.Doomed (s : Nesting) : Prop :=
  s.crashed = true ∨
    ∃ handler ∈ s.handlers, handler.stage = .starting ∧ handler.packet.dataNull = true

/-- What holds of a run from the step on that was out of turn. -/
def Lost (s : Nesting) (called : Called) : Prop :=
  phase called = .broken ∨ s.Doomed

/-- A handler that let a packet in goes on where the packet has left the user. -/
theorem Handler.AllowsPacket.stands {handler : Handler} (h : handler.AllowsPacket) {phase : Phase}
    {speaking : Bool} (hsettled : Settled phase speaking) : handler.Stands phase speaking := by
  unfold Handler.Stands
  rcases h with hstage | hspeaking
  · rw [hstage]
    exact hsettled
  · rw [hspeaking]
    cases handler.stage with
    | starting => exact Or.inr hsettled
    | speaking => exact hsettled
    | stopping => exact hsettled

/-- The handlers left when the innermost returns. -/
theorem stands_of_settled (hwaiting : ∀ handler ∈ s.handlers, handler.AllowsPacket)
    (hsettled : Settled (phase called) (isSpeaking s.client session)) :
    s.Stands session called := by
  unfold Nesting.Stands
  cases hhandlers : s.handlers with
  | nil => exact hsettled
  | cons handler rest =>
      apply Handler.AllowsPacket.stands
      · apply hwaiting
        rw [hhandlers]
        exact List.mem_cons_self
      · exact hsettled

/-- The two functions up to their first hook: they leave the user speaking or not as the packet
says, and call `OnUserStartSpeaking` just when the user was not. -/
theorem mumbleHandleSpeakingHooks_spec (session : UInt32) (s : Nesting) (packet : VoicePacket) :
    ∃ client handler, isSpeaking client session = packet.speaking ∧
      handler.number = s.packets ∧ handler.packet = packet ∧ handler.stage = .starting ∧
      (handler.oneFrame || (handler.stateChange && !packet.speaking)) = !packet.speaking ∧
      s.mumbleHandleSpeakingHooks session packet =
        let next : Nesting := ⟨client, s.handlers, s.packets + 1, s.crashed⟩
        if isSpeaking s.client session then next.onUserSpeak handler
        else ([(handler.number, .start)], { next with handlers := handler :: next.handlers }) := by
  obtain ⟨hfound, hwas⟩ := userGet_spec s.client session
  unfold Nesting.mumbleHandleSpeakingHooks
  rw [← hwas]
  generalize mumbleUserGet s.client session = got at *
  obtain ⟨⟨id, was⟩, client⟩ := got
  refine ⟨if was != packet.speaking then client.setUser session ⟨id, packet.speaking⟩ else client,
    ⟨s.packets, packet, !was && !packet.speaking, was != packet.speaking, .starting⟩,
    ?_, rfl, rfl, rfl, ?_, ?_⟩
  · dsimp only at hfound
    cases was <;> cases packet.speaking <;> simp [isSpeaking, MumbleClient.setUser, hfound]
  · cases was <;> cases packet.speaking <;> rfl
  · cases was <;> cases packet.speaking <;> rfl

theorem Handler.Stands.of_speaking {handler : Handler} {phase : Phase}
    (h : handler.Stands phase true) : phase = .opened ∨ phase = .unfinished := by
  unfold Handler.Stands at h
  split at h
  · exact Or.inl h.1
  · exact h.imp And.left id
  · exact Or.inr h.1
  · exact Or.inr h
  · exact Or.inr h

theorem Nesting.Stands.of_cons (h : s.Stands session called) {handler : Handler}
    {rest : List Handler} (hhandlers : s.handlers = handler :: rest) :
    handler.Stands (phase called) (isSpeaking s.client session) := by
  rw [Nesting.Stands, hhandlers] at h
  exact h

/-- A packet that finds the user speaking comes behind a start. -/
theorem Nesting.Stands.of_speaking (h : s.Stands session called)
    (hspeaking : isSpeaking s.client session = true) :
    phase called = .opened ∨ phase called = .unfinished := by
  unfold Nesting.Stands at h
  rw [hspeaking] at h
  split at h
  · exact Or.inr h
  · exact h.of_speaking

/-- A packet that is let in and finds the user not speaking comes behind whole utterances. -/
theorem Handler.Stands.of_allowsPacket {handler : Handler} {phase : Phase}
    (h : handler.Stands phase false) (hallows : handler.AllowsPacket) : phase = .utterance := by
  unfold Handler.Stands at h
  rcases hallows with hstage | hspeaking
  · rw [hstage] at h
    exact h
  · rw [hspeaking] at h
    cases hstage : handler.stage with
    | starting =>
        rw [hstage] at h
        rcases h with ⟨-, hfalse⟩ | hsettled
        · cases hfalse
        · exact hsettled
    | speaking =>
        rw [hstage] at h
        exact h
    | stopping =>
        rw [hstage] at h
        exact h

/-- Inside the hooks of the last packet of an utterance the user is not speaking, and the start
is not forgotten. -/
theorem Handler.Stands.of_not_allowsPacket {handler : Handler} {phase : Phase} {speaking : Bool}
    (h : handler.Stands phase speaking) (hallows : ¬ handler.AllowsPacket) :
    speaking = false ∧ (phase = .opened ∨ phase = .unfinished) := by
  unfold Handler.AllowsPacket at hallows
  rw [not_or, Bool.not_eq_true] at hallows
  unfold Handler.Stands at h
  rw [hallows.2] at h
  cases hstage : handler.stage with
  | starting =>
      rw [hstage] at h
      exact ⟨h.2, Or.inl h.1⟩
  | speaking =>
      rw [hstage] at h
      exact ⟨h.2, Or.inr h.1⟩
  | stopping => exact (hallows.1 hstage).elim

section Kept

/-- The event of a packet, which comes behind a start. -/
theorem kept_onUserSpeak {handler : Handler} (hrunning : s.crashed = false)
    (hintact : ∀ handler ∈ s.handlers, handler.Intact)
    (hwaiting : ∀ handler ∈ s.handlers, handler.AllowsPacket) (hhandler : handler.Intact)
    (hphase : phase called = .opened ∨ phase called = .unfinished)
    (hspeaking : isSpeaking s.client session = handler.packet.speaking) :
    Kept session (s.onUserSpeak handler).2 (called ++ (s.onUserSpeak handler).1) := by
  have hnext : phase (called ++ [(handler.number, .speak)]) = .unfinished := by
    rw [phase_append_single]
    rcases hphase with hopened | hunfinished
    · rw [hopened]
      rfl
    · rw [hunfinished]
      rfl
  simp only [Nesting.onUserSpeak, hhandler.received, Bool.false_eq_true, if_false]
  refine ⟨hrunning, ?_, hwaiting, ?_⟩
  · intro other hother
    rcases List.mem_cons.mp hother with rfl | hrest
    · exact ⟨hhandler.received, hhandler.stops⟩
    · exact hintact other hrest
  · simp only [Nesting.Stands, hnext, hspeaking, Handler.Stands, Settled]
    cases handler.packet.speaking with
    | false => exact ⟨trivial, rfl⟩
    | true => rfl

/-- A packet that is let in leaves only handlers waiting that let packets in. -/
theorem Kept.allow (h : Kept session s called)
    (hallows : ∀ handler ∈ s.handlers.head?, handler.AllowsPacket) :
    ∀ handler ∈ s.handlers, handler.AllowsPacket := by
  intro other hother
  have hwaiting := h.waiting
  cases hhandlers : s.handlers with
  | nil =>
      rw [hhandlers] at hother
      cases hother
  | cons top rest =>
      rw [hhandlers] at hother hallows hwaiting
      rcases List.mem_cons.mp hother with rfl | hrest
      · exact hallows other rfl
      · exact hwaiting other hrest

theorem Kept.packet (h : Kept session s called) {packet : VoicePacket}
    (hturn : InTurn session s (.packet packet)) :
    let next := s.mumbleHandleSpeakingHooks session packet
    Kept session next.2 (called ++ next.1) := by
  intro next
  obtain ⟨hnull, hallows⟩ := hturn
  obtain ⟨client, handler, hclient, -, rfl, hstage, hstops, hspec⟩ :=
    mumbleHandleSpeakingHooks_spec session s packet
  have hhandler : handler.Intact := ⟨hnull, hstops⟩
  have hwaiting := h.allow hallows
  have hnext : next = _ := hspec
  rw [hnext]
  cases hwas : isSpeaking s.client session with
  | true =>
      rw [if_pos rfl]
      exact kept_onUserSpeak h.running h.intact hwaiting hhandler (h.stands.of_speaking hwas)
        hclient
  | false =>
      rw [if_neg Bool.false_ne_true]
      have hphase : phase called = .utterance := by
        have hstands := h.stands
        unfold Nesting.Stands at hstands
        rw [hwas] at hstands
        split at hstands
        · exact hstands
        · rename_i top rest hhandlers
          apply hstands.of_allowsPacket
          apply hallows
          rw [hhandlers]
          rfl
      have hopened : phase (called ++ [(handler.number, .start)]) = .opened := by
        rw [phase_append_single, hphase]
        rfl
      refine ⟨h.running, ?_, hwaiting, ?_⟩
      · intro other hother
        rcases List.mem_cons.mp hother with rfl | hrest
        · exact hhandler
        · exact h.intact other hrest
      · simp only [Nesting.Stands, hopened, hclient, Handler.Stands, hstage]
        cases handler.packet.speaking with
        | false => exact ⟨trivial, rfl⟩
        | true => exact Or.inl ⟨trivial, rfl⟩

theorem Kept.hookReturned (h : Kept session s called)
    (hturn : InTurn session s .hookReturned) :
    Kept session s.hookReturned.2 (called ++ s.hookReturned.1) := by
  have hintact := h.intact
  have hwaiting := h.waiting
  cases hhandlers : s.handlers with
  | nil =>
      simp only [Nesting.hookReturned, hhandlers, List.append_nil]
      exact h
  | cons handler rest =>
      rw [hhandlers] at hintact hwaiting
      have hstands := h.stands.of_cons hhandlers
      have hhandler : handler.Intact := hintact handler List.mem_cons_self
      have hrest : ∀ handler ∈ rest, handler.Intact := fun other hother =>
        hintact other (List.mem_cons_of_mem _ hother)
      -- the handlers below go on where the innermost leaves the user
      have hreturn (hsettled : Settled (phase called) (isSpeaking s.client session)) :
          Kept session { s with handlers := rest } (called ++ []) := by
        rw [List.append_nil]
        refine ⟨h.running, hrest, ?_, stands_of_settled hwaiting hsettled⟩
        intro other hother
        exact hwaiting other (List.mem_of_mem_tail hother)
      unfold Handler.Stands at hstands
      cases hstage : handler.stage with
      | starting =>
          simp only [Nesting.hookReturned, hhandlers, hstage]
          rw [hstage] at hstands
          cases hspeaking : handler.packet.speaking with
          | false =>
              rw [hspeaking] at hstands
              refine kept_onUserSpeak h.running hrest hwaiting hhandler (Or.inl hstands.1) ?_
              rw [hspeaking]
              exact hstands.2
          | true =>
              have huser : isSpeaking s.client session = true := by
                apply hturn handler
                · rw [hhandlers]
                  rfl
                · exact hstage
                · exact hspeaking
              refine kept_onUserSpeak h.running hrest hwaiting hhandler ?_ ?_
              · exact h.stands.of_speaking huser
              · rw [hspeaking]
                exact huser
      | speaking =>
          rw [hstage] at hstands
          cases hspeaking : handler.packet.speaking with
          | false =>
              rw [hspeaking] at hstands
              simp only [Nesting.hookReturned, hhandlers, hstage, hhandler.onUserStopSpeaking_eq,
                hspeaking, Bool.false_eq_true, if_false]
              have hback : phase (called ++ [(handler.number, .stop)]) = .utterance := by
                rw [phase_append_single, hstands.1]
                rfl
              refine ⟨h.running, ?_, hwaiting, ?_⟩
              · intro other hother
                rcases List.mem_cons.mp hother with rfl | hin
                · exact ⟨hhandler.received, hhandler.stops⟩
                · exact hrest other hin
              · simp only [Nesting.Stands, hback, hstands.2, Handler.Stands]
                rfl
          | true =>
              rw [hspeaking] at hstands
              simp only [Nesting.hookReturned, hhandlers, hstage, hhandler.onUserStopSpeaking_eq,
                hspeaking, if_true]
              exact hreturn hstands
      | stopping =>
          rw [hstage] at hstands
          simp only [Nesting.hookReturned, hhandlers, hstage]
          exact hreturn hstands

theorem Kept.elsewhere (h : Kept session s called) {change : MumbleClient → MumbleClient}
    (hkept : ∀ client, (change client).users session = client.users session) :
    Kept session { s with client := change s.client } (called ++ []) := by
  have hsame : isSpeaking (change s.client) session = isSpeaking s.client session := by
    unfold isSpeaking
    rw [hkept]
  rw [List.append_nil]
  refine ⟨h.running, h.intact, h.waiting, ?_⟩
  have hstands := h.stands
  unfold Nesting.Stands at hstands ⊢
  dsimp only
  rw [hsame]
  exact hstands

theorem Kept.step (h : Kept session s called) {e : VoiceEvent session}
    (hturn : InTurn session s e) :
    Kept session (Nesting.step session s e).2 (called ++ (Nesting.step session s e).1) := by
  have hrunning : ¬ s.crashed = true := by
    rw [h.running]
    exact Bool.false_ne_true
  unfold Nesting.step
  rw [if_neg hrunning]
  cases e with
  | packet packet => exact h.packet hturn
  | hookReturned => exact h.hookReturned hturn
  | elsewhere change hkept => exact h.elsewhere hkept

end Kept

section Lost

theorem onUserSpeak_of_dataNull {handler : Handler} (hnull : handler.packet.dataNull = true) :
    s.onUserSpeak handler = ([], { s with handlers := [], crashed := true }) := by
  rw [Nesting.onUserSpeak, if_pos hnull]

/-- A packet without a payload ends the program at its event. -/
theorem lost_of_dataNull {packet : VoicePacket} (hnull : packet.dataNull = true) :
    let next := s.mumbleHandleSpeakingHooks session packet
    Lost next.2 (called ++ next.1) := by
  obtain ⟨client, handler, -, -, rfl, hstage, -, hspec⟩ :=
    mumbleHandleSpeakingHooks_spec session s packet
  dsimp only
  rw [hspec]
  cases hwas : isSpeaking s.client session with
  | true =>
      rw [if_pos rfl, onUserSpeak_of_dataNull hnull]
      exact Or.inr (Or.inl rfl)
  | false =>
      rw [if_neg Bool.false_ne_true]
      exact Or.inr (Or.inr ⟨handler, List.mem_cons_self, hstage, hnull⟩)

/-- A packet that is not let in starts an utterance inside another. -/
theorem Kept.lost_of_not_allowsPacket (h : Kept session s called) (packet : VoicePacket)
    {top : Handler} {rest : List Handler} (hhandlers : s.handlers = top :: rest)
    (hallows : ¬ top.AllowsPacket) :
    let next := s.mumbleHandleSpeakingHooks session packet
    Lost next.2 (called ++ next.1) := by
  obtain ⟨client, handler, -, -, -, -, -, hspec⟩ :=
    mumbleHandleSpeakingHooks_spec session s packet
  obtain ⟨hwas, hphase⟩ := (h.stands.of_cons hhandlers).of_not_allowsPacket hallows
  dsimp only
  rw [hspec, hwas, if_neg Bool.false_ne_true]
  apply Or.inl
  rw [phase_append_single]
  rcases hphase with hopened | hunfinished
  · rw [hopened]
    rfl
  · rw [hunfinished]
    rfl

/-- The event of a packet behind the stop of another is part of no utterance. -/
theorem Kept.lost_of_not_speaking (h : Kept session s called) {handler : Handler}
    {rest : List Handler} (hhandlers : s.handlers = handler :: rest)
    (hstage : handler.stage = .starting) (hpacket : handler.packet.speaking = true)
    (huser : ¬ isSpeaking s.client session = true) :
    Lost s.hookReturned.2 (called ++ s.hookReturned.1) := by
  rw [Bool.not_eq_true] at huser
  have hstands := h.stands.of_cons hhandlers
  have hphase : phase called = .utterance := by
    rw [huser] at hstands
    exact hstands.of_allowsPacket (Or.inr hpacket)
  have hreceived : handler.packet.dataNull = false := by
    refine (h.intact handler ?_).received
    rw [hhandlers]
    exact List.mem_cons_self
  simp only [Nesting.hookReturned, hhandlers, hstage, Nesting.onUserSpeak, hreceived,
    Bool.false_eq_true, if_false]
  apply Or.inl
  rw [phase_append_single, hphase]
  rfl

theorem Kept.lost (h : Kept session s called) {e : VoiceEvent session}
    (hturn : ¬ InTurn session s e) :
    Lost (Nesting.step session s e).2 (called ++ (Nesting.step session s e).1) := by
  have hrunning : ¬ s.crashed = true := by
    rw [h.running]
    exact Bool.false_ne_true
  unfold Nesting.step
  rw [if_neg hrunning]
  cases e with
  | packet packet =>
      cases hnull : packet.dataNull with
      | true => exact lost_of_dataNull hnull
      | false =>
          rw [InTurn, not_and] at hturn
          have hallows := hturn hnull
          push Not at hallows
          obtain ⟨top, htop, hallows⟩ := hallows
          obtain ⟨rest, hhandlers⟩ := List.head?_eq_some_iff.mp htop
          exact h.lost_of_not_allowsPacket packet hhandlers hallows
  | hookReturned =>
      unfold InTurn at hturn
      push Not at hturn
      obtain ⟨handler, htop, hstage, hpacket, huser⟩ := hturn
      obtain ⟨rest, hhandlers⟩ := List.head?_eq_some_iff.mp htop
      exact h.lost_of_not_speaking hhandlers hstage hpacket huser
  | elsewhere change hkept => exact (hturn trivial).elim

theorem doomed_onUserSpeak {handler : Handler}
    (h : (∃ other ∈ s.handlers, other.stage = .starting ∧ other.packet.dataNull = true) ∨
      handler.packet.dataNull = true) : (s.onUserSpeak handler).2.Doomed := by
  cases hnull : handler.packet.dataNull with
  | true =>
      rw [onUserSpeak_of_dataNull hnull]
      exact Or.inl rfl
  | false =>
      rw [hnull] at h
      obtain ⟨other, hother, hpending⟩ := h.resolve_right Bool.false_ne_true
      simp only [Nesting.onUserSpeak, hnull, Bool.false_eq_true, if_false]
      exact Or.inr ⟨other, List.mem_cons_of_mem _ hother, hpending⟩

theorem doomed_step (h : s.Doomed) (e : VoiceEvent session) :
    (Nesting.step session s e).2.Doomed := by
  unfold Nesting.step
  split
  · exact h
  · rename_i hrunning
    obtain ⟨pending, hin, hpending⟩ := h.resolve_left hrunning
    cases e with
    | packet packet =>
        obtain ⟨client, handler, -, -, -, -, -, hspec⟩ :=
          mumbleHandleSpeakingHooks_spec session s packet
        dsimp only
        rw [hspec]
        cases isSpeaking s.client session with
        | true => exact doomed_onUserSpeak (Or.inl ⟨pending, hin, hpending⟩)
        | false => exact Or.inr ⟨pending, List.mem_cons_of_mem _ hin, hpending⟩
    | hookReturned =>
        cases hhandlers : s.handlers with
        | nil =>
            rw [hhandlers] at hin
            cases hin
        | cons handler rest =>
            rw [hhandlers] at hin
            have hrest (hother : handler.stage ≠ .starting) : pending ∈ rest := by
              apply (List.mem_cons.mp hin).resolve_left
              rintro rfl
              exact hother hpending.1
            cases hstage : handler.stage with
            | starting =>
                simp only [Nesting.hookReturned, hhandlers, hstage]
                apply doomed_onUserSpeak
                rcases List.mem_cons.mp hin with rfl | hin
                · exact Or.inr hpending.2
                · exact Or.inl ⟨pending, hin, hpending⟩
            | speaking =>
                have hin := hrest (by simp [hstage])
                simp only [Nesting.hookReturned, hhandlers, hstage, Nesting.onUserStopSpeaking]
                split
                · exact Or.inr ⟨pending, List.mem_cons_of_mem _ hin, hpending⟩
                · exact Or.inr ⟨pending, hin, hpending⟩
            | stopping =>
                have hin := hrest (by simp [hstage])
                simp only [Nesting.hookReturned, hhandlers, hstage]
                exact Or.inr ⟨pending, hin, hpending⟩
    | elsewhere change hkept => exact Or.inr ⟨pending, hin, hpending⟩

theorem Lost.step (h : Lost s called) (e : VoiceEvent session) :
    Lost (Nesting.step session s e).2 (called ++ (Nesting.step session s e).1) := by
  rcases h with hbroken | hdoomed
  · exact Or.inl (phase_append_of_broken hbroken _)
  · exact Or.inr (doomed_step hdoomed e)

end Lost

section Accounted

/-- Of each packet handed in, the event was called or its handler is still to call it; a program
that is gone has left out one. -/
def Accounted (s : Nesting) (called : Called) : Prop :=
  if s.crashed then ∃ n < s.packets, called.count (n, .speak) = 0
  else ∀ n, called.count (n, .speak) +
    s.handlers.countP (fun handler => handler.number = n ∧ handler.stage = .starting) =
      if n < s.packets then 1 else 0

theorem accounted_onUserSpeak {handler : Handler} (hrunning : s.crashed = false)
    (hstage : handler.stage = .starting)
    (hsum : ∀ n, called.count (n, .speak) + (handler :: s.handlers).countP (fun handler =>
      handler.number = n ∧ handler.stage = .starting) = if n < s.packets then 1 else 0) :
    Accounted (s.onUserSpeak handler).2 (called ++ (s.onUserSpeak handler).1) := by
  cases hnull : handler.packet.dataNull with
  | true =>
      rw [onUserSpeak_of_dataNull hnull, List.append_nil]
      refine ⟨handler.number, ?_⟩
      have hnone := hsum handler.number
      rw [List.countP_cons_of_pos (by simp [hstage])] at hnone
      dsimp only
      split at hnone
      · exact ⟨by assumption, by omega⟩
      · omega
  | false =>
      simp only [Nesting.onUserSpeak, hnull, Bool.false_eq_true, if_false, Accounted, hrunning]
      intro n
      have hn := hsum n
      rw [List.countP_cons_of_neg (by simp), List.count_append]
      rw [List.countP_cons] at hn
      by_cases hnumber : handler.number = n
      · simpa [hnumber, hstage, Nat.add_assoc, Nat.add_comm 1] using hn
      · simpa [hnumber] using hn

theorem Accounted.packet (h : Accounted s called) (hrunning : s.crashed = false)
    (packet : VoicePacket) :
    let next := s.mumbleHandleSpeakingHooks session packet
    Accounted next.2 (called ++ next.1) := by
  obtain ⟨client, handler, -, hnumber, -, hstage, -, hspec⟩ :=
    mumbleHandleSpeakingHooks_spec session s packet
  rw [Accounted, hrunning, if_neg Bool.false_ne_true] at h
  have hsum : ∀ n, called.count (n, .speak) + (handler :: s.handlers).countP (fun handler =>
      handler.number = n ∧ handler.stage = .starting) = if n < s.packets + 1 then 1 else 0 := by
    intro n
    have hn := h n
    rw [List.countP_cons, hnumber, hstage]
    rcases Nat.lt_trichotomy n s.packets with hless | rfl | hmore
    · rw [if_pos hless] at hn
      simp only [if_pos (Nat.lt_succ_of_lt hless), Nat.ne_of_gt hless, false_and, decide_false]
      exact hn
    · rw [if_neg (Nat.lt_irrefl _)] at hn
      simp only [Nat.lt_succ_self, if_true, decide_true, and_self]
      omega
    · rw [if_neg (Nat.lt_asymm hmore)] at hn
      have hnot : ¬ n < s.packets + 1 := by omega
      simp only [if_neg hnot, Nat.ne_of_lt hmore, false_and, decide_false]
      exact hn
  dsimp only
  rw [hspec]
  cases isSpeaking s.client session with
  | true => exact accounted_onUserSpeak hrunning hstage hsum
  | false =>
      rw [if_neg Bool.false_ne_true]
      simp only [Accounted, hrunning, Bool.false_eq_true, if_false]
      intro n
      rw [List.count_append]
      simpa using hsum n

theorem Accounted.hookReturned (h : Accounted s called) (hrunning : s.crashed = false) :
    Accounted s.hookReturned.2 (called ++ s.hookReturned.1) := by
  cases hhandlers : s.handlers with
  | nil =>
      simp only [Nesting.hookReturned, hhandlers, List.append_nil]
      exact h
  | cons handler rest =>
      rw [Accounted, hrunning, if_neg Bool.false_ne_true, hhandlers] at h
      cases hstage : handler.stage with
      | starting =>
          simp only [Nesting.hookReturned, hhandlers, hstage]
          exact accounted_onUserSpeak hrunning hstage h
      | speaking =>
          simp only [Nesting.hookReturned, hhandlers, hstage, Nesting.onUserStopSpeaking]
          split
          · simp only [Accounted, hrunning, Bool.false_eq_true, if_false]
            intro n
            have hn := h n
            rw [List.countP_cons_of_neg (by simp [hstage])] at hn
            rw [List.countP_cons_of_neg (by simp), List.count_append]
            simpa using hn
          · simp only [Accounted, hrunning, Bool.false_eq_true, if_false, List.append_nil]
            intro n
            have hn := h n
            rwa [List.countP_cons_of_neg (by simp [hstage])] at hn
      | stopping =>
          simp only [Nesting.hookReturned, hhandlers, hstage, Accounted, hrunning,
            Bool.false_eq_true, if_false, List.append_nil]
          intro n
          have hn := h n
          rwa [List.countP_cons_of_neg (by simp [hstage])] at hn

theorem Accounted.step (h : Accounted s called) (e : VoiceEvent session) :
    Accounted (Nesting.step session s e).2 (called ++ (Nesting.step session s e).1) := by
  unfold Nesting.step
  split
  · rw [List.append_nil]
    exact h
  · rename_i hrunning
    rw [Bool.not_eq_true] at hrunning
    cases e with
    | packet packet => exact h.packet hrunning packet
    | hookReturned => exact h.hookReturned hrunning
    | elsewhere change hkept =>
        rw [List.append_nil]
        exact h

end Accounted

end Runs

section Results

variable {session : UInt32} {client : MumbleClient}

/-- A run that is in turn throughout keeps the invariant, and any other is lost. -/
theorem kept_or_lost (hquiet : isSpeaking client session = false)
    (events : List (VoiceEvent session)) :
    let called := (Machine.outputs (Nesting.step session) (Nesting.outside client) events).flatten
    let last := Machine.final (Nesting.step session) (Nesting.outside client) events
    let inTurn := Machine.Along (Nesting.step session) (InTurn session) (Nesting.outside client)
      events
    (inTurn ∧ Kept session last called) ∨ (¬ inTurn ∧ Lost last called) := by
  intro called last inTurn
  refine Machine.outputs_kept_or_lost
    (fun s log => Kept session s log.flatten) (fun s log => Lost s log.flatten) ?_ ?_ ?_
    (Nesting.outside client) [] events ?_
  · intro s log e h hturn
    rw [List.flatten_append, List.flatten_singleton]
    exact h.step hturn
  · intro s log e h hturn
    rw [List.flatten_append, List.flatten_singleton]
    exact h.lost hturn
  · intro s log e h
    rw [List.flatten_append, List.flatten_singleton]
    exact h.step e
  · refine ⟨rfl, by simp [Nesting.outside], by simp [Nesting.outside], ?_⟩
    change Settled .utterance (isSpeaking client session)
    rw [hquiet]
    rfl

theorem accounted_final (client : MumbleClient) (events : List (VoiceEvent session)) :
    Accounted (Machine.final (Nesting.step session) (Nesting.outside client) events)
      (Machine.outputs (Nesting.step session) (Nesting.outside client) events).flatten := by
  refine Machine.outputs_invariant (p := fun _ _ => True)
    (fun s log => Accounted s log.flatten) ?_ (Nesting.outside client) [] events ?_
    (Machine.along_of_forall (fun _ _ => trivial) _ _)
  · intro s log e h _
    rw [List.flatten_append, List.flatten_singleton]
    exact h.step e
  · intro n
    simp [Nesting.outside]

/-- The hooks of a user, over every run of packets and for any nesting of them that has come to
its end, alternate just when the run was in turn. -/
theorem alternates_iff (session : UInt32) (client : MumbleClient)
    (hquiet : isSpeaking client session = false) (events : List (VoiceEvent session))
    (hdone : (Machine.final (Nesting.step session) (Nesting.outside client) events).handlers =
      []) :
    Alternates session
        (Machine.outputs (Nesting.step session) (Nesting.outside client) events).flatten
        (Machine.final (Nesting.step session) (Nesting.outside client) events) ↔
      Machine.Along (Nesting.step session) (InTurn session) (Nesting.outside client) events := by
  have hrun := kept_or_lost hquiet events
  have haccounted := accounted_final client events
  dsimp only at hrun
  generalize (Machine.outputs (Nesting.step session) (Nesting.outside client) events).flatten =
    called at *
  generalize Machine.final (Nesting.step session) (Nesting.outside client) events = last at *
  rcases hrun with ⟨halong, hkept⟩ | ⟨hnot, hlost⟩
  · refine iff_of_true ?_ halong
    have hsettled : Settled (phase called) (isSpeaking last.client session) := by
      have hstands := hkept.stands
      rwa [Nesting.Stands, hdone] at hstands
    rw [Accounted, hkept.running, if_neg Bool.false_ne_true, hdone] at haccounted
    have hcount : ∀ n < last.packets, called.count (n, .speak) = 1 := by
      intro n hn
      simpa [hn] using haccounted n
    cases hspeaking : isSpeaking last.client session with
    | false =>
        rw [hspeaking] at hsettled
        have hwhole := eval_eq_utterance_iff.mp hsettled
        refine ⟨?_, hcount, ?_⟩
        · rw [mul_add, mul_one]
          exact Or.inl hwhole
        · simp [hspeaking, not_unfinished_of_utterances hwhole]
    | true =>
        rw [hspeaking] at hsettled
        have hopen := eval_eq_unfinished_iff.mp hsettled
        refine ⟨?_, hcount, ?_⟩
        · rw [mul_add, mul_one]
          exact Or.inr hopen
        · simp [hspeaking, unfinished_of_begun hopen]
  · refine iff_of_false ?_ hnot
    rintro ⟨hspells, hcount, -⟩
    rcases hlost with hbroken | hcrashed | ⟨handler, hin, -⟩
    · have haccepts : spelling.eval (called.map Prod.snd) ∈ spelling.accept :=
        mem_accepts_spelling_iff.mpr hspells
      have hphase : spelling.eval (called.map Prod.snd) = .broken := hbroken
      rw [hphase] at haccepts
      rcases haccepts with hutterance | hunfinished
      · cases hutterance
      · cases hunfinished
    · rw [Accounted, if_pos hcrashed] at haccounted
      obtain ⟨n, hn, hnone⟩ := haccounted
      rw [hcount n hn] at hnone
      cases hnone
    · rw [hdone] at hin
      cases hin

/-- Every packet is handled before the next is handed in. -/
def OneAfterAnother (s : Nesting) : VoiceEvent session → Prop
  | .packet packet => packet.dataNull = false ∧ s.handlers = []
  | _ => True

/-- The one handler, and the user in its first hook. -/
def Alone (session : UInt32) (s : Nesting) : Prop :=
  s.handlers = [] ∨ ∃ handler, s.handlers = [handler] ∧
    (handler.stage = .starting → isSpeaking s.client session = handler.packet.speaking)

theorem alone_onUserSpeak {s : Nesting} {handler : Handler} (hnone : s.handlers = []) :
    Alone session (s.onUserSpeak handler).2 := by
  unfold Nesting.onUserSpeak
  split
  · exact Or.inl rfl
  · refine Or.inr ⟨_, by rw [hnone], ?_⟩
    intro hstage
    cases hstage

theorem Alone.step {s : Nesting} (h : Alone session s) {e : VoiceEvent session}
    (hone : OneAfterAnother s e) : Alone session (Nesting.step session s e).2 := by
  unfold Nesting.step
  split
  · exact h
  · cases e with
    | packet packet =>
        obtain ⟨hnull, hnone⟩ := hone
        obtain ⟨client, handler, hclient, -, rfl, -, -, hspec⟩ :=
          mumbleHandleSpeakingHooks_spec session s packet
        dsimp only
        rw [hspec]
        cases isSpeaking s.client session with
        | true => exact alone_onUserSpeak hnone
        | false => exact Or.inr ⟨handler, by simp [hnone], fun _ => hclient⟩
    | hookReturned =>
        rcases h with hnone | ⟨handler, hhandlers, -⟩
        · exact Or.inl (by simp [Nesting.hookReturned, hnone])
        · cases hstage : handler.stage with
          | starting =>
              simp only [Nesting.hookReturned, hhandlers, hstage]
              exact alone_onUserSpeak rfl
          | speaking =>
              simp only [Nesting.hookReturned, hhandlers, hstage, Nesting.onUserStopSpeaking]
              split
              · refine Or.inr ⟨_, rfl, ?_⟩
                intro hstarting
                cases hstarting
              · exact Or.inl rfl
          | stopping =>
              simp only [Nesting.hookReturned, hhandlers, hstage]
              exact Or.inl rfl
    | elsewhere change hkept =>
        refine h.imp id ?_
        rintro ⟨handler, hhandlers, hspeaking⟩
        refine ⟨handler, hhandlers, ?_⟩
        unfold isSpeaking at hspeaking ⊢
        dsimp only
        rwa [hkept]

/-- Packets that are handled one after another are in turn, whatever terminators are lost or
repeated. -/
theorem inTurn_of_oneAfterAnother {events : List (VoiceEvent session)}
    (hone : Machine.Along (Nesting.step session) OneAfterAnother (Nesting.outside client) events) :
    Machine.Along (Nesting.step session) (InTurn session) (Nesting.outside client) events := by
  refine Machine.along_of_invariant (Alone session) (fun _ _ h hone => h.step hone) ?_
    (Nesting.outside client) events (Or.inl rfl) hone
  intro s e h hone
  cases e with
  | packet packet =>
      obtain ⟨hnull, hnone⟩ := hone
      refine ⟨hnull, ?_⟩
      rw [hnone]
      intro handler htop
      cases htop
  | hookReturned =>
      intro handler htop hstage hpacket
      rcases h with hnone | ⟨top, hhandlers, hspeaking⟩
      · rw [hnone] at htop
        cases htop
      · rw [hhandlers] at htop
        cases htop
        rw [hspeaking hstage]
        exact hpacket
  | elsewhere change hkept => trivial

/-- A legacy packet of Opus, another packet handed in by its `OnUserSpeak`, the last packet of the
utterance, and that once more. -/
def answeredInside : List (VoiceEvent 5) :=
  let last : VoicePacket := .protobuf ⟨8, true, 0, 0, [9], 5⟩ false
  [.packet (.legacy (fun i => [7, 1, 9].getD i 0) 4 0), .hookReturned,
    .packet (.protobuf ⟨7, false, 0, 0, [9], 5⟩ false), .hookReturned, .hookReturned,
    .packet last, .hookReturned, .hookReturned,
    .packet last, .hookReturned, .hookReturned, .hookReturned]

theorem alternates_answeredInside :
    let called :=
      (Machine.outputs (Nesting.step 5) (Nesting.outside legacyClient) answeredInside).flatten
    called = [(0, .start), (0, .speak), (1, .speak), (2, .speak), (2, .stop), (3, .start),
        (3, .speak), (3, .stop)] ∧
      Alternates 5 called
        (Machine.final (Nesting.step 5) (Nesting.outside legacyClient) answeredInside) := by
  refine ⟨rfl, (alternates_iff 5 legacyClient rfl answeredInside rfl).mpr ?_⟩
  decide

/-- A packet that is a whole utterance, in whose `OnUserStartSpeaking` the script transmits
another packet: two starts, two events, and a stop that leaves the user speaking. -/
theorem not_alternates_transmitting :
    ¬ ∀ (session : UInt32) (client : MumbleClient), isSpeaking client session = false →
      ∀ events : List (VoiceEvent session),
        (Machine.final (Nesting.step session) (Nesting.outside client) events).handlers = [] →
          Alternates session
            (Machine.outputs (Nesting.step session) (Nesting.outside client) events).flatten
            (Machine.final (Nesting.step session) (Nesting.outside client) events) := by
  intro h
  have hspells := (h 5 legacyClient rfl
    [.packet (.protobuf ⟨8, true, 0, 0, [9], 5⟩ false),
      .packet (.protobuf ⟨9, false, 0, 0, [9], 5⟩ false), .hookReturned, .hookReturned,
      .hookReturned, .hookReturned, .hookReturned] rfl).spells
  have haccepts := mem_accepts_spelling_iff.mpr hspells
  rcases haccepts with hutterance | hunfinished
  · cases hutterance
  · cases hunfinished

end Results

end LuaMumble.Voice
