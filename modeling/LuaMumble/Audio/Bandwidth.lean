import LuaMumble.Audio.Playback
import Mathlib.Order.Bounds.Basic

/-!
The bandwidth that a server allows. `mumble_adjust_audio_bandwidth` lowers the
bitrate of the encoder by 1000 at a time until a packet fits or the bitrate is at
most 8000, and never leaves it below that. The encoder itself is in the library
and a parameter here.
-/

namespace LuaMumble.Audio.Bandwidth

open Lib

inductive Application where
  | voip
  | audio

inductive Signal where
  | auto
  | voice

inductive OpusBandwidth where
  | superwideband
  | fullband

/-- The requests of `opus_encoder_ctl` that set a value. -/
inductive Request where
  | setBitrate (value : Int)
  | setApplication (value : Application)
  | setSignal (value : Signal)
  | setBandwidth (value : OpusBandwidth)
  | setVbr (value : Int)
  | setVbrConstraint (value : Int)
  | setComplexity (value : Int)
  | setPacketLossPerc (value : Int)
  | setInbandFec (value : Int)
  | setDtx (value : Int)

/-- The library, with `E` the states of an encoder. -/
structure Opus (E : Type) where
  encoderCtl : E → Request → E
  /-- `OPUS_GET_BITRATE` -/
  getBitrate : E → Int

/-- The encoder reports the bitrate that was set last. -/
structure Opus.ReportsLast {E : Type} (opus : Opus E) : Prop where
  set : ∀ encoder bitrate, 500 ≤ bitrate → bitrate ≤ 512000 →
    opus.getBitrate (opus.encoderCtl encoder (.setBitrate bitrate)) = bitrate
  kept : ∀ encoder request, (∀ bitrate, request ≠ .setBitrate bitrate) →
    opus.getBitrate (opus.encoderCtl encoder request) = opus.getBitrate encoder

/-- What the adjustment uses of a `MumbleClient`. -/
structure MumbleClient (E : Type) where
  audioFrames : UInt32
  maxBandwidth : UInt32
  encoder : E

/-- The source divides by `frames`, which is at least 1 for the allowed packet sizes. -/
def getNetworkBandwidth (bitrate frames : Int) : Int :=
  let overhead := 8 + 8 + 4 + 8 + 24 + 4 + 1 + 4
  let opusDataSize := (frames * bitrate.tdiv 8).tdiv frames * audioPlaybackChannels
  bitrate + overhead + opusDataSize

/-- The comparison of an `int` with `maxbitrate`, which makes it unsigned. -/
def exceeds (maxbitrate : UInt32) (bitrate frames : Int) : Bool :=
  decide (maxbitrate < UInt32.ofInt (getNetworkBandwidth bitrate frames))

/-- The `do` loop: `bitrate` behind it. -/
def lowerBitrate (tooHigh : Int → Bool) (bitrate : Int) : Int :=
  if 8000 < bitrate - 1000 ∧ tooHigh (bitrate - 1000) = true then
    lowerBitrate tooHigh (bitrate - 1000)
  else bitrate - 1000
termination_by (bitrate - 8000).toNat

/-- `frames`, where the bandwidth exceeds the limit. -/
def largerPackets (frames : Int) (maxbitrate : UInt32) : Int :=
  if frames ≤ 4 ∧ maxbitrate ≤ 32000 then 4
  else if frames = 1 ∧ maxbitrate ≤ 64000 then 2
  else if frames = 2 ∧ maxbitrate ≤ 48000 then 4
  else frames

/-- `frames` and `bitrate` behind the comparisons with the limit. -/
def fitLimit (maxbitrate : UInt32) (frames bitrate : Int) : Int × Int :=
  if maxbitrate = -1 then (frames, bitrate)
  else if exceeds maxbitrate bitrate frames then
    let frames := largerPackets frames maxbitrate
    if exceeds maxbitrate bitrate frames then
      (frames, lowerBitrate (fun bitrate => exceeds maxbitrate bitrate frames) bitrate)
    else (frames, bitrate)
  else (frames, bitrate)

/-- What is set with a new bitrate. -/
def encoderSettings (bitrate : Int) : List Request :=
  if 64000 ≤ bitrate then
    [.setApplication .audio, .setSignal .auto, .setBandwidth .fullband, .setVbr 1,
      .setVbrConstraint 1, .setComplexity 10, .setPacketLossPerc 5, .setInbandFec 1, .setDtx 0]
  else
    [.setApplication .voip, .setSignal .voice, .setBandwidth .superwideband, .setVbr 1,
      .setVbrConstraint 1, .setComplexity 5, .setPacketLossPerc 10, .setInbandFec 1, .setDtx 1]

section Adjust

variable {E : Type}

/-- `mumble_adjust_audio_bandwidth`, with what it returns. -/
def mumbleAdjustAudioBandwidth (opus : Opus E) (client : MumbleClient E) :
    MumbleClient E × UInt64 :=
  let originalBitrate := opus.getBitrate client.encoder
  let (frames, fitted) :=
    fitLimit client.maxBandwidth (client.audioFrames / 10).toNat originalBitrate
  let bitrate := if fitted < 8000 then 8000 else fitted
  let client :=
    if bitrate ≠ originalBitrate then
      { client with
        audioFrames := UInt32.ofInt (frames * 10)
        encoder := (encoderSettings bitrate).foldl opus.encoderCtl
          (opus.encoderCtl client.encoder (.setBitrate bitrate)) }
    else client
  (client, UInt64.ofInt frames * 10)

/-- The lines of `packet_server_sync` for a limit that the packet has. -/
def packetServerSync (opus : Opus E) (client : MumbleClient E) (maxBandwidth : UInt32) :
    MumbleClient E :=
  (mumbleAdjustAudioBandwidth opus { client with maxBandwidth := maxBandwidth }).1

end Adjust

/-- The allowed values of `audio_frames`. -/
def packetSizes : List UInt32 := [10, 20, 40, 60]

/-- The bandwidth for a bitrate. -/
def bandwidth (bitrate : Int) : Int := bitrate + 61 + 2 * (bitrate / 8)

/-- There is no limit, or the bandwidth is within it. -/
def Within (maxBandwidth : UInt32) (bitrate : Int) : Prop :=
  maxBandwidth = -1 ∨ bandwidth bitrate ≤ maxBandwidth.toNat

/-- The numbers of steps after which the bitrate need not be lowered any more. -/
def enoughSteps (maxBandwidth : UInt32) (bitrate : Int) : Set Nat :=
  {k | 1 ≤ k ∧ (bitrate - 1000 * k ≤ 8000 ∨
    bandwidth (bitrate - 1000 * k) ≤ maxBandwidth.toNat)}

/-- The bitrate that `bitrate` is adjusted to. -/
def Adjusted (maxBandwidth : UInt32) (bitrate adjusted : Int) : Prop :=
  (Within maxBandwidth bitrate ∧ adjusted = max 8000 bitrate) ∨
    (¬Within maxBandwidth bitrate ∧ ∃ k, IsLeast (enoughSteps maxBandwidth bitrate) k ∧
      adjusted = max 8000 (bitrate - 1000 * k))

theorem getNetworkBandwidth_eq {bitrate frames : Int} (hbitrate : 0 ≤ bitrate)
    (hframes : 0 < frames) : getNetworkBandwidth bitrate frames = bandwidth bitrate := by
  have hcancel : (frames * bitrate.tdiv 8).tdiv frames = bitrate.tdiv 8 :=
    Int.mul_tdiv_cancel_left _ hframes.ne'
  rw [getNetworkBandwidth, bandwidth, hcancel, Int.tdiv_eq_ediv_of_nonneg hbitrate]
  simp only [audioPlaybackChannels]
  omega

/-- The comparison is that of the numbers, because the bandwidth is an `int` from 0 on. -/
theorem exceeds_iff (maxbitrate : UInt32) {bitrate frames : Int} (hlow : 0 ≤ bitrate)
    (hhigh : bitrate ≤ 512000) (hframes : 0 < frames) :
    exceeds maxbitrate bitrate frames = true ↔ maxbitrate.toNat < bandwidth bitrate := by
  have hvalue : (UInt32.ofInt (bandwidth bitrate)).toNat = (bandwidth bitrate).toNat := by
    rw [UInt32.ofInt, UInt32.toNat_ofNat', bandwidth]
    omega
  have hnonneg : 0 ≤ bandwidth bitrate := by
    rw [bandwidth]
    omega
  rw [exceeds, getNetworkBandwidth_eq hlow hframes, decide_eq_true_iff, UInt32.lt_iff_toNat_lt,
    hvalue]
  omega

/-- The loop takes the least number of steps, which is at least one. -/
theorem lowerBitrate_least (tooHigh : Int → Bool) (bitrate : Int) :
    ∃ k : Nat, IsLeast {k : Nat | 1 ≤ k ∧ (bitrate - 1000 * k ≤ 8000 ∨
      tooHigh (bitrate - 1000 * k) = false)} k ∧
      lowerBitrate tooHigh bitrate = bitrate - 1000 * k := by
  have hone (b : Int) : b - 1000 * ((1 : Nat) : Int) = b - 1000 := by
    omega
  induction bitrate using lowerBitrate.induct tooHigh with
  | case1 bitrate hon ih =>
      obtain ⟨k, ⟨⟨hpos, henough⟩, hleast⟩, heq⟩ := ih
      have hshift (j : Nat) :
          bitrate - 1000 * ((j + 1 : Nat) : Int) = bitrate - 1000 - 1000 * j := by
        omega
      refine ⟨k + 1, ⟨⟨by omega, ?_⟩, ?_⟩, ?_⟩
      · rw [hshift]
        exact henough
      · rintro j ⟨hj, hstop⟩
        rcases Nat.eq_or_lt_of_le hj with rfl | hmore
        · rw [hone] at hstop
          rcases hstop with hlow | hlow
          · omega
          · rw [hlow] at hon
            exact absurd hon.2 Bool.false_ne_true
        · obtain ⟨i, rfl⟩ : ∃ i, j = i + 1 := ⟨j - 1, by omega⟩
          rw [hshift] at hstop
          have hle := hleast ⟨by omega, hstop⟩
          omega
      · rw [lowerBitrate, if_pos hon, heq, hshift]
  | case2 bitrate hoff =>
      refine ⟨1, ⟨⟨le_refl 1, ?_⟩, fun j hj => hj.1⟩, ?_⟩
      · rw [hone]
        by_cases hlow : bitrate - 1000 ≤ 8000
        · exact Or.inl hlow
        · right
          exact Bool.eq_false_iff.mpr fun hhigh => hoff ⟨by omega, hhigh⟩
      · rw [lowerBitrate, if_neg hoff, hone]

section Limit

variable (maxbitrate : UInt32) {bitrate frames : Int}

/-- Only bitrates above 8000 are compared with the limit. -/
theorem enoughSteps_eq (hhigh : bitrate ≤ 512000) (hframes : 0 < frames) :
    {k : Nat | 1 ≤ k ∧ (bitrate - 1000 * k ≤ 8000 ∨
      exceeds maxbitrate (bitrate - 1000 * k) frames = false)} =
      enoughSteps maxbitrate bitrate := by
  ext k
  simp only [enoughSteps, Set.mem_ofPred_eq]
  by_cases hlow : bitrate - 1000 * k ≤ 8000
  · simp only [hlow, true_or]
  · have hnonneg : 0 ≤ bitrate - 1000 * k := by omega
    rw [← Bool.not_eq_true, exceeds_iff maxbitrate hnonneg (by omega) hframes, not_lt]

theorem largerPackets_pos (hframes : 0 < frames) : 0 < largerPackets frames maxbitrate := by
  rw [largerPackets]
  split_ifs <;> omega

/-- The comparisons leave the bitrate as it is, or lower it by the least number of steps. -/
theorem fitLimit_bitrate (hlow : 0 ≤ bitrate) (hhigh : bitrate ≤ 512000) (hframes : 0 < frames) :
    (Within maxbitrate bitrate ∧ (fitLimit maxbitrate frames bitrate).2 = bitrate) ∨
      (¬Within maxbitrate bitrate ∧ ∃ k, IsLeast (enoughSteps maxbitrate bitrate) k ∧
        (fitLimit maxbitrate frames bitrate).2 = bitrate - 1000 * k) := by
  rw [fitLimit]
  split
  · rename_i hnone
    exact Or.inl ⟨Or.inl hnone, rfl⟩
  · rename_i hlimit
    split
    · rename_i hexceeds
      have hover : maxbitrate.toNat < bandwidth bitrate :=
        (exceeds_iff maxbitrate hlow hhigh hframes).mp hexceeds
      have hlarger := largerPackets_pos maxbitrate hframes
      have hagain : exceeds maxbitrate bitrate (largerPackets frames maxbitrate) = true :=
        (exceeds_iff maxbitrate hlow hhigh hlarger).mpr hover
      obtain ⟨k, hleast, heq⟩ := lowerBitrate_least
        (fun bitrate => exceeds maxbitrate bitrate (largerPackets frames maxbitrate)) bitrate
      rw [enoughSteps_eq maxbitrate hhigh hlarger] at hleast
      refine Or.inr ⟨?_, k, hleast, ?_⟩
      · rintro (hnone | hwithin)
        · exact hlimit hnone
        · omega
      · simp only [hagain, if_true]
        exact heq
    · rename_i hfits
      rw [exceeds_iff maxbitrate hlow hhigh hframes, not_lt] at hfits
      exact Or.inl ⟨Or.inr hfits, rfl⟩

end Limit

/-- Below the limit, or at 8000: nothing is adjusted any more. -/
def Settled (maxBandwidth : UInt32) (bitrate : Int) : Prop :=
  8000 ≤ bitrate ∧ bitrate ≤ 512000 ∧ (8000 < bitrate → Within maxBandwidth bitrate)

theorem Adjusted.settled {maxBandwidth : UInt32} {bitrate adjusted : Int}
    (hhigh : bitrate ≤ 512000) (h : Adjusted maxBandwidth bitrate adjusted) :
    Settled maxBandwidth adjusted := by
  rcases h with ⟨hwithin, rfl⟩ | ⟨hover, k, ⟨⟨hpos, henough⟩, -⟩, rfl⟩
  · refine ⟨le_max_left _ _, max_le (by omega) hhigh, ?_⟩
    intro hmore
    have heq : max 8000 bitrate = bitrate := by omega
    rw [heq]
    exact hwithin
  · refine ⟨le_max_left _ _, by omega, ?_⟩
    intro hmore
    have heq : max 8000 (bitrate - 1000 * (k : Int)) = bitrate - 1000 * k := by omega
    rw [heq] at hmore ⊢
    rcases henough with hlow | hwithin
    · omega
    · exact Or.inr hwithin

section Adjustment

variable {E : Type} {opus : Opus E} {client : MumbleClient E}

theorem encoderSettings_bitrate (hopus : opus.ReportsLast) (encoder : E) (bitrate : Int) :
    opus.getBitrate ((encoderSettings bitrate).foldl opus.encoderCtl encoder) =
      opus.getBitrate encoder := by
  have hfold (requests : List Request) (hkept : ∀ request ∈ requests, ∀ b, request ≠ .setBitrate b)
      (encoder : E) :
      opus.getBitrate (requests.foldl opus.encoderCtl encoder) = opus.getBitrate encoder := by
    induction requests generalizing encoder with
    | nil => rfl
    | cons request rest ih =>
        rw [List.foldl_cons, ih fun r hr => hkept r (List.mem_cons_of_mem _ hr)]
        exact hopus.kept _ _ (hkept request List.mem_cons_self)
  apply hfold
  intro request hrequest b
  rw [encoderSettings] at hrequest
  split at hrequest <;> simp only [List.mem_cons, List.not_mem_nil, or_false] at hrequest <;>
    rcases hrequest with rfl | rfl | rfl | rfl | rfl | rfl | rfl | rfl | rfl <;>
    exact Request.noConfusion

theorem frames_of_mem (h : client.audioFrames ∈ packetSizes) :
    0 < ((client.audioFrames / 10).toNat : Int) := by
  simp only [packetSizes, List.mem_cons, List.not_mem_nil, or_false] at h
  rcases h with h | h | h | h <;> rw [h] <;> decide

theorem fitLimit_frames (maxbitrate : UInt32) (frames bitrate : Int) :
    (fitLimit maxbitrate frames bitrate).1 = frames ∨
      (fitLimit maxbitrate frames bitrate).1 = 2 ∨ (fitLimit maxbitrate frames bitrate).1 = 4 := by
  have hlarger : largerPackets frames maxbitrate = frames ∨ largerPackets frames maxbitrate = 2 ∨
      largerPackets frames maxbitrate = 4 := by
    rw [largerPackets]
    split_ifs <;> simp
  rw [fitLimit]
  split
  · exact Or.inl rfl
  · split
    · dsimp only
      split <;> exact hlarger
    · exact Or.inl rfl

/-- The bitrate is right as it is, or it is set with the settings for it. -/
theorem adjust_cases (opus : Opus E) (client : MumbleClient E) :
    let originalBitrate := opus.getBitrate client.encoder
    let fitted := fitLimit client.maxBandwidth (client.audioFrames / 10).toNat originalBitrate
    let bitrate := max 8000 fitted.2
    (bitrate = originalBitrate ∧ (mumbleAdjustAudioBandwidth opus client).1 = client) ∨
      (bitrate ≠ originalBitrate ∧ (mumbleAdjustAudioBandwidth opus client).1 =
        { client with
          audioFrames := UInt32.ofInt (fitted.1 * 10)
          encoder := (encoderSettings bitrate).foldl opus.encoderCtl
            (opus.encoderCtl client.encoder (.setBitrate bitrate)) }) := by
  intro originalBitrate fitted bitrate
  have hclamp : (if fitted.2 < 8000 then 8000 else fitted.2) = bitrate := by
    split <;> omega
  have hclient : (mumbleAdjustAudioBandwidth opus client).1 =
      if bitrate ≠ originalBitrate then
        { client with
          audioFrames := UInt32.ofInt (fitted.1 * 10)
          encoder := (encoderSettings bitrate).foldl opus.encoderCtl
            (opus.encoderCtl client.encoder (.setBitrate bitrate)) }
      else client := by
    rw [← hclamp]
    rfl
  rw [hclient]
  by_cases hsame : bitrate = originalBitrate
  · exact Or.inl ⟨hsame, if_neg (not_not.mpr hsame)⟩
  · exact Or.inr ⟨hsame, if_pos hsame⟩

theorem adjust_audioFrames (hframes : client.audioFrames ∈ packetSizes) :
    (mumbleAdjustAudioBandwidth opus client).1.audioFrames ∈ packetSizes := by
  rcases adjust_cases opus client with ⟨-, heq⟩ | ⟨-, heq⟩
  · rw [heq]
    exact hframes
  · rw [heq]
    dsimp only
    rcases fitLimit_frames client.maxBandwidth (client.audioFrames / 10).toNat
      (opus.getBitrate client.encoder) with h | h | h <;> rw [h]
    · simp only [packetSizes, List.mem_cons, List.not_mem_nil, or_false] at hframes
      rcases hframes with h | h | h | h <;> rw [h] <;> decide
    · decide
    · decide

theorem adjust_maxBandwidth :
    (mumbleAdjustAudioBandwidth opus client).1.maxBandwidth = client.maxBandwidth := by
  rcases adjust_cases opus client with ⟨-, heq⟩ | ⟨-, heq⟩ <;> rw [heq]

variable (hopus : opus.ReportsLast) (hlow : 500 ≤ opus.getBitrate client.encoder)
  (hhigh : opus.getBitrate client.encoder ≤ 512000) (hframes : client.audioFrames ∈ packetSizes)

include hopus hlow hhigh hframes

theorem adjust_bitrate :
    Adjusted client.maxBandwidth (opus.getBitrate client.encoder)
      (opus.getBitrate (mumbleAdjustAudioBandwidth opus client).1.encoder) := by
  have hfit := fitLimit_bitrate client.maxBandwidth (by omega) hhigh (frames_of_mem hframes)
  have hset : opus.getBitrate (mumbleAdjustAudioBandwidth opus client).1.encoder =
      max 8000 (fitLimit client.maxBandwidth (client.audioFrames / 10).toNat
        (opus.getBitrate client.encoder)).2 := by
    rcases adjust_cases opus client with ⟨hsame, heq⟩ | ⟨-, heq⟩ <;> rw [heq]
    · exact hsame.symm
    · dsimp only
      rw [encoderSettings_bitrate hopus]
      apply hopus.set
      · omega
      · rcases hfit with ⟨-, heq⟩ | ⟨-, k, -, heq⟩ <;> omega
  rw [hset]
  rcases hfit with ⟨hwithin, heq⟩ | ⟨hover, k, hleast, heq⟩
  · exact Or.inl ⟨hwithin, by rw [heq]⟩
  · exact Or.inr ⟨hover, k, hleast, by rw [heq]⟩

end Adjustment

section Again

variable {E : Type} {opus : Opus E} {client : MumbleClient E}

/-- The adjustment leaves a client alone whose bitrate needs none. -/
theorem adjust_settled (hframes : client.audioFrames ∈ packetSizes)
    (h : Settled client.maxBandwidth (opus.getBitrate client.encoder)) :
    (mumbleAdjustAudioBandwidth opus client).1 = client := by
  obtain ⟨hlow, hhigh, hwithin⟩ := h
  have hsame : max 8000 (fitLimit client.maxBandwidth (client.audioFrames / 10).toNat
      (opus.getBitrate client.encoder)).2 = opus.getBitrate client.encoder := by
    rcases fitLimit_bitrate client.maxBandwidth (by omega) hhigh (frames_of_mem hframes) with
      ⟨-, heq⟩ | ⟨hover, k, -, heq⟩
    · rw [heq]
      exact max_eq_right hlow
    · have hleast : ¬8000 < opus.getBitrate client.encoder := fun hmore => hover (hwithin hmore)
      omega
  rcases adjust_cases opus client with ⟨-, heq⟩ | ⟨hchanged, -⟩
  · exact heq
  · exact absurd hsame hchanged

/-- The bitrate is adjusted to the limit of the server; what is adjusted once stays as it
is, and the packets keep an allowed size. -/
theorem adjust_audio_bandwidth (opus : Opus E) (hopus : opus.ReportsLast)
    (client : MumbleClient E) (hlow : 500 ≤ opus.getBitrate client.encoder)
    (hhigh : opus.getBitrate client.encoder ≤ 512000)
    (hframes : client.audioFrames ∈ packetSizes) :
    let adjusted := (mumbleAdjustAudioBandwidth opus client).1
    let bitrate := opus.getBitrate adjusted.encoder
    Adjusted client.maxBandwidth (opus.getBitrate client.encoder) bitrate ∧
      (8000 < bitrate → Within client.maxBandwidth bitrate) ∧
      (mumbleAdjustAudioBandwidth opus adjusted).1 = adjusted ∧
      adjusted.audioFrames ∈ packetSizes := by
  intro adjusted bitrate
  have hadjusted := adjust_bitrate hopus hlow hhigh hframes
  have hsettled := hadjusted.settled hhigh
  have hsizes : adjusted.audioFrames ∈ packetSizes := adjust_audioFrames hframes
  have hlimit : adjusted.maxBandwidth = client.maxBandwidth := adjust_maxBandwidth
  refine ⟨hadjusted, hsettled.2.2, adjust_settled hsizes ?_, hsizes⟩
  rw [hlimit]
  exact hsettled

end Again

/-- An encoder that has nothing but its bitrate. -/
def bitrateOnly : Opus Int :=
  { encoderCtl := fun encoder request =>
      match request with
      | .setBitrate value => value
      | _ => encoder
    getBitrate := fun encoder => encoder }

theorem bitrateOnly_reportsLast : bitrateOnly.ReportsLast := by
  constructor
  · intro encoder bitrate hlow hhigh
    rfl
  · intro encoder request hother
    cases request with
    | setBitrate value => exact absurd rfl (hother value)
    | _ => rfl

theorem adjust_audio_bandwidth_limited :
    let adjusted := (mumbleAdjustAudioBandwidth bitrateOnly ⟨10, 32000, 128000⟩).1
    Adjusted 32000 128000 adjusted.encoder ∧
      (8000 < adjusted.encoder → Within 32000 adjusted.encoder) ∧
      (mumbleAdjustAudioBandwidth bitrateOnly adjusted).1 = adjusted ∧
      adjusted.audioFrames ∈ packetSizes :=
  adjust_audio_bandwidth bitrateOnly bitrateOnly_reportsLast ⟨10, 32000, 128000⟩ (by decide)
    (by decide) (by decide)

section Syncs

variable {E : Type}

/-- An allowed packet size, and a bitrate that the encoder can have. -/
structure Fit (opus : Opus E) (client : MumbleClient E) : Prop where
  size : client.audioFrames ∈ packetSizes
  least : 500 ≤ opus.getBitrate client.encoder
  most : opus.getBitrate client.encoder ≤ 512000

theorem packetServerSync_settled {opus : Opus E} (hopus : opus.ReportsLast)
    {client : MumbleClient E} (h : Fit opus client) (limit : UInt32) :
    Settled limit (opus.getBitrate (packetServerSync opus client limit).encoder) := by
  have hadjusted := @adjust_bitrate E opus { client with maxBandwidth := limit } hopus h.least
    h.most h.size
  exact hadjusted.settled h.most

theorem packetServerSync_fit {opus : Opus E} (hopus : opus.ReportsLast)
    {client : MumbleClient E} (h : Fit opus client) (limit : UInt32) :
    Fit opus (packetServerSync opus client limit) := by
  obtain ⟨hlow, hhigh, -⟩ := packetServerSync_settled hopus h limit
  exact ⟨adjust_audioFrames h.size, by omega, hhigh⟩

/-- Whatever limits a server has sent before, the last one is met. -/
theorem syncs_settled {opus : Opus E} (hopus : opus.ReportsLast) {client : MumbleClient E}
    (h : Fit opus client) (limits : List UInt32) (limit : UInt32) :
    Settled limit (opus.getBitrate
      ((limits ++ [limit]).foldl (packetServerSync opus) client).encoder) := by
  induction limits generalizing client with
  | nil => exact packetServerSync_settled hopus h limit
  | cons first rest ih => exact ih (packetServerSync_fit hopus h first)

end Syncs

end LuaMumble.Audio.Bandwidth
