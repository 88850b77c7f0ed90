import LuaMumble.Client.Connection

/-!
The version that a client tells the server. `version_v1` gives the patch level
8 bits and `version_v2` 16. The macros join the fields with `|` and mask none of
them, so in `version_v1` the high byte of a patch level falls into the minor
number.
-/

namespace LuaMumble.Client.Version

open Connection (mumbleLegacyClient)

/-- What `client_auth` reads of the client for the Version message. -/
structure VersionedClient where
  versionMajor : UInt64
  versionMinor : UInt64
  versionPatch : UInt64
  legacy : Bool

/-- `mumble_client_new` with its optional arguments; the defaults are
`MUMBLE_VERSION_MAJOR`, `MUMBLE_VERSION_MINOR` and `MUMBLE_VERSION_PATCH`. -/
def mumbleClientNew (major minor patch : Option Int64) : VersionedClient :=
  let versionMajor := (major.getD 1).toUInt64
  let versionMinor := (minor.getD 5).toUInt64
  { versionMajor := versionMajor
    versionMinor := versionMinor
    versionPatch := (patch.getD 735).toUInt64
    legacy := mumbleLegacyClient versionMajor versionMinor }

/-- `MUMBLE_VERSION_V1` -/
def mumbleVersionV1 (client : VersionedClient) : UInt64 :=
  client.versionMajor <<< 16 ||| client.versionMinor <<< 8 ||| client.versionPatch

/-- `MUMBLE_VERSION_V2` -/
def mumbleVersionV2 (client : VersionedClient) : UInt64 :=
  client.versionMajor <<< 48 ||| client.versionMinor <<< 32 ||| client.versionPatch <<< 16

/-- What `uname` fills in. -/
structure Utsname where
  sysname : String
  release : String

/-- The Version message; a field that is not sent is `none`. -/
structure Message where
  versionV1 : Option UInt32
  versionV2 : Option UInt64
  release : String
  os : String
  osVersion : String

/-- The Version message of `client_auth`; `version_v1` is a `uint32_t`. -/
def clientAuthVersion (gitVersion : String) (unameData : Utsname) (client : VersionedClient) :
    Message :=
  { versionV1 := some (mumbleVersionV1 client).toUInt32
    versionV2 := if client.legacy then none else some (mumbleVersionV2 client)
    release := "lua-mumble " ++ gitVersion
    os := unameData.sysname
    osVersion := unameData.release }

/-- 16 bits of major number, 8 of minor number and 8 of patch level. -/
def decodeV1 (v : UInt32) : Nat × Nat × Nat :=
  (v.toNat / 2 ^ 16, v.toNat / 2 ^ 8 % 2 ^ 8, v.toNat % 2 ^ 8)

/-- 16 bits each from bit 48, 32 and 16. -/
def decodeV2 (v : UInt64) : Nat × Nat × Nat :=
  (v.toNat / 2 ^ 48, v.toNat / 2 ^ 32 % 2 ^ 16, v.toNat / 2 ^ 16 % 2 ^ 16)

/-- The versions that are asked for. -/
structure VersionedClient.InRange (client : VersionedClient) : Prop where
  major : client.versionMajor.toNat < 2 ^ 16
  minor : client.versionMinor.toNat < 2 ^ 8
  patch : client.versionPatch.toNat < 2 ^ 16

/-- Both fields of the message, as far as they are sent, tell the version. -/
def Recoverable (client : VersionedClient) (message : Message) : Prop :=
  (∃ v ∈ message.versionV1, (decodeV1 v).1 = client.versionMajor.toNat ∧
    (decodeV1 v).2.1 = client.versionMinor.toNat) ∧
  ∀ v ∈ message.versionV2, decodeV2 v =
    (client.versionMajor.toNat, client.versionMinor.toNat, client.versionPatch.toNat)

/-- The bits of the patch level above 255 are set in the minor number anyway. -/
def PatchFits (client : VersionedClient) : Prop :=
  client.versionMinor.toNat ||| client.versionPatch.toNat / 2 ^ 8 = client.versionMinor.toNat

instance (client : VersionedClient) : Decidable (PatchFits client) :=
  inferInstanceAs (Decidable (_ = _))

section

variable {client : VersionedClient}

/-- Joining with `|` what overlaps in the bits from `k` on. -/
theorem shiftLeft_or (a b k : Nat) :
    a <<< k ||| b = (a ||| b / 2 ^ k) * 2 ^ k + b % 2 ^ k := by
  have hlow : b % 2 ^ k < 2 ^ k := Nat.mod_lt _ (Nat.two_pow_pos k)
  have hsplit : b = (b / 2 ^ k) <<< k ||| b % 2 ^ k := by
    rw [← Nat.shiftLeft_add_eq_or_of_lt hlow, Nat.shiftLeft_eq, Nat.div_add_mod']
  calc a <<< k ||| b = a <<< k ||| ((b / 2 ^ k) <<< k ||| b % 2 ^ k) := by rw [← hsplit]
    _ = (a ||| b / 2 ^ k) <<< k ||| b % 2 ^ k := by
      rw [← Nat.or_assoc, Nat.shiftLeft_or_distrib]
    _ = (a ||| b / 2 ^ k) * 2 ^ k + b % 2 ^ k := by
      rw [← Nat.shiftLeft_add_eq_or_of_lt hlow, Nat.shiftLeft_eq]

/-- A shift that loses no bit. -/
theorem toNat_shiftLeft {x k : UInt64} {n : Nat} (hk : k.toNat % 64 = n)
    (hx : x.toNat * 2 ^ n < 2 ^ 64) : (x <<< k).toNat = x.toNat <<< n := by
  rw [UInt64.toNat_shiftLeft, hk, Nat.shiftLeft_eq, Nat.mod_eq_of_lt hx]

theorem toNat_versionV1 (h : client.InRange) :
    (mumbleVersionV1 client).toUInt32.toNat = client.versionMajor.toNat * 2 ^ 16 +
      (client.versionMinor.toNat ||| client.versionPatch.toNat / 2 ^ 8) * 2 ^ 8 +
        client.versionPatch.toNat % 2 ^ 8 := by
  obtain ⟨hmajor, hminor, hpatch⟩ := h
  have hmajorShift : (client.versionMajor <<< 16).toNat = client.versionMajor.toNat <<< 16 :=
    toNat_shiftLeft rfl (by omega)
  have hminorShift : (client.versionMinor <<< 8).toNat = client.versionMinor.toNat <<< 8 :=
    toNat_shiftLeft rfl (by omega)
  have hoverlap : client.versionMinor.toNat ||| client.versionPatch.toNat / 2 ^ 8 < 2 ^ 8 :=
    Nat.or_lt_two_pow hminor (by omega)
  have hlow : client.versionMinor.toNat <<< 8 ||| client.versionPatch.toNat < 2 ^ 16 := by
    rw [shiftLeft_or]
    omega
  rw [UInt64.toNat_toUInt32, mumbleVersionV1, UInt64.toNat_or, UInt64.toNat_or, hmajorShift,
    hminorShift, Nat.or_assoc, ← Nat.shiftLeft_add_eq_or_of_lt hlow, Nat.shiftLeft_eq,
    shiftLeft_or]
  omega

theorem toNat_versionV2 (h : client.InRange) :
    (mumbleVersionV2 client).toNat = client.versionMajor.toNat * 2 ^ 48 +
      client.versionMinor.toNat * 2 ^ 32 + client.versionPatch.toNat * 2 ^ 16 := by
  obtain ⟨hmajor, hminor, hpatch⟩ := h
  have hmajorShift : (client.versionMajor <<< 48).toNat = client.versionMajor.toNat <<< 48 :=
    toNat_shiftLeft rfl (by omega)
  have hminorShift : (client.versionMinor <<< 32).toNat = client.versionMinor.toNat <<< 32 :=
    toNat_shiftLeft rfl (by omega)
  have hpatchShift : (client.versionPatch <<< 16).toNat = client.versionPatch.toNat <<< 16 :=
    toNat_shiftLeft rfl (by omega)
  have hpatchLow : client.versionPatch.toNat <<< 16 < 2 ^ 32 := by
    rw [Nat.shiftLeft_eq]
    omega
  have hlow : client.versionMinor.toNat <<< 32 ||| client.versionPatch.toNat <<< 16 <
      2 ^ 48 := by
    rw [← Nat.shiftLeft_add_eq_or_of_lt hpatchLow, Nat.shiftLeft_eq, Nat.shiftLeft_eq]
    omega
  rw [mumbleVersionV2, UInt64.toNat_or, UInt64.toNat_or, hmajorShift, hminorShift, hpatchShift,
    Nat.or_assoc, ← Nat.shiftLeft_add_eq_or_of_lt hlow,
    ← Nat.shiftLeft_add_eq_or_of_lt hpatchLow]
  simp only [Nat.shiftLeft_eq]
  omega

/-- `version_v1` keeps the major number, and the minor number with what the patch
level puts over it. -/
theorem decodeV1_eq (h : client.InRange) :
    decodeV1 (mumbleVersionV1 client).toUInt32 =
      (client.versionMajor.toNat,
        client.versionMinor.toNat ||| client.versionPatch.toNat / 2 ^ 8,
        client.versionPatch.toNat % 2 ^ 8) := by
  have hoverlap : client.versionMinor.toNat ||| client.versionPatch.toNat / 2 ^ 8 < 2 ^ 8 :=
    Nat.or_lt_two_pow h.minor (by have hpatch := h.patch; omega)
  rw [decodeV1, toNat_versionV1 h]
  refine Prod.ext ?_ (Prod.ext ?_ ?_)
  · dsimp only
    omega
  · dsimp only
    omega
  · dsimp only
    omega

theorem decodeV2_eq (h : client.InRange) :
    decodeV2 (mumbleVersionV2 client) =
      (client.versionMajor.toNat, client.versionMinor.toNat, client.versionPatch.toNat) := by
  obtain ⟨hmajor, hminor, hpatch⟩ := id h
  rw [decodeV2, toNat_versionV2 h]
  refine Prod.ext ?_ (Prod.ext ?_ ?_)
  · dsimp only
    omega
  · dsimp only
    omega
  · dsimp only
    omega

theorem recoverable_iff (gitVersion : String) (unameData : Utsname) (h : client.InRange) :
    Recoverable client (clientAuthVersion gitVersion unameData client) ↔ PatchFits client := by
  have hv1 : (∃ v ∈ (clientAuthVersion gitVersion unameData client).versionV1,
      (decodeV1 v).1 = client.versionMajor.toNat ∧
        (decodeV1 v).2.1 = client.versionMinor.toNat) ↔ PatchFits client := by
    constructor
    · rintro ⟨v, hv, -, hminor⟩
      cases hv
      rw [decodeV1_eq h] at hminor
      exact hminor
    · intro hfits
      refine ⟨_, rfl, ?_⟩
      rw [decodeV1_eq h]
      exact ⟨rfl, hfits⟩
  have hv2 : ∀ v ∈ (clientAuthVersion gitVersion unameData client).versionV2, decodeV2 v =
      (client.versionMajor.toNat, client.versionMinor.toNat, client.versionPatch.toNat) := by
    intro v hv
    rw [clientAuthVersion] at hv
    cases hlegacy : client.legacy with
    | true =>
        rw [hlegacy] at hv
        cases hv
    | false =>
        rw [hlegacy] at hv
        cases hv
        exact decodeV2_eq h
  rw [Recoverable, hv1]
  exact and_iff_left hv2

end

/-- The order of versions by their major and minor numbers. -/
def Before (a b : VersionedClient) : Prop :=
  a.versionMajor < b.versionMajor ∨
    a.versionMajor = b.versionMajor ∧ a.versionMinor < b.versionMinor

theorem Before.toNat {a b : VersionedClient} (h : Before a b) :
    a.versionMajor.toNat < b.versionMajor.toNat ∨
      a.versionMajor.toNat = b.versionMajor.toNat ∧
        a.versionMinor.toNat < b.versionMinor.toNat := by
  rcases h with hmajor | ⟨hmajor, hminor⟩
  · exact Or.inl (UInt64.lt_iff_toNat_lt.mp hmajor)
  · exact Or.inr ⟨congrArg UInt64.toNat hmajor, UInt64.lt_iff_toNat_lt.mp hminor⟩

/-- `version_v2` always orders the versions. -/
theorem versionV2_lt {a b : VersionedClient} (ha : a.InRange) (hb : b.InRange)
    (hbefore : Before a b) : mumbleVersionV2 a < mumbleVersionV2 b := by
  obtain ⟨hamajor, haminor, hapatch⟩ := id ha
  obtain ⟨hbmajor, hbminor, hbpatch⟩ := id hb
  rw [UInt64.lt_iff_toNat_lt, toNat_versionV2 ha, toNat_versionV2 hb]
  have hnumbers := hbefore.toNat
  omega

/-- `version_v1` orders the versions whose patch levels fit. -/
theorem versionV1_lt {a b : VersionedClient} (ha : a.InRange) (hb : b.InRange)
    (hafits : PatchFits a) (hbfits : PatchFits b) (hbefore : Before a b) :
    (mumbleVersionV1 a).toUInt32 < (mumbleVersionV1 b).toUInt32 := by
  obtain ⟨hamajor, haminor, hapatch⟩ := id ha
  obtain ⟨hbmajor, hbminor, hbpatch⟩ := id hb
  rw [UInt32.lt_iff_toNat_lt, toNat_versionV1 ha, toNat_versionV1 hb, hafits, hbfits]
  have hnumbers := hbefore.toNat
  omega

/-- The fields of the message tell the version just when the patch level fits, and
then they order it among the other versions of this kind. -/
theorem version_recoverable_iff (gitVersion : String) (unameData : Utsname)
    (client : VersionedClient) (h : client.InRange) :
    (Recoverable client (clientAuthVersion gitVersion unameData client) ↔ PatchFits client) ∧
      (PatchFits client → ∀ other : VersionedClient, other.InRange → PatchFits other →
        Before client other →
          (mumbleVersionV1 client).toUInt32 < (mumbleVersionV1 other).toUInt32 ∧
            mumbleVersionV2 client < mumbleVersionV2 other) := by
  refine ⟨recoverable_iff gitVersion unameData h, ?_⟩
  intro hfits other hother hotherFits hbefore
  exact ⟨versionV1_lt h hother hfits hotherFits hbefore, versionV2_lt h hother hbefore⟩

/-- 1.5.256 fits: bit 8 of the patch level is bit 0 of the minor number. -/
theorem version_recoverable_iff_fits :
    (Recoverable (mumbleClientNew none none (some 256))
        (clientAuthVersion "" ⟨"Linux", "6"⟩ (mumbleClientNew none none (some 256))) ↔
      PatchFits (mumbleClientNew none none (some 256))) ∧
      (PatchFits (mumbleClientNew none none (some 256)) → ∀ other : VersionedClient,
        other.InRange → PatchFits other → Before (mumbleClientNew none none (some 256)) other →
          (mumbleVersionV1 (mumbleClientNew none none (some 256))).toUInt32 <
              (mumbleVersionV1 other).toUInt32 ∧
            mumbleVersionV2 (mumbleClientNew none none (some 256)) < mumbleVersionV2 other) :=
  version_recoverable_iff "" ⟨"Linux", "6"⟩ (mumbleClientNew none none (some 256))
    ⟨by decide, by decide, by decide⟩

/-- The default version, 1.5.735, is announced as one with minor number 7. -/
theorem default_version_not_recoverable :
    ¬ ∀ (gitVersion : String) (unameData : Utsname) (client : VersionedClient), client.InRange →
      Recoverable client (clientAuthVersion gitVersion unameData client) := by
  intro h
  have hrange : (mumbleClientNew none none none).InRange :=
    ⟨by decide, by decide, by decide⟩
  have hfits := (recoverable_iff "" ⟨"", ""⟩ hrange).mp (h "" ⟨"", ""⟩ _ hrange)
  exact absurd hfits (by decide)

end LuaMumble.Client.Version
