import Mathlib.Data.UInt

/-!
The wire format of protocol buffers, as far as messages use it whose fields are packed in the
order of their keys. Numbers are written in base 128, the lowest digits first; a digit that more
follow is marked. A field that has its default value is left out.
-/

namespace LuaMumble.Lib.Protobuf

def encodeVarint (n : Nat) : List UInt8 :=
  if n < 128 then [UInt8.ofNat n] else UInt8.ofNat (n % 128 + 128) :: encodeVarint (n / 128)
termination_by n

/-- The number in front, and the bytes behind it. -/
def decodeVarint : List UInt8 → Option (Nat × List UInt8)
  | [] => none
  | b :: rest =>
      if b.toNat < 128 then some (b.toNat, rest)
      else (decodeVarint rest).map fun (n, rest) => (b.toNat - 128 + 128 * n, rest)

/-- Bytes with their number in front. -/
def encodeBytes (bytes : List UInt8) : List UInt8 :=
  encodeVarint bytes.length ++ bytes

def decodeBytes (input : List UInt8) : Option (List UInt8 × List UInt8) :=
  (decodeVarint input).bind fun (n, rest) =>
    if n ≤ rest.length then some (rest.take n, rest.drop n) else none

/-- A field with its key. -/
def packField (key : Nat) (present : Bool) (content : List UInt8) : List UInt8 :=
  if present then encodeVarint key ++ content else []

/-- The field of this key, if it comes next. -/
def unpackField {A : Type} (key : Nat) (decode : List UInt8 → Option (A × List UInt8))
    (absent : A) (input : List UInt8) : Option (A × List UInt8) :=
  match decodeVarint input with
  | some (found, rest) => if found = key then decode rest else some (absent, input)
  | none => some (absent, input)

/-- What is left of a message once the fields up to `key` are read. -/
def FieldsAbove (key : Nat) (input : List UInt8) : Prop :=
  input = [] ∨ ∃ next rest, key < next ∧ input = encodeVarint next ++ rest

section Varint

theorem encodeVarint_of_lt {n : Nat} (hn : n < 128) : encodeVarint n = [UInt8.ofNat n] := by
  rw [encodeVarint, if_pos hn]

theorem encodeVarint_of_ge {n : Nat} (hn : 128 ≤ n) :
    encodeVarint n = UInt8.ofNat (n % 128 + 128) :: encodeVarint (n / 128) := by
  rw [encodeVarint, if_neg (by omega)]

/-- A number is read back, whatever follows it. The induction is on its digits. -/
theorem decodeVarint_encode (n : Nat) (rest : List UInt8) :
    decodeVarint (encodeVarint n ++ rest) = some (n, rest) := by
  induction n using Nat.strong_induction_on with
  | _ n ih =>
      by_cases hn : n < 128
      · have hbyte : (UInt8.ofNat n).toNat = n :=
          UInt8.toNat_ofNat_of_lt' (show n < 256 by omega)
        rw [encodeVarint_of_lt hn, List.singleton_append, decodeVarint, hbyte, if_pos hn]
      · have hbyte : (UInt8.ofNat (n % 128 + 128)).toNat = n % 128 + 128 :=
          UInt8.toNat_ofNat_of_lt' (show n % 128 + 128 < 256 by omega)
        rw [encodeVarint_of_ge (by omega), List.cons_append, decodeVarint, hbyte,
          if_neg (by omega), ih (n / 128) (by omega), Option.map_some]
        have hdigits : n % 128 + 128 - 128 + 128 * (n / 128) = n := by omega
        dsimp only
        rw [hdigits]

theorem decodeBytes_encode (bytes rest : List UInt8) :
    decodeBytes (encodeBytes bytes ++ rest) = some (bytes, rest) := by
  rw [decodeBytes, encodeBytes, List.append_assoc, decodeVarint_encode, Option.bind_some]
  simp

end Varint

section Fields

variable {A : Type} {key : Nat} {decode : List UInt8 → Option (A × List UInt8)} {absent : A}

theorem fieldsAbove_nil : FieldsAbove key [] := Or.inl rfl

/-- Fields of higher keys may be in front. -/
theorem fieldsAbove_pack {next : Nat} {present : Bool} {content rest : List UInt8}
    (hnext : key < next) (hrest : FieldsAbove key rest) :
    FieldsAbove key (packField next present content ++ rest) := by
  cases present with
  | false => exact hrest
  | true =>
      right
      exact ⟨next, content ++ rest, hnext, List.append_assoc _ _ _⟩

theorem unpackField_absent {input : List UInt8} (habove : FieldsAbove key input) :
    unpackField key decode absent input = some (absent, input) := by
  rcases habove with rfl | ⟨next, rest, hnext, rfl⟩
  · rfl
  · rw [unpackField, decodeVarint_encode]
    exact if_neg (by omega)

/-- A field is read back, or its default, if that is what a field has that is left out. -/
theorem unpackField_pack {present : Bool} {content rest : List UInt8} {a : A}
    (hpresent : present = true → decode (content ++ rest) = some (a, rest))
    (habsent : present = false → a = absent) (habove : FieldsAbove key rest) :
    unpackField key decode absent (packField key present content ++ rest) = some (a, rest) := by
  cases present with
  | false =>
      rw [habsent rfl]
      exact unpackField_absent habove
  | true =>
      rw [packField, if_pos rfl, List.append_assoc, unpackField, decodeVarint_encode]
      dsimp only
      rw [if_pos rfl, hpresent rfl]

/-- Zero is left out. -/
theorem unpackField_varint (n : Nat) {rest : List UInt8} (habove : FieldsAbove key rest) :
    unpackField key decodeVarint 0 (packField key (n != 0) (encodeVarint n) ++ rest) =
      some (n, rest) := by
  apply unpackField_pack
  · intro _
    exact decodeVarint_encode n rest
  · intro hzero
    simpa using hzero
  · exact habove

/-- The empty string is left out. -/
theorem unpackField_bytes (bytes : List UInt8) {rest : List UInt8}
    (habove : FieldsAbove key rest) :
    unpackField key decodeBytes [] (packField key (!bytes.isEmpty) (encodeBytes bytes) ++ rest) =
      some (bytes, rest) := by
  apply unpackField_pack
  · intro _
    exact decodeBytes_encode bytes rest
  · intro hempty
    simpa using hempty
  · exact habove

/-- A flag is the number 1, or left out. -/
theorem unpackField_flag (flag : Bool) {rest : List UInt8} (habove : FieldsAbove key rest) :
    unpackField key decodeVarint 0 (packField key flag (encodeVarint 1) ++ rest) =
      some (flag.toNat, rest) := by
  apply unpackField_pack
  · rintro rfl
    exact decodeVarint_encode 1 rest
  · rintro rfl
    rfl
  · exact habove

end Fields

end LuaMumble.Lib.Protobuf
