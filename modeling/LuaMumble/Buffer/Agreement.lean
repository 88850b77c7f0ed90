import LuaMumble.Buffer.Decode
import LuaMumble.Voice.Speaking

/-!
The varints of the byte buffer against those of the voice packets. The two encoders write the
same bytes, except for the numbers that the buffer takes for negative ones; the two decoders read
the same numbers, except behind a flag byte, which `util_get_varint` takes for the whole varint.
-/

namespace LuaMumble.Buffer

open Lib Lib.TracedRead Voice

theorem varIntChunks_of_lt {value : UInt64} (hvalue : value.toNat < 2 ^ 64 - 2 ^ 32) :
    varIntChunks value.toNat = [utilSetVarint value] := by
  have hpositive : ¬ (2 ^ 63 ≤ value.toNat ∧ 2 ^ 64 - 1 - value.toNat < 0x100000000) := by omega
  rw [varIntChunks, if_neg hpositive, varIntBytes_eq value.toNat_lt, UInt64.ofNat_toNat]

/-- For every number: `util_get_varint` reads it from the bytes of `util_set_varint` and anything
behind them, and adds their number to `*len`; and those are the bytes that `buffer_writeVarInt`
appends, except for the last 2^32 numbers. -/
theorem util_varint_round_trip (value : UInt64) :
    (∀ (mem : Memory) (start : Nat) (rest : List UInt8) (len : Int),
      Holds mem start (utilSetVarint value ++ rest) →
        (utilGetVarint start len : Traced Action (UInt64 × Int)).value mem =
          (value, len + (utilSetVarint value).length)) ∧
    (value.toNat < 2 ^ 64 - 2 ^ 32 → ∀ (heap : Heap) (buffer : ByteBuffer),
      buffer.readHead ≤ buffer.writeHead → buffer.writeHead ≤ buffer.capacity →
      Fits heap buffer.capacity buffer.writeHead (utilSetVarint value).length →
        ∃ after, bufferWriteVarInt heap buffer value.toNat =
            some ((utilSetVarint value).length, after) ∧
          after.unread = buffer.unread ++ utilSetVarint value) := by
  constructor
  · intro mem start rest len hmem
    exact (utilGetVarint_of_written value hmem len).1
  · intro hvalue heap buffer hread hwrite hfits
    have hchunks := varIntChunks_of_lt hvalue
    have hfit : ChunksFit heap buffer.capacity buffer.writeHead
        ([utilSetVarint value].map List.length) := ⟨hfits, trivial⟩
    obtain ⟨after, hput, hafter⟩ := putChunks_of_fit (stores_unread hread hwrite) hfit
    refine ⟨after, ?_, ?_⟩
    · rw [bufferWriteVarInt, hchunks, hput, List.flatten_singleton]
      rfl
    · rw [hafter.unread_eq, List.flatten_singleton]
      rfl

/-- The largest number of two bytes, from memory and into a buffer that has to grow. -/
theorem util_varint_round_trip_twoBytes :
    (utilGetVarint 0 (-7 : Int) : Traced Action (UInt64 × Int)).value
        (fun i => [0xBF, 0xFF, 0x55].getD i 0) = (0x3FFF, -7 + 2) ∧
      ∃ after, bufferWriteVarInt (fun _ => some fun _ => 0) ⟨⟨[], by decide⟩, 0, 0⟩ 0x3FFF =
          some (2, after) ∧
        after.unread = [] ++ utilSetVarint 0x3FFF := by
  obtain ⟨hget, hput⟩ := util_varint_round_trip 0x3FFF
  refine ⟨hget _ 0 [0x55] (-7) (by unfold Holds; decide), ?_⟩
  exact hput (by decide) (fun _ => some fun _ => 0) ⟨⟨[], by decide⟩, 0, 0⟩ (by decide)
    (by decide) (fits_of_small (fun _ => rfl) (by decide))

section Decoders

variable {buffer : ByteBuffer} {mem : Memory} {start : Nat}

/-- What `util_get_varint` returns on the bytes that `buffer_readVarInt` took from a buffer. -/
def DecodersAgree (buffer : ByteBuffer) (output : Nat) (after : ByteBuffer) (mem : Memory)
    (start : Nat) (len : Int) : Prop :=
  let result := (utilGetVarint start len : Traced Action (UInt64 × Int)).value mem
  result.1.toNat = output ∧ result.2 = len + ((after.readHead : Int) - buffer.readHead)

/-- For every buffer with its heads in order on which `buffer_readVarInt` succeeds: on the same
bytes in memory `util_get_varint` returns the same number and adds the number of bytes read,
exactly if the first of them is no flag byte. -/
theorem decoders_agree_iff (buffer : ByteBuffer) (hread : buffer.readHead ≤ buffer.writeHead)
    (hwrite : buffer.writeHead ≤ buffer.capacity) (ret output : Nat) (after : ByteBuffer)
    (hcall : bufferReadVarInt buffer = some (ret, output, after)) (hret : ret ≠ 0) (mem : Memory)
    (start : Nat) (hmem : Holds mem start buffer.unread) (len : Int) :
    DecodersAgree buffer output after mem start len ↔
      ¬ isFlag (buffer.unread.headD 0) = true := by
  obtain ⟨output', after', hcall', hmoved, -, -, -, -, hvalue⟩ := bufferReadVarInt_spec hread hwrite
  have hsame := Option.some.inj (hcall'.symm.trans hcall)
  obtain rfl : output' = output := congrArg (fun result => result.2.1) hsame
  obtain rfl : after' = after := congrArg (fun result => result.2.2) hsame
  obtain rfl : _ = ret := congrArg Prod.fst hsame
  obtain ⟨hnumber, hlen⟩ := value_utilGetVarint_cast (E := Action) mem start len
  cases hunread : buffer.unread with
  | nil =>
      rw [hunread] at hret
      exact absurd rfl hret
  | cons v rest =>
      rw [hunread] at hret hmoved hvalue hmem
      have hv : mem start = v := ((holds_cons _ _ _).mp hmem).1
      rw [hv] at hnumber hlen
      simp only [DecodersAgree, hnumber, hlen, List.headD_cons]
      constructor
      · rintro ⟨-, hcount⟩ hflag
        have hpositive := readVarIntMoves_ret_le rest
        simp only [readVarIntMoves, if_pos hflag] at hret hmoved
        rw [varintWidth_of_isFlag hflag] at hcount
        omega
      · intro hflag
        simp only [readVarIntMoves, if_neg hflag] at hret hmoved
        by_cases hwhole : varintWidth v ≤ rest.length + 1
        · obtain ⟨hsplit, -⟩ := holds_split start (varintWidth v) (v :: rest) hmem hwhole
          have htake : bytesAt mem start (varintWidth v) =
              v :: rest.take (varintWidth v - 1) := by
            have hfront := congrArg (List.take (varintWidth v)) hsplit
            rw [List.take_left' (bytesAt_length _ _)] at hfront
            obtain ⟨width, hwidth⟩ : ∃ width, varintWidth v = width + 1 :=
              ⟨varintWidth v - 1, by have := one_le_varintWidth v; omega⟩
            rw [← hfront, hwidth, List.take_succ_cons, Nat.add_sub_cancel]
          rw [if_pos hwhole] at hmoved
          have hdecode : decodeVarInt (v :: rest) =
              some (varintValue (v :: rest.take (varintWidth v - 1)), varintWidth v) := by
            rw [decodeVarInt, if_neg hflag, if_pos hwhole]
          refine ⟨?_, by omega⟩
          rw [htake, hvalue _ _ hdecode]
        · rw [if_neg hwhole] at hret
          exact absurd rfl hret

/-- The two bytes of 257, in front of others. -/
theorem decoders_agree_plain :
    ∃ after, bufferReadVarInt ⟨⟨[0x81, 0x01, 0x07], by simp⟩, 0, 3⟩ = some (2, 257, after) ∧
      DecodersAgree ⟨⟨[0x81, 0x01, 0x07], by simp⟩, 0, 3⟩ 257 after
        (fun i => [0x81, 0x01, 0x07].getD i 0) 0 1 := by
  refine ⟨⟨⟨[0x81, 0x01, 0x07], by simp⟩, 2, 3⟩, rfl, ?_⟩
  exact (decoders_agree_iff _ (by decide) (by decide) 2 257 _ rfl (by decide) _ 0
    (by unfold Holds; decide) 1).mpr (by decide)

/-- The bytes of -6, a flag byte and 5: `util_get_varint` stops behind the flag byte. -/
theorem flag_taken_for_varint :
    ¬ ∀ (buffer : ByteBuffer) (ret output : Nat) (after : ByteBuffer) (mem : Memory)
      (start : Nat) (len : Int), buffer.readHead ≤ buffer.writeHead →
      buffer.writeHead ≤ buffer.capacity →
      bufferReadVarInt buffer = some (ret, output, after) → ret ≠ 0 →
      Holds mem start buffer.unread → DecodersAgree buffer output after mem start len := by
  intro h
  have hagree := h ⟨⟨[0xF8, 0x05], by simp⟩, 0, 2⟩ 1 (2 ^ 64 - 6) ⟨⟨[0xF8, 0x05], by simp⟩, 2, 2⟩
    (fun i => [0xF8, 0x05].getD i 0) 0 0 (by decide) (by decide) rfl (by decide)
    (by unfold Holds; decide)
  exact absurd hagree.2 (by decide)

end Decoders

end LuaMumble.Buffer
