import LuaMumble.Buffer.Decode
import LuaMumble.Buffer.Methods

/-!
Where `buffer_read` and `luabuffer_readString` stop. The macro `buffer_available` adds the size to
the read head in 64 bits, so that a size close to 2^64 comes out in front of the write head, and
the call copies bytes that are not there. Such a size can be read from the buffer itself.
-/

namespace LuaMumble.Buffer

open Lib

/-- What is asked of `buffer_read`: it copies the bytes and moves the head where so many are
unread, and else returns 0 and changes nothing. -/
def ReadsInside (buffer : ByteBuffer) (size : Nat) : Prop :=
  bufferRead buffer size =
    if buffer.readHead + size ≤ buffer.writeHead then
      some (size, buffer.unread.take size, { buffer with readHead := buffer.readHead + size })
    else some (0, [], buffer)

/-- `luabuffer_readString`, with the bytes that the stack has for `string[size + 1]`. An array of
none or of more is undefined behaviour. -/
def luabufferReadStringOn (stack : Nat) (buffer : ByteBuffer) : Option (LuaResult × ByteBuffer) :=
  (bufferReadVarInt buffer).bind fun (ret, size, buffer) =>
    if ret = 0 then some (beyondLimit, buffer)
    else if 0 < wrap (size + 1) ∧ wrap (size + 1) ≤ stack then
      pushRead (bufferRead buffer size) .string
    else none

/-- A string that lies in the unread bytes is returned, or the error is raised. -/
def ReadsStringInside (stack : Nat) (buffer : ByteBuffer) : Prop :=
  ∃ result after, luabufferReadStringOn stack buffer = some (result, after) ∧
    (result = beyondLimit ∨
      ∃ string front back, result = .values [.string string] ∧
        buffer.unread = front ++ string ++ back)

/-- The length in front of a string fits the array on the stack, and does not take the read head
past 2^64. -/
def StringFits (stack : Nat) (buffer : ByteBuffer) : Prop :=
  ∀ size length, decodeVarInt buffer.unread = some (size, length) →
    size + 1 ≤ stack ∧ buffer.readHead + length + size < 2 ^ 64

section Read

variable {buffer : ByteBuffer} {size : Nat}

/-- A sum that wraps ends up in front of the read head. -/
theorem bufferAvailable_of_wrap (hread : buffer.readHead ≤ buffer.writeHead)
    (hcapacity : buffer.writeHead ≤ buffer.capacity) (hsize : size < 2 ^ 64)
    (hwrap : 2 ^ 64 ≤ buffer.readHead + size) : bufferAvailable buffer size := by
  have hlt := buffer.capacity_lt
  rw [bufferAvailable, wrap]
  omega

/-- The copy that follows leaves the block. -/
theorem bufferRead_of_wrap (hread : buffer.readHead ≤ buffer.writeHead)
    (hwrite : buffer.writeHead ≤ buffer.capacity) (hsize : size < 2 ^ 64)
    (hwrap : 2 ^ 64 ≤ buffer.readHead + size) : bufferRead buffer size = none := by
  have hcapacity := buffer.capacity_lt
  have hbeyond : ¬ (size = 0 ∨ buffer.readHead + size ≤ buffer.data.bytes.length) := by
    have hlength : buffer.capacity = buffer.data.bytes.length := rfl
    omega
  rw [bufferRead, if_pos (bufferAvailable_of_wrap hread hwrite hsize hwrap), ByteBuffer.get,
    Block.load, if_neg hbeyond]
  rfl

theorem readsInside_of_lt (hread : buffer.readHead ≤ buffer.writeHead)
    (hwrite : buffer.writeHead ≤ buffer.capacity) (hlt : buffer.readHead + size < 2 ^ 64) :
    ReadsInside buffer size := by
  have hcapacity : buffer.capacity = buffer.data.bytes.length := rfl
  have havailable : bufferAvailable buffer size ↔
      buffer.readHead + size ≤ buffer.writeHead := by
    rw [bufferAvailable, wrap_of_lt hlt]
  unfold ReadsInside bufferRead
  by_cases hle : buffer.readHead + size ≤ buffer.writeHead
  · have hbytes : (buffer.data.bytes.drop buffer.readHead).take size = buffer.unread.take size := by
      rw [ByteBuffer.unread, List.take_take, Nat.min_eq_left (by omega)]
    rw [if_pos (havailable.mpr hle), if_pos hle, ByteBuffer.get, Block.load,
      if_pos (Or.inr (by omega)), wrap_of_lt hlt, hbytes]
    rfl
  · rw [if_neg (mt havailable.mp hle), if_neg hle]

theorem readsInside_iff (hread : buffer.readHead ≤ buffer.writeHead)
    (hwrite : buffer.writeHead ≤ buffer.capacity) (hsize : size < 2 ^ 64) :
    ReadsInside buffer size ↔ buffer.readHead + size < 2 ^ 64 := by
  constructor
  · intro hinside
    by_contra hlt
    have hbeyond := bufferRead_of_wrap hread hwrite hsize (Nat.not_lt.mp hlt)
    rw [ReadsInside, hbeyond] at hinside
    split at hinside
    · cases hinside
    · cases hinside
  · exact readsInside_of_lt hread hwrite

end Read

section Strings

variable {buffer : ByteBuffer}

/-- No length is there, or not all of it. -/
theorem luabufferReadStringOn_of_none (stack : Nat) (hread : buffer.readHead ≤ buffer.writeHead)
    (hwrite : buffer.writeHead ≤ buffer.capacity) (hnone : decodeVarInt buffer.unread = none) :
    ∃ after, luabufferReadStringOn stack buffer = some (beyondLimit, after) := by
  obtain ⟨output, after, hcall, -⟩ := bufferReadVarInt_spec hread hwrite
  refine ⟨after, ?_⟩
  rw [luabufferReadStringOn, hcall, Option.bind_some]
  exact if_pos (readVarIntMoves_eq_zero_iff.mpr hnone)

/-- The length is read; what follows is the array and `buffer_read`. -/
theorem luabufferReadStringOn_of_decode (stack : Nat) {size length : Nat}
    (hread : buffer.readHead ≤ buffer.writeHead) (hwrite : buffer.writeHead ≤ buffer.capacity)
    (hdecode : decodeVarInt buffer.unread = some (size, length)) :
    size < 2 ^ 64 ∧ ∃ next, next.readHead = buffer.readHead + length ∧
      next.readHead ≤ next.writeHead ∧ next.writeHead ≤ next.capacity ∧
      next.unread = buffer.unread.drop length ∧
      luabufferReadStringOn stack buffer =
        if 0 < wrap (size + 1) ∧ wrap (size + 1) ≤ stack then
          pushRead (bufferRead next size) .string
        else none := by
  obtain ⟨output, next, hcall, hmoved, hread', hwrite', hunread, hlt, hvalue⟩ :=
    bufferReadVarInt_spec hread hwrite
  have hlength := readVarIntMoves_of_decode hdecode
  have hsize := hvalue size length hdecode
  rw [hlength] at hmoved hunread
  refine ⟨hsize ▸ hlt, next, hmoved, hread', hwrite', hunread, ?_⟩
  have hret : (readVarIntMoves buffer.unread).1 ≠ 0 := by
    rw [Ne, readVarIntMoves_eq_zero_iff, hdecode]
    exact Option.some_ne_none _
  rw [luabufferReadStringOn, hcall, Option.bind_some, hsize]
  exact if_neg hret

theorem readsStringInside_iff {stack : Nat} (hread : buffer.readHead ≤ buffer.writeHead)
    (hwrite : buffer.writeHead ≤ buffer.capacity) :
    ReadsStringInside stack buffer ↔ StringFits stack buffer := by
  cases hdecode : decodeVarInt buffer.unread with
  | none =>
      obtain ⟨after, hcall⟩ := luabufferReadStringOn_of_none stack hread hwrite hdecode
      constructor
      · intro _ size length hsome
        cases hdecode.symm.trans hsome
      · intro _
        exact ⟨beyondLimit, after, hcall, Or.inl rfl⟩
  | some varint =>
      obtain ⟨size, length⟩ := varint
      have hpositive := decodeVarInt_length_pos hdecode
      obtain ⟨hsize, next, hmoved, hread', hwrite', hunread, hcall⟩ :=
        luabufferReadStringOn_of_decode stack hread hwrite hdecode
      have hfits : StringFits stack buffer ↔
          size + 1 ≤ stack ∧ buffer.readHead + length + size < 2 ^ 64 := by
        constructor
        · intro h
          exact h size length hdecode
        · intro h size' length' hdecode'
          cases hdecode.symm.trans hdecode'
          exact h
      rw [hfits]
      constructor
      · rintro ⟨result, after, hresult, -⟩
        rw [hcall] at hresult
        split at hresult
        · rename_i harray
          by_cases hwrap : buffer.readHead + length + size < 2 ^ 64
          · rw [wrap_of_lt (by omega)] at harray
            exact ⟨harray.2, hwrap⟩
          · rw [pushRead, bufferRead_of_wrap hread' hwrite' hsize (by omega)] at hresult
            cases hresult
        · cases hresult
      · rintro ⟨harray, hlt⟩
        have hinside : ReadsInside next size := readsInside_of_lt hread' hwrite' (by omega)
        rw [wrap_of_lt (by omega), if_pos ⟨Nat.succ_pos size, harray⟩, pushRead, hinside] at hcall
        split at hcall
        · rw [Option.map_some] at hcall
          dsimp only at hcall
          split at hcall
          · exact ⟨_, _, hcall, Or.inl rfl⟩
          · refine ⟨_, _, hcall, Or.inr ⟨_, buffer.unread.take length,
              (buffer.unread.drop length).drop size, rfl, ?_⟩⟩
            rw [hunread, List.append_assoc, List.take_append_drop, List.take_append_drop]
        · exact ⟨_, _, hcall, Or.inl rfl⟩

end Strings

/-- For every buffer with its heads in order: `buffer_read` of a size keeps to the unread bytes
exactly if the read head and the size add up to less than 2^64, and `readString` exactly if the
length in front of the string, where there is a whole one, does so too and fits the array on the
stack. -/
theorem reads_inside_iff (buffer : ByteBuffer) (hread : buffer.readHead ≤ buffer.writeHead)
    (hwrite : buffer.writeHead ≤ buffer.capacity) (stack : Nat) :
    (∀ size : UInt64,
      ReadsInside buffer size.toNat ↔ buffer.readHead + size.toNat < 2 ^ 64) ∧
    (ReadsStringInside stack buffer ↔ StringFits stack buffer) :=
  ⟨fun size => readsInside_iff hread hwrite size.toNat_lt, readsStringInside_iff hread hwrite⟩

/-- The string "hi" and its length, with one more byte behind. -/
def shortString : ByteBuffer := ⟨⟨[2, 104, 105, 9], by simp⟩, 0, 4⟩

theorem reads_inside_shortString :
    ReadsInside shortString 4 ∧ ReadsStringInside 4096 shortString := by
  obtain ⟨hsize, hstring⟩ := reads_inside_iff shortString (by decide) (by decide) 4096
  refine ⟨(hsize 4).mpr (by decide), hstring.mpr ?_⟩
  intro size length hdecode
  obtain ⟨rfl, rfl⟩ := Prod.mk.inj (Option.some.inj hdecode)
  decide

/-- A read byte, and the one byte that stands for 2^64 - 1: with a size of as much the sum is 0,
and the copy is made; and `readString` takes it for the length of a string. -/
def wrappingSize : ByteBuffer := ⟨⟨[9, 0xFC], by simp⟩, 1, 2⟩

theorem size_wraps :
    ¬ ((∀ size : UInt64, ReadsInside wrappingSize size.toNat) ∧
      ReadsStringInside 8388608 wrappingSize) ∧
    ¬ ReadsInside wrappingSize (2 ^ 64 - 1) ∧ ¬ ReadsStringInside 8388608 wrappingSize := by
  have hsize : ¬ ReadsInside wrappingSize (2 ^ 64 - 1) := by
    rw [readsInside_iff (by decide) (by decide) (by decide)]
    decide
  have hstring : ¬ ReadsStringInside 8388608 wrappingSize := by
    rw [readsStringInside_iff (by decide) (by decide)]
    intro hfits
    exact absurd (hfits (2 ^ 64 - 1) 1 rfl).1 (by decide)
  exact ⟨fun h => hstring h.2, hsize, hstring⟩

end LuaMumble.Buffer
