import LuaMumble.Buffer.Methods
import LuaMumble.Buffer.VarInt

/-!
The order of the heads under the methods of `mumble_buffer`. It holds when a
buffer is created, and each method keeps it, with three exceptions. `seek` puts
the heads where it is told; a method that writes stores its bytes whether or not
`buffer_adjust` has found room for them; and the length in front of a string may
be so large that the read head wraps. What each of them needs is a condition on
the state before the call, and it decides whether the heads stay in order.
-/

namespace LuaMumble.Buffer

open Lib

variable {Double : Type*}

/-- There is a buffer, and `read_head <= write_head <= capacity`. -/
def HeadsInOrder (buffer : Option ByteBuffer) : Prop :=
  ∃ b, buffer = some b ∧ b.readHead ≤ b.writeHead ∧ b.writeHead ≤ b.capacity

/-- What a method stores, in the chunks that it makes room for. -/
def Method.chunks (arithmetic : Arithmetic Double) : Method Double → List (List UInt8)
  | .write data => [data]
  | .writeBuffer found => [found]
  | .writeByte value => [[UInt8.ofNat (toUnsigned value)]]
  | .writeShort value => [arithmetic.bytes .short (arithmetic.ofInteger value.toInt)]
  | .writeInt value => [arithmetic.bytes .int (arithmetic.ofInteger value.toInt)]
  | .writeVarInt value => varIntChunks (toUnsigned value)
  | .writeFloat value => [arithmetic.bytes .float value]
  | .writeDouble value => [arithmetic.bytes .double value]
  | .writeString string => varIntChunks string.length ++ [string]
  | .writeBool value => [[if value then 1 else 0]]
  | _ => []

/-- Where `seek` is told to put a head. -/
def seekTarget (buffer : ByteBuffer) (whence : SeekWhence) (offset : Int64) (head : Nat) : Int :=
  match whence with
  | .set => offset.toInt
  | .cur => head + offset.toInt
  | .atEnd => buffer.capacity + offset.toInt

/-- The new heads are in order. -/
def SeekInOrder (buffer : ByteBuffer) (mode : SeekMode) (whence : SeekWhence)
    (offset : Int64) : Prop :=
  let read := seekTarget buffer whence offset buffer.readHead
  let write := seekTarget buffer whence offset buffer.writeHead
  match mode with
  | .read => 0 ≤ read ∧ read ≤ buffer.writeHead
  | .write => buffer.readHead ≤ write ∧ write ≤ buffer.capacity
  | .both => 0 ≤ read ∧ write ≤ buffer.capacity

/-- The length in front of a string does not take the read head past 2^64. -/
def StringInOrder (buffer : ByteBuffer) : Prop :=
  ∀ ret size after, bufferReadVarInt buffer = some (ret, size, after) → ret ≠ 0 →
    after.readHead + size < 2 ^ 64

/-- What a call needs to leave the heads in order. -/
def KeepsOrder (arithmetic : Arithmetic Double) (buffer : ByteBuffer)
    (call : MethodCall Double) : Prop :=
  match call.method with
  | .seek mode whence offset => SeekInOrder buffer mode whence offset
  | .readString => StringInOrder buffer
  | method =>
      ChunksFit call.heap buffer.capacity buffer.writeHead
        ((method.chunks arithmetic).map List.length)

theorem headsInOrder_some (buffer : ByteBuffer) : HeadsInOrder (some buffer) ↔
    buffer.readHead ≤ buffer.writeHead ∧ buffer.writeHead ≤ buffer.capacity := by
  constructor
  · rintro ⟨_, hb, hle⟩
    cases hb
    exact hle
  · intro hle
    exact ⟨buffer, rfl, hle⟩

theorem headsInOrder_of_stores {q : RewindQueue UInt8} {buffer : ByteBuffer}
    (hstores : Stores q buffer) : HeadsInOrder (some buffer) :=
  ⟨buffer, rfl, hstores.le⟩

theorem exists_stores {buffer : ByteBuffer} (h : HeadsInOrder (some buffer)) :
    ∃ q, Stores q buffer := by
  obtain ⟨hread, hwrite⟩ := (headsInOrder_some buffer).mp h
  exact RewindQueue.Represents.exists_of_le hread hwrite

section Seek

/-- A head in the block, moved without leaving the numbers of 64 bits, is where it
was sent; otherwise it is beyond any block. -/
theorem moveHead_spec (head : Nat) (hhead : head < 2 ^ 63) (offset : Int64) :
    (0 ≤ (head : Int) + offset.toInt → (moveHead head offset : Int) = head + offset.toInt) ∧
      ((head : Int) + offset.toInt < 0 → 2 ^ 63 ≤ moveHead head offset) := by
  have hlow := offset.le_toInt
  have hhigh := offset.toInt_lt
  unfold moveHead wrap toUnsigned
  omega

/-- `seek` decides on the order of the heads by where it is told to put them. -/
theorem luabufferSeek_iff {buffer : ByteBuffer} (h : HeadsInOrder (some buffer)) (mode : SeekMode)
    (whence : SeekWhence) (offset : Int64) :
    HeadsInOrder ((luabufferSeek buffer mode whence offset).map Prod.snd) ↔
      SeekInOrder buffer mode whence offset := by
  obtain ⟨hread, hwrite⟩ := (headsInOrder_some buffer).mp h
  have hcapacity := buffer.capacity_lt
  have hset := moveHead_spec 0 (Nat.two_pow_pos 63) offset
  have hreadHead := moveHead_spec buffer.readHead (by omega) offset
  have hwriteHead := moveHead_spec buffer.writeHead (by omega) offset
  have hend := moveHead_spec buffer.capacity hcapacity offset
  have hmoved (rh wh : Nat) : HeadsInOrder (some { buffer with readHead := rh, writeHead := wh }) ↔
      rh ≤ wh ∧ wh ≤ buffer.capacity := headsInOrder_some _
  cases mode with
  | read =>
      cases whence <;>
        simp only [luabufferSeek, Option.map_some, hmoved, SeekInOrder, seekTarget] <;> omega
  | write =>
      cases whence <;>
        simp only [luabufferSeek, Option.map_some, hmoved, SeekInOrder, seekTarget] <;> omega
  | both =>
      cases whence <;>
        simp only [luabufferSeek, Option.map_some, hmoved, SeekInOrder, seekTarget] <;> omega

end Seek

section Total

variable {q : RewindQueue UInt8} {buffer : ByteBuffer}

/-- A call that returns with the heads in order. -/
def Returns (call : Option (LuaResult × ByteBuffer)) : Prop :=
  ∃ result after q, call = some (result, after) ∧ Stores q after

theorem Returns.headsInOrder {call : Option (LuaResult × ByteBuffer)} (h : Returns call) :
    HeadsInOrder (call.map Prod.snd) := by
  obtain ⟨result, after, q, rfl, hstores⟩ := h
  exact headsInOrder_of_stores hstores

theorem returns_pushRead {size : Nat} (hstores : Stores q buffer)
    (hsize : buffer.readHead + size < 2 ^ 64) (push : List UInt8 → LuaValue) :
    Returns (pushRead (bufferRead buffer size) push) := by
  obtain ⟨after, hread, hstores', _⟩ := bufferRead_spec hstores hsize
  rw [pushRead, hread, Option.map_some]
  dsimp only
  split
  · exact ⟨_, after, _, rfl, hstores'⟩
  · exact ⟨_, after, _, rfl, hstores'⟩

theorem returns_readAs (type : CType) (hstores : Stores q buffer) (push : List UInt8 → LuaValue) :
    Returns (pushRead (bufferReadAs type buffer) push) := by
  have hheads := hstores.le
  have hcapacity := buffer.capacity_lt
  have hsize : type.size ≤ 8 := by
    cases type <;> decide
  exact returns_pushRead hstores (by omega) push

theorem returns_readByte (hstores : Stores q buffer) (push : List UInt8 → LuaValue) :
    Returns (pushRead (bufferReadByte buffer) push) := by
  have hheads := hstores.le
  have hcapacity := buffer.capacity_lt
  rw [bufferReadByte_eq_read]
  exact returns_pushRead hstores (by omega) push

theorem returns_readVarInt (hstores : Stores q buffer) :
    Returns (luabufferReadVarInt buffer) := by
  obtain ⟨ret, output, after, q', hread, _, hstores'⟩ := bufferReadVarInt_total hstores
  rw [luabufferReadVarInt, hread, Option.map_some]
  dsimp only
  split
  · exact ⟨_, after, q', rfl, hstores'⟩
  · exact ⟨_, after, q', rfl, hstores'⟩

/-- `read`, by induction on its arguments: what the allocator has no memory for is
not read. -/
theorem returns_read (heap : Heap) (arguments : List ReadArgument) (pushed : List LuaValue)
    (hstores : Stores q buffer) : Returns (luabufferRead heap buffer pushed arguments) := by
  induction arguments generalizing q buffer pushed with
  | nil => exact ⟨_, buffer, q, rfl, hstores⟩
  | cons argument rest ih =>
      unfold luabufferRead
      split
      · exact ⟨_, buffer, q, rfl, hstores⟩
      · rename_i size _
        split
        · exact ⟨_, buffer, q, rfl, hstores⟩
        · rename_i block hblock
          have hheads := hstores.le
          have hcapacity := buffer.capacity_lt
          have hsize := (granted_of_realloc hblock).1
          obtain ⟨after, hread, hstores', _⟩ :=
            bufferRead_spec (n := size) hstores (by omega)
          rw [hread, Option.bind_some]
          dsimp only
          split
          · exact ⟨_, after, _, rfl, hstores'⟩
          · exact ih _ hstores'

/-- The byte that an index names is one of the block. -/
theorem returns_index (hstores : Stores q buffer) (key : IndexKey) :
    Returns (luabufferIndex buffer key) := by
  have hheads := hstores.le
  have hlength := bufferLength_spec hstores
  have hpending := hstores.pending_length
  cases key with
  | byte index =>
      simp only [luabufferIndex]
      split
      · rename_i hindex
        have hload : (index.toInt % 2 ^ 64).toNat + 1 ≤ buffer.data.bytes.length := by
          have hcapacity : buffer.capacity = buffer.data.bytes.length := rfl
          omega
        rw [Block.load, if_pos (Or.inr hload), Option.map_some]
        exact ⟨_, buffer, q, rfl, hstores⟩
      · exact ⟨_, buffer, q, rfl, hstores⟩
  | length => exact ⟨_, buffer, q, rfl, hstores⟩
  | capacity => exact ⟨_, buffer, q, rfl, hstores⟩
  | readHead => exact ⟨_, buffer, q, rfl, hstores⟩
  | writeHead => exact ⟨_, buffer, q, rfl, hstores⟩
  | other => exact ⟨_, buffer, q, rfl, hstores⟩

theorem readString_returns (hstores : Stores q buffer) (h : StringInOrder buffer) :
    Returns (luabufferReadString buffer) := by
  obtain ⟨ret, size, after, q', hread, _, hstores'⟩ := bufferReadVarInt_total hstores
  rw [luabufferReadString, hread, Option.bind_some]
  dsimp only
  by_cases hret : ret = 0
  · rw [if_pos hret]
    exact ⟨_, after, q', rfl, hstores'⟩
  · rw [if_neg hret]
    exact returns_pushRead hstores' (h ret size after hread hret) _

/-- A length that wraps the read head passes the test of `buffer_available`, and
the load then leaves the block. -/
theorem readString_beyond (hstores : Stores q buffer) (h : ¬StringInOrder buffer) :
    luabufferReadString buffer = none := by
  obtain ⟨ret, size, after, q', hread, hlt, hstores'⟩ := bufferReadVarInt_total hstores
  have hheads := hstores'.le
  have hcapacity := after.capacity_lt
  have hlength : after.capacity = after.data.bytes.length := rfl
  have hwrong : ret ≠ 0 ∧ ¬after.readHead + size < 2 ^ 64 := by
    by_contra hfine
    apply h
    intro ret' size' after' hread' hret'
    cases hread.symm.trans hread'
    by_contra hsize
    exact hfine ⟨hret', hsize⟩
  obtain ⟨hret, hsize⟩ := hwrong
  have havailable : bufferAvailable after size := by
    rw [bufferAvailable, wrap]
    omega
  have hbeyond : ¬ (size = 0 ∨ after.readHead + size ≤ after.data.bytes.length) := by omega
  rw [luabufferReadString, hread, Option.bind_some]
  dsimp only
  rw [if_neg hret, pushRead, bufferRead, if_pos havailable, ByteBuffer.get, Block.load,
    if_neg hbeyond]
  rfl

/-- `readString` gets past its read unless the length wraps the read head. -/
theorem readString_iff (hstores : Stores q buffer) :
    HeadsInOrder ((luabufferReadString buffer).map Prod.snd) ↔ StringInOrder buffer := by
  constructor
  · rintro ⟨after, hafter, _⟩
    by_contra h
    rw [readString_beyond hstores h] at hafter
    cases hafter
  · intro h
    exact (readString_returns hstores h).headsInOrder

end Total

section Write

variable {q : RewindQueue UInt8} {buffer : ByteBuffer} {heap : Heap}

/-- A method that stores chunks keeps the heads in order just when the chunks fit. -/
theorem writes_iff {call : Option (LuaResult × ByteBuffer)} {chunks : List (List UInt8)}
    (hstores : Stores q buffer) (hcall : call.map Prod.snd = buffer.putChunks heap chunks) :
    HeadsInOrder (call.map Prod.snd) ↔
      ChunksFit heap buffer.capacity buffer.writeHead (chunks.map List.length) := by
  rw [hcall]
  constructor
  · rintro ⟨after, hput, _⟩
    exact fit_of_putChunks hstores hput
  · intro hfit
    obtain ⟨after, hput, hstores'⟩ := putChunks_of_fit hstores hfit
    rw [hput]
    exact headsInOrder_of_stores hstores'

theorem map_pushWritten (call : Option (Nat × ByteBuffer)) :
    (pushWritten call).map Prod.snd = call.map Prod.snd := by
  rw [pushWritten, Option.map_map]
  rfl

end Write

/-- The methods that store bytes. -/
def Method.writes : Method Double → Bool
  | .write _ => true
  | .writeBuffer _ => true
  | .writeByte _ => true
  | .writeShort _ => true
  | .writeInt _ => true
  | .writeVarInt _ => true
  | .writeFloat _ => true
  | .writeDouble _ => true
  | .writeString _ => true
  | .writeBool _ => true
  | _ => false

/-- A method that writes stores its chunks one after another. -/
theorem perform_chunks (arithmetic : Arithmetic Double) (heap : Heap) (buffer : ByteBuffer)
    (method : Method Double) (hwrites : method.writes = true) :
    (method.perform arithmetic heap buffer).map Prod.snd =
      buffer.putChunks heap (method.chunks arithmetic) := by
  have hwrite (data : List UInt8) : (pushWritten (bufferWrite heap buffer data)).map Prod.snd =
      buffer.putChunks heap [data] := by
    rw [map_pushWritten, bufferWrite_eq_chunks, Option.map_map]
    exact Option.map_id'
  have hwriteByte (value : UInt8) :
      (pushWritten (bufferWriteByte heap buffer value)).map Prod.snd =
        buffer.putChunks heap [[value]] := by
    rw [map_pushWritten, bufferWriteByte_eq_chunks, Option.map_map]
    exact Option.map_id'
  have hwriteAs (type : CType) (value : Double) :
      (pushWritten (bufferWriteAs arithmetic.toConversion type heap buffer value)).map Prod.snd =
        buffer.putChunks heap [arithmetic.bytes type value] := by
    rw [map_pushWritten, bufferWriteAs_eq_chunks, Option.map_map]
    exact Option.map_id'
  cases method with
  | write data => exact hwrite data
  | writeBuffer found => exact hwrite found
  | writeByte value => exact hwriteByte _
  | writeShort value => exact hwriteAs .short _
  | writeInt value => exact hwriteAs .int _
  | writeVarInt value =>
      rw [Method.perform, luabufferWriteVarInt, map_pushWritten, bufferWriteVarInt, Option.map_map]
      exact Option.map_id'
  | writeFloat value => exact hwriteAs .float _
  | writeDouble value => exact hwriteAs .double _
  | writeString string =>
      rw [Method.perform, luabufferWriteString, bufferWriteVarInt, Method.chunks, putChunks_append]
      cases hfirst : buffer.putChunks heap (varIntChunks string.length) with
      | none => rfl
      | some next =>
          rw [Option.map_some, Option.bind_some, Option.bind_some, map_pushWritten,
            bufferWrite_eq_chunks, Option.map_map]
          exact Option.map_id'
  | writeBool value => exact hwriteByte _
  | _ => cases hwrites

/-- A method that does not write returns, but for `seek` and `readString`. -/
theorem perform_returns (arithmetic : Arithmetic Double) (heap : Heap) {buffer : ByteBuffer}
    {q : RewindQueue UInt8} (hstores : Stores q buffer) (method : Method Double)
    (hwrites : method.writes = false)
    (hseek : ∀ mode whence offset, method ≠ .seek mode whence offset)
    (hstring : method ≠ .readString) : Returns (method.perform arithmetic heap buffer) := by
  cases method with
  | pack =>
      obtain ⟨after, hpack, hstores', _⟩ := bufferPack_spec hstores
      refine ⟨.values [], after, q.pack, ?_, hstores'⟩
      rw [Method.perform, luabufferPack, hpack, Option.map_some]
  | reset => exact ⟨_, _, _, rfl, bufferReset_spec buffer⟩
  | flip => exact ⟨_, _, _, rfl, bufferFlip_spec hstores⟩
  | read arguments => exact returns_read heap arguments [] hstores
  | readByte => exact returns_readByte hstores fun bytes => .integer (LittleEndian.value bytes)
  | readShort => exact returns_readAs .short hstores fun bytes => .integer (signedValue bytes)
  | readInt => exact returns_readAs .int hstores fun bytes => .integer (signedValue bytes)
  | readVarInt => exact returns_readVarInt hstores
  | readFloat => exact returns_readAs .float hstores .number
  | readDouble => exact returns_readAs .double hstores .number
  | readString => exact absurd rfl hstring
  | readBool =>
      exact returns_readByte hstores fun bytes => .boolean (LittleEndian.value bytes != 0)
  | isEmpty => exact ⟨_, buffer, q, rfl, hstores⟩
  | seek mode whence offset => exact absurd rfl (hseek mode whence offset)
  | len => exact ⟨_, buffer, q, rfl, hstores⟩
  | index key => exact returns_index hstores key
  | tostring => exact ⟨_, buffer, q, rfl, hstores⟩
  | gc => exact ⟨_, _, .empty, rfl, RewindQueue.Represents.empty _⟩
  | _ => cases hwrites

/-- The step: each call keeps the heads in order just when its condition is met. -/
theorem perform_iff (arithmetic : Arithmetic Double) {buffer : ByteBuffer}
    (h : HeadsInOrder (some buffer)) (call : MethodCall Double) :
    HeadsInOrder ((call.method.perform arithmetic call.heap buffer).map Prod.snd) ↔
      KeepsOrder arithmetic buffer call := by
  obtain ⟨q, hstores⟩ := exists_stores h
  obtain ⟨heap, method⟩ := call
  have hwrite (hwrites : method.writes = true) :
      HeadsInOrder ((method.perform arithmetic heap buffer).map Prod.snd) ↔
        ChunksFit heap buffer.capacity buffer.writeHead
          ((method.chunks arithmetic).map List.length) :=
    writes_iff hstores (perform_chunks arithmetic heap buffer method hwrites)
  have hother (hwrites : method.writes = false)
      (hseek : ∀ mode whence offset, method ≠ .seek mode whence offset)
      (hstring : method ≠ .readString) :
      HeadsInOrder ((method.perform arithmetic heap buffer).map Prod.snd) ↔ True :=
    iff_true_intro
      (perform_returns arithmetic heap hstores method hwrites hseek hstring).headsInOrder
  cases method with
  | seek mode whence offset => exact luabufferSeek_iff h mode whence offset
  | readString => exact readString_iff hstores
  | _ => first | exact hwrite rfl | exact hother rfl nofun nofun

/-- After a call other than `seek` that returns, the heads are in order. -/
theorem HeadsInOrder.perform (arithmetic : Arithmetic Double) {buffer after : ByteBuffer}
    (h : HeadsInOrder (some buffer)) {call : MethodCall Double} {result : LuaResult}
    (hseek : ∀ mode whence offset, call.method ≠ .seek mode whence offset)
    (hcall : call.method.perform arithmetic call.heap buffer = some (result, after)) :
    HeadsInOrder (some after) := by
  obtain ⟨q, hstores⟩ := exists_stores h
  have hsnd : (call.method.perform arithmetic call.heap buffer).map Prod.snd = some after := by
    rw [hcall]
    rfl
  rcases hwrites : call.method.writes with _ | _
  · by_cases hstring : call.method = .readString
    · rw [hstring] at hcall
      by_cases hlength : StringInOrder buffer
      · have hreturned := (readString_returns hstores hlength).headsInOrder
        rwa [show luabufferReadString buffer = some (result, after) from hcall] at hreturned
      · rw [Method.perform, readString_beyond hstores hlength] at hcall
        cases hcall
    · have hreturned := (perform_returns arithmetic call.heap hstores call.method hwrites hseek
        hstring).headsInOrder
      rwa [hsnd] at hreturned
  · have hchunks := perform_chunks arithmetic call.heap buffer call.method hwrites
    rw [hsnd] at hchunks
    have hfit := fit_of_putChunks hstores hchunks.symm
    obtain ⟨after', hput, hstores'⟩ := putChunks_of_fit hstores hfit
    cases hchunks.trans hput
    exact headsInOrder_of_stores hstores'

theorem headsInOrder_new {heap : Heap} {argument : NewArgument} {buffer : ByteBuffer}
    (hnew : mumbleBufferNew heap argument = some buffer) : HeadsInOrder (some buffer) := by
  have hinit {size : Nat} (h : bufferInit heap size = some buffer) :
      HeadsInOrder (some buffer) := by
    obtain ⟨data, _, rfl⟩ := Option.map_eq_some_iff.mp h
    exact headsInOrder_of_stores (RewindQueue.Represents.empty _)
  cases argument with
  | number n => exact hinit hnew
  | none => exact hinit hnew
  | string data =>
      obtain ⟨first, hfirst, _⟩ := Option.bind_eq_some_iff.mp hnew
      obtain ⟨block, hblock, _⟩ := Option.map_eq_some_iff.mp hfirst
      obtain ⟨buffer', hinitData, hstores, _⟩ := bufferInitData_spec (granted_of_realloc hblock)
      cases hnew.symm.trans hinitData
      exact headsInOrder_of_stores hstores

/-- The heads of a buffer stay in order through a run of calls just when each call
meets its condition; then no call stores outside the block. -/
theorem heads_in_order_iff (arithmetic : Arithmetic Double) (heap : Heap) (argument : NewArgument)
    (buffer : ByteBuffer) (hnew : mumbleBufferNew heap argument = some buffer)
    (calls : List (MethodCall Double)) :
    (∀ n ≤ calls.length,
      HeadsInOrder (Machine.final (methodStep arithmetic) (some buffer) (calls.take n))) ↔
      Machine.Along (methodStep arithmetic)
        (fun buffer call => ∀ b, buffer = some b → KeepsOrder arithmetic b call)
        (some buffer) calls := by
  refine Machine.holds_along_iff (methodStep arithmetic) HeadsInOrder ?_ (some buffer) calls
    (headsInOrder_new hnew)
  rintro state call ⟨b, rfl, hheads⟩
  have hstep : (methodStep arithmetic (some b) call).2 =
      (call.method.perform arithmetic call.heap b).map Prod.snd := by
    rw [methodStep, Option.bind_some]
    cases call.method.perform arithmetic call.heap b with
    | none => rfl
    | some answer => rfl
  rw [hstep, perform_iff arithmetic ⟨b, rfl, hheads⟩]
  constructor
  · intro hkeeps b' hb
    cases hb
    exact hkeeps
  · intro hkeeps
    exact hkeeps b rfl

/-- A buffer without capacity, written and rewound. -/
theorem heads_in_order_rewind :
    let heap : Heap := fun _ => some fun _ => 0
    let calls : List (MethodCall Int) :=
      [⟨heap, .writeByte 7⟩, ⟨heap, .readByte⟩, ⟨heap, .seek .read .set 0⟩]
    ∃ buffer, mumbleBufferNew heap (.number 0) = some buffer ∧
      ((∀ n ≤ calls.length,
        HeadsInOrder (Machine.final (methodStep integerArithmetic) (some buffer)
          (calls.take n))) ↔
        Machine.Along (methodStep integerArithmetic)
          (fun buffer call => ∀ b, buffer = some b → KeepsOrder integerArithmetic b call)
          (some buffer) calls) := by
  intro heap calls
  have hnew : mumbleBufferNew heap (.number 0) = some ⟨⟨[], by simp⟩, 0, 0⟩ := rfl
  exact ⟨_, hnew, heads_in_order_iff integerArithmetic heap (.number 0) _ hnew calls⟩

/-- The read head of an empty buffer, sent one byte ahead. -/
theorem seek_passes_write_head :
    ¬ ∀ (arithmetic : Arithmetic Int) (heap : Heap) (argument : NewArgument) (buffer : ByteBuffer),
      mumbleBufferNew heap argument = some buffer → ∀ calls : List (MethodCall Int),
      ∀ n ≤ calls.length,
        HeadsInOrder (Machine.final (methodStep arithmetic) (some buffer) (calls.take n)) := by
  intro h
  let heap : Heap := fun _ => some fun _ => 0
  have hnew : mumbleBufferNew heap (.number 0) = some ⟨⟨[], by simp⟩, 0, 0⟩ := rfl
  have hafter := h integerArithmetic heap (.number 0) _ hnew [⟨heap, .seek .read .set 1⟩] 1
    (le_refl _)
  obtain ⟨hread, _⟩ := (headsInOrder_some ⟨⟨[], by simp⟩, 1, 0⟩).mp hafter
  exact absurd hread (by decide)

end LuaMumble.Buffer
