import Mathlib.Data.Nat.Bitwise
import LuaMumble.Lib.LittleEndian

/-!
The byte buffer of `buffer.c`. Its heads are `uint64_t` and wrap. Its capacity
is the size of the block behind `data`: both are set together, and neither
changes where `realloc` fails. A store or a load outside the block is undefined
behaviour and has no result; so has a function that reaches one.
-/

namespace LuaMumble.Buffer

open Lib.LittleEndian

/-- A block of memory. `malloc` gives out at most PTRDIFF_MAX bytes. -/
structure Block where
  bytes : List UInt8
  length_lt : bytes.length < 2 ^ 63

/-- What the allocator does in one call of a function: for a size it has no memory,
or a block whose new bytes hold anything. -/
abbrev Heap := Nat → Option (Nat → UInt8)

structure ByteBuffer where
  data : Block
  readHead : Nat
  writeHead : Nat

def ByteBuffer.capacity (buffer : ByteBuffer) : Nat := buffer.data.bytes.length

/-- The value of a `uint64_t`. -/
def wrap (n : Nat) : Nat := n % 2 ^ 64

/-- `realloc` keeps the bytes that fit; on no block it is `malloc`. -/
def realloc (heap : Heap) (old : List UInt8) (size : Nat) : Option Block :=
  if h : size < 2 ^ 63 then
    (heap size).map fun fill =>
      ⟨old.take size ++ (List.range (size - old.length)).map fun i => fill (old.length + i), by
        simp only [List.length_append, List.length_take, List.length_map, List.length_range]
        omega⟩
  else none

def Block.store (block : Block) (start : Nat) (bytes : List UInt8) : Option Block :=
  if h : bytes = [] ∨ start + bytes.length ≤ block.bytes.length then
    some ⟨block.bytes.take start ++ bytes ++ block.bytes.drop (start + bytes.length), by
      have hlt := block.length_lt
      simp only [List.length_append, List.length_take, List.length_drop]
      rcases h with rfl | h
      · simp only [List.length_nil]
        omega
      · omega⟩
  else none

def Block.load (block : Block) (start size : Nat) : Option (List UInt8) :=
  if size = 0 ∨ start + size ≤ block.bytes.length then
    some ((block.bytes.drop start).take size)
  else none

/-- `buffer_init`; nothing where it returns NULL. -/
def bufferInit (heap : Heap) (size : Nat) : Option ByteBuffer :=
  (realloc heap [] size).map fun data => ⟨data, 0, 0⟩

/-- The capacity that `buffer_adjust` asks for. -/
def grownCapacity (capacity newHead : Nat) : Nat :=
  let grow15x := wrap (capacity + capacity >>> 1)
  let grow2x := wrap (capacity * 2)
  let growHeadroom := wrap (newHead + newHead >>> 1)
  let newCapacity := if grow15x < newHead then grow2x else grow15x
  if newCapacity < newHead then growHeadroom else newCapacity

def bufferResize (heap : Heap) (buffer : ByteBuffer) (newCapacity : Nat) : Nat × ByteBuffer :=
  match realloc heap buffer.data.bytes newCapacity with
  | some newData => (1, { buffer with data := newData })
  | none => (0, buffer)

def bufferAdjust (heap : Heap) (buffer : ByteBuffer) (size : Nat) : Nat × ByteBuffer :=
  let newHead := wrap (buffer.writeHead + size)
  if newHead > buffer.capacity then
    bufferResize heap buffer (grownCapacity buffer.capacity newHead)
  else (0, buffer)

/-- Stores at the write head and moves it. -/
def ByteBuffer.put (buffer : ByteBuffer) (bytes : List UInt8) : Option ByteBuffer :=
  (buffer.data.store buffer.writeHead bytes).map fun data =>
    { buffer with data := data, writeHead := wrap (buffer.writeHead + bytes.length) }

/-- Loads at the read head and moves it. -/
def ByteBuffer.get (buffer : ByteBuffer) (size : Nat) : Option (List UInt8 × ByteBuffer) :=
  (buffer.data.load buffer.readHead size).map fun bytes =>
    (bytes, { buffer with readHead := wrap (buffer.readHead + size) })

/-- Not the early return of the macro `buffer_available`. -/
def bufferAvailable (buffer : ByteBuffer) (size : Nat) : Prop :=
  wrap (buffer.readHead + size) ≤ buffer.writeHead

instance (buffer : ByteBuffer) (size : Nat) : Decidable (bufferAvailable buffer size) :=
  inferInstanceAs (Decidable (_ ≤ _))

def bufferWrite (heap : Heap) (buffer : ByteBuffer) (data : List UInt8) :
    Option (Nat × ByteBuffer) :=
  ((bufferAdjust heap buffer data.length).2.put data).map fun buffer => (data.length, buffer)

/-- `buffer_read`: what it returns, and what it moved to `output`. -/
def bufferRead (buffer : ByteBuffer) (size : Nat) :
    Option (Nat × List UInt8 × ByteBuffer) :=
  if bufferAvailable buffer size then
    (buffer.get size).map fun (output, buffer) => (size, output, buffer)
  else some (0, [], buffer)

def bufferInitData (heap : Heap) (data : List UInt8) : Option ByteBuffer :=
  (bufferInit heap data.length).bind fun buffer =>
    (bufferWrite heap buffer data).map fun (_, buffer) => { buffer with readHead := 0 }

def bufferReset (buffer : ByteBuffer) : ByteBuffer :=
  { buffer with readHead := 0, writeHead := 0 }

def bufferFlip (buffer : ByteBuffer) : ByteBuffer :=
  { buffer with readHead := 0 }

/-- `buffer_pack`; `memmove` reads all of the remaining bytes first. -/
def bufferPack (buffer : ByteBuffer) : Option ByteBuffer :=
  if buffer.readHead = buffer.writeHead then some (bufferReset buffer)
  else if buffer.readHead > 0 then
    let remaining := wrap (buffer.writeHead + 2 ^ 64 - buffer.readHead)
    (buffer.data.load buffer.readHead remaining).bind fun bytes =>
      (buffer.data.store 0 bytes).map fun data => ⟨data, 0, remaining⟩
  else some buffer

def bufferLength (buffer : ByteBuffer) : Nat :=
  wrap (buffer.writeHead + 2 ^ 64 - buffer.readHead)

def bufferIsEmpty (buffer : ByteBuffer) : Bool :=
  buffer.writeHead == buffer.readHead

def bufferWriteByte (heap : Heap) (buffer : ByteBuffer) (value : UInt8) :
    Option (Nat × ByteBuffer) :=
  ((bufferAdjust heap buffer 1).2.put [value]).map fun buffer => (1, buffer)

def bufferReadByte (buffer : ByteBuffer) : Option (Nat × List UInt8 × ByteBuffer) :=
  if bufferAvailable buffer 1 then
    (buffer.get 1).map fun (output, buffer) => (1, output, buffer)
  else some (0, [], buffer)

/-- The types for which `buffer_rw` defines a reader and a writer. -/
inductive CType where
  | unsignedByte
  | short
  | unsignedShort
  | int
  | unsignedInt
  | long
  | float
  | double
  deriving DecidableEq

def CType.size : CType → Nat
  | .unsignedByte => 1
  | .short => 2
  | .unsignedShort => 2
  | .int => 4
  | .unsignedInt => 4
  | .long => 8
  | .float => 4
  | .double => 8

/-- The conversion of a `double` to each of the types, and the bytes it gives the
union `convert`. -/
structure Conversion (Double : Type*) where
  bytes : CType → Double → List UInt8
  length_bytes : ∀ type value, (bytes type value).length = type.size

/-- The conversion of doubles that hold an integer to the integer types, in two's
complement and little endian. -/
def integerConversion : Conversion Int where
  bytes type value := digits type.size (value % 2 ^ (8 * type.size)).toNat
  length_bytes _ _ := digits_length _ _

/-- `buffer_write##name`. -/
def bufferWriteAs {Double : Type*} (conversion : Conversion Double) (type : CType) (heap : Heap)
    (buffer : ByteBuffer) (value : Double) : Option (Nat × ByteBuffer) :=
  (bufferWrite heap buffer (conversion.bytes type value)).map fun (_, buffer) =>
    (type.size, buffer)

/-- `buffer_read##name`. -/
def bufferReadAs (type : CType) (buffer : ByteBuffer) : Option (Nat × List UInt8 × ByteBuffer) :=
  bufferRead buffer type.size

/-- The six branches of `buffer_writeVarInt` that write a number, with 7 bits, 14
and so on up to 64. -/
def varIntBytes (value : Nat) : List UInt8 :=
  let byte (shift : Nat) : UInt8 := UInt8.ofNat (value >>> shift)
  if value < 0x80 then [byte 0]
  else if value < 0x4000 then [byte 8 ||| 0x80, byte 0]
  else if value < 0x200000 then [byte 16 ||| 0xC0, byte 8, byte 0]
  else if value < 0x10000000 then [byte 24 ||| 0xE0, byte 16, byte 8, byte 0]
  else if value < 0x100000000 then [0xF0, byte 24, byte 16, byte 8, byte 0]
  else [0xF4, byte 56, byte 48, byte 40, byte 32, byte 24, byte 16, byte 8, byte 0]

/-- What `buffer_writeVarInt` stores after each of its calls of `buffer_adjust`.
A number close to 2^64 is one above a negative one: the last four have a byte of
their own, the others a flag byte and then their complement. -/
def varIntChunks (value : Nat) : List (List UInt8) :=
  if 2 ^ 63 ≤ value ∧ 2 ^ 64 - 1 - value < 0x100000000 then
    let value := 2 ^ 64 - 1 - value
    if value ≤ 0x3 then [[0xFC ||| UInt8.ofNat value]]
    else [[0xF8], varIntBytes value]
  else [varIntBytes value]

/-- Stores the chunks, and makes room for each of them first. -/
def ByteBuffer.putChunks (heap : Heap) : ByteBuffer → List (List UInt8) → Option ByteBuffer
  | buffer, [] => some buffer
  | buffer, chunk :: rest =>
      ((bufferAdjust heap buffer chunk.length).2.put chunk).bind fun buffer =>
        buffer.putChunks heap rest

def bufferWriteVarInt (heap : Heap) (buffer : ByteBuffer) (value : Nat) :
    Option (Nat × ByteBuffer) :=
  (buffer.putChunks heap (varIntChunks value)).map fun buffer =>
    ((varIntChunks value).flatten.length, buffer)

/-- `v << 8 * n | byte1 << 8 * (n - 1) | ... | byten`. -/
def shiftedOr (v : UInt8) (bytes : List UInt8) : Nat :=
  bytes.foldl (fun output byte => output <<< 8 ||| byte.toNat) v.toNat

/-- Reads `size` bytes more of a varint that begins with `v`. -/
def readVarIntRest (buffer : ByteBuffer) (v : UInt8) (size : Nat) :
    Option (Nat × Nat × ByteBuffer) :=
  if bufferAvailable buffer size then
    (buffer.get size).map fun (bytes, buffer) => (size + 1, shiftedOr v bytes, buffer)
  else some (0, 0, buffer)

/-- `buffer_readVarInt` after the first byte: what it returns, `*output` and the
buffer. A flag byte makes it call itself. -/
def readVarIntFrom (recurse : ByteBuffer → Option (Nat × Nat × ByteBuffer)) (v : UInt8)
    (buffer : ByteBuffer) : Option (Nat × Nat × ByteBuffer) :=
  if v &&& 0x80 = 0x00 then some (1, (v &&& 0x7F).toNat, buffer)
  else if v &&& 0xC0 = 0x80 then readVarIntRest buffer (v &&& 0x3F) 1
  else if v &&& 0xF0 = 0xF0 then
    if v &&& 0xFC = 0xF0 then readVarIntRest buffer 0 4
    else if v &&& 0xFC = 0xF4 then readVarIntRest buffer 0 8
    else if v &&& 0xFC = 0xF8 then
      if bufferAvailable buffer 1 then
        (recurse buffer).map fun (size, output, buffer) => (size, 2 ^ 64 - 1 - output, buffer)
      else some (0, 0, buffer)
    else if v &&& 0xFC = 0xFC then some (1, 2 ^ 64 - 1 - (v &&& 0x03).toNat, buffer)
    else some (1, 0, buffer)
  else if v &&& 0xF0 = 0xE0 then readVarIntRest buffer (v &&& 0x0F) 3
  else if v &&& 0xE0 = 0xC0 then readVarIntRest buffer (v &&& 0x1F) 2
  else some (0, 0, buffer)

/-- The recursion of `buffer_readVarInt`. Each call takes a byte from the block
first, so that a depth of its size never runs out. -/
def readVarInt : Nat → ByteBuffer → Option (Nat × Nat × ByteBuffer)
  | 0, _ => none
  | depth + 1, buffer =>
      if bufferAvailable buffer 1 then
        (buffer.get 1).bind fun (first, buffer) =>
          readVarIntFrom (readVarInt depth) (first.headD 0) buffer
      else some (0, 0, buffer)

def bufferReadVarInt (buffer : ByteBuffer) : Option (Nat × Nat × ByteBuffer) :=
  readVarInt (buffer.capacity + 1) buffer

end LuaMumble.Buffer
