import LuaMumble.Buffer.State

/-!
The methods of `mumble_buffer`, as a script calls them. An argument is what the
checks of the Lua API make of it; one of the wrong type raises an error before
the buffer is touched and is left out. The result of a method is the values it
pushes or the message of the error it raises.
-/

namespace LuaMumble.Buffer

open Lib.LittleEndian

variable {Double : Type*}

/-- The integers of an integer type. -/
def CType.Holds : CType → Int → Prop
  | .unsignedByte, n => 0 ≤ n ∧ n < 2 ^ 8
  | .short, n => -2 ^ 15 ≤ n ∧ n < 2 ^ 15
  | .unsignedShort, n => 0 ≤ n ∧ n < 2 ^ 16
  | .int, n => -2 ^ 31 ≤ n ∧ n < 2 ^ 31
  | .unsignedInt, n => 0 ≤ n ∧ n < 2 ^ 32
  | .long, n => -2 ^ 63 ≤ n ∧ n < 2 ^ 63
  | .float, _ => False
  | .double, _ => False

/-- What C does with a `double`: the conversion of a `lua_Integer` to one, and of
one to the types of `buffer_rw`. Integers of up to 53 bits are doubles, and go to
an integer type that holds them unchanged. -/
structure Arithmetic (Double : Type*) extends Conversion Double where
  ofInteger : Int → Double
  bytes_ofInteger : ∀ (type : CType) (n : Int), type.Holds n → -2 ^ 53 ≤ n → n ≤ 2 ^ 53 →
    bytes type (ofInteger n) = digits type.size (n % 2 ^ (8 * type.size)).toNat

/-- Doubles that hold integers. -/
def integerArithmetic : Arithmetic Int where
  toConversion := integerConversion
  ofInteger := id
  bytes_ofInteger _ _ _ _ _ := rfl

inductive LuaValue where
  | integer (n : Int)
  /-- A float or a double, by its bytes. -/
  | number (bytes : List UInt8)
  | boolean (b : Bool)
  | string (s : List UInt8)
  | nil
  /-- A value that does not come from the buffer. -/
  | other
  deriving DecidableEq

inductive LuaResult where
  | values (values : List LuaValue)
  | error (message : String)
  deriving DecidableEq

/-- The number that `n` bytes in two's complement stand for. -/
def signedValue (bytes : List UInt8) : Int :=
  Int.bmod (value bytes) (2 ^ (8 * bytes.length))

/-- The conversion of a `lua_Integer` to `uint64_t`. -/
def toUnsigned (n : Int64) : Nat := (n.toInt % 2 ^ 64).toNat

/-- The conversion of a `uint64_t` to `lua_Integer`. -/
def toInteger (n : Nat) : Int := Int.bmod n (2 ^ 64)

def beyondLimit : LuaResult := .error "attempt to read beyond buffer limit"

/-- The argument of `mumble_buffer_new`. -/
inductive NewArgument where
  | number (n : Int64)
  | string (data : List UInt8)
  | none

def mumbleBufferNew (heap : Heap) : NewArgument → Option ByteBuffer
  | .number n => bufferInit heap (toUnsigned n)
  | .string data => bufferInitData heap data
  | .none => bufferInit heap 1024

/-- A `buffer_write`-like call whose count is pushed. -/
def pushWritten (call : Option (Nat × ByteBuffer)) : Option (LuaResult × ByteBuffer) :=
  call.map fun (written, buffer) => (.values [.integer (toInteger written)], buffer)

/-- A `buffer_read`-like call that raises an error where it returns 0. -/
def pushRead (call : Option (Nat × List UInt8 × ByteBuffer)) (push : List UInt8 → LuaValue) :
    Option (LuaResult × ByteBuffer) :=
  call.map fun (ret, output, buffer) =>
    if ret = 0 then (beyondLimit, buffer) else (.values [push output], buffer)

def luabufferPack (buffer : ByteBuffer) : Option (LuaResult × ByteBuffer) :=
  (bufferPack buffer).map fun buffer => (.values [], buffer)

def luabufferReset (buffer : ByteBuffer) : Option (LuaResult × ByteBuffer) :=
  some (.values [], bufferReset buffer)

def luabufferFlip (buffer : ByteBuffer) : Option (LuaResult × ByteBuffer) :=
  some (.values [], bufferFlip buffer)

/-- `luabuffer_write` of a string. -/
def luabufferWrite (heap : Heap) (buffer : ByteBuffer) (data : List UInt8) :
    Option (LuaResult × ByteBuffer) :=
  pushWritten (bufferWrite heap buffer data)

/-- `luabuffer_write` of a buffer. The pointer handed on is `in + in->read_head`,
which counts in whole buffers and not in bytes: `found` are the `buffer_length(in)`
bytes that lie there. -/
def luabufferWriteBuffer (heap : Heap) (buffer : ByteBuffer) (found : List UInt8) :
    Option (LuaResult × ByteBuffer) :=
  pushWritten (bufferWrite heap buffer found)

inductive ReadArgument where
  | number (n : Int64)
  | all
  | invalid
  deriving DecidableEq

/-- The size that an argument asks for. -/
def ReadArgument.size (buffer : ByteBuffer) : ReadArgument → Option Nat
  | .number n => some (toUnsigned n)
  | .all => some (bufferLength buffer)
  | .invalid => none

/-- `luabuffer_read`; `pushed` are the strings read so far. -/
def luabufferRead (heap : Heap) :
    ByteBuffer → List LuaValue → List ReadArgument → Option (LuaResult × ByteBuffer)
  | buffer, pushed, [] => some (.values pushed, buffer)
  | buffer, pushed, argument :: rest =>
      match argument.size buffer with
      | none => some (.error "invalid format", buffer)
      | some size =>
          match realloc heap [] size with
          | none => some (.error "failed to allocate memory for read buffer", buffer)
          | some _ =>
              (bufferRead buffer size).bind fun (ret, read, buffer) =>
                if ret = 0 then some (beyondLimit, buffer)
                else luabufferRead heap buffer (pushed ++ [.string read]) rest

def luabufferWriteByte (heap : Heap) (buffer : ByteBuffer) (value : Int64) :
    Option (LuaResult × ByteBuffer) :=
  pushWritten (bufferWriteByte heap buffer (UInt8.ofNat (toUnsigned value)))

def luabufferReadByte (buffer : ByteBuffer) : Option (LuaResult × ByteBuffer) :=
  pushRead (bufferReadByte buffer) fun bytes => .integer (value bytes)

def luabufferWriteShort (arithmetic : Arithmetic Double) (heap : Heap) (buffer : ByteBuffer)
    (value : Int64) : Option (LuaResult × ByteBuffer) :=
  pushWritten (bufferWriteAs arithmetic.toConversion .short heap buffer
    (arithmetic.ofInteger value.toInt))

def luabufferReadShort (buffer : ByteBuffer) : Option (LuaResult × ByteBuffer) :=
  pushRead (bufferReadAs .short buffer) fun bytes => .integer (signedValue bytes)

def luabufferWriteInt (arithmetic : Arithmetic Double) (heap : Heap) (buffer : ByteBuffer)
    (value : Int64) : Option (LuaResult × ByteBuffer) :=
  pushWritten (bufferWriteAs arithmetic.toConversion .int heap buffer
    (arithmetic.ofInteger value.toInt))

def luabufferReadInt (buffer : ByteBuffer) : Option (LuaResult × ByteBuffer) :=
  pushRead (bufferReadAs .int buffer) fun bytes => .integer (signedValue bytes)

def luabufferWriteVarInt (heap : Heap) (buffer : ByteBuffer) (value : Int64) :
    Option (LuaResult × ByteBuffer) :=
  pushWritten (bufferWriteVarInt heap buffer (toUnsigned value))

def luabufferReadVarInt (buffer : ByteBuffer) : Option (LuaResult × ByteBuffer) :=
  (bufferReadVarInt buffer).map fun (ret, output, buffer) =>
    if ret = 0 then (beyondLimit, buffer) else (.values [.integer (toInteger output)], buffer)

def luabufferWriteFloat (arithmetic : Arithmetic Double) (heap : Heap) (buffer : ByteBuffer)
    (value : Double) : Option (LuaResult × ByteBuffer) :=
  pushWritten (bufferWriteAs arithmetic.toConversion .float heap buffer value)

def luabufferReadFloat (buffer : ByteBuffer) : Option (LuaResult × ByteBuffer) :=
  pushRead (bufferReadAs .float buffer) .number

def luabufferWriteDouble (arithmetic : Arithmetic Double) (heap : Heap) (buffer : ByteBuffer)
    (value : Double) : Option (LuaResult × ByteBuffer) :=
  pushWritten (bufferWriteAs arithmetic.toConversion .double heap buffer value)

def luabufferReadDouble (buffer : ByteBuffer) : Option (LuaResult × ByteBuffer) :=
  pushRead (bufferReadAs .double buffer) .number

def luabufferWriteString (heap : Heap) (buffer : ByteBuffer) (string : List UInt8) :
    Option (LuaResult × ByteBuffer) :=
  (bufferWriteVarInt heap buffer string.length).bind fun (_, buffer) =>
    pushWritten (bufferWrite heap buffer string)

/-- `luabuffer_readString`; its array on the stack is taken to fit. -/
def luabufferReadString (buffer : ByteBuffer) : Option (LuaResult × ByteBuffer) :=
  (bufferReadVarInt buffer).bind fun (ret, size, buffer) =>
    if ret = 0 then some (beyondLimit, buffer)
    else pushRead (bufferRead buffer size) .string

def luabufferWriteBool (heap : Heap) (buffer : ByteBuffer) (value : Bool) :
    Option (LuaResult × ByteBuffer) :=
  pushWritten (bufferWriteByte heap buffer (if value then 1 else 0))

def luabufferReadBool (buffer : ByteBuffer) : Option (LuaResult × ByteBuffer) :=
  pushRead (bufferReadByte buffer) fun bytes => .boolean (value bytes != 0)

def luabufferIsEmpty (buffer : ByteBuffer) : Option (LuaResult × ByteBuffer) :=
  some (.values [.boolean (bufferIsEmpty buffer)], buffer)

inductive SeekMode where
  | read
  | write
  | both
  deriving DecidableEq

/-- SET, CUR and END. -/
inductive SeekWhence where
  | set
  | cur
  | atEnd
  deriving DecidableEq

/-- A head moved by an offset, in the arithmetic of `uint64_t`. -/
def moveHead (head : Nat) (offset : Int64) : Nat := wrap (head + toUnsigned offset)

def luabufferSeek (buffer : ByteBuffer) (mode : SeekMode) (whence : SeekWhence)
    (offset : Int64) : Option (LuaResult × ByteBuffer) :=
  let (newReadHead, newWriteHead) :=
    match whence with
    | .set => (moveHead 0 offset, moveHead 0 offset)
    | .cur => (moveHead buffer.readHead offset, moveHead buffer.writeHead offset)
    | .atEnd => (moveHead buffer.capacity offset, moveHead buffer.capacity offset)
  match mode with
  | .read =>
      some (.values [.integer (toInteger newReadHead)], { buffer with readHead := newReadHead })
  | .write =>
      some (.values [.integer (toInteger newWriteHead)], { buffer with writeHead := newWriteHead })
  | .both =>
      some (.values [.integer (toInteger newReadHead), .integer (toInteger newWriteHead)],
        { buffer with readHead := newReadHead, writeHead := newWriteHead })

def luabufferLen (buffer : ByteBuffer) : Option (LuaResult × ByteBuffer) :=
  some (.values [.integer (toInteger (bufferLength buffer))], buffer)

inductive IndexKey where
  | byte (index : Int32)
  | length
  | capacity
  | readHead
  | writeHead
  /-- Another string, which is looked up in the metatable, or another value. -/
  | other

/-- `luabuffer_index`; the `int` is compared as a `uint64_t`. -/
def luabufferIndex (buffer : ByteBuffer) : IndexKey → Option (LuaResult × ByteBuffer)
  | .byte index =>
      let index := (index.toInt % 2 ^ 64).toNat
      if buffer.readHead ≤ index ∧ index < bufferLength buffer then
        (buffer.data.load index 1).map fun bytes => (.values [.string bytes], buffer)
      else some (.values [.nil], buffer)
  | .length => luabufferLen buffer
  | .capacity => some (.values [.integer (toInteger buffer.capacity)], buffer)
  | .readHead => some (.values [.integer (toInteger buffer.readHead)], buffer)
  | .writeHead => some (.values [.integer (toInteger buffer.writeHead)], buffer)
  | .other => some (.values [.other], buffer)

/-- `buffer_free`: no block, and both heads at 0. -/
def bufferFree (_ : ByteBuffer) : ByteBuffer := ⟨⟨[], by simp⟩, 0, 0⟩

/-- The methods, with what their arguments come to. `writeBoolean` and
`readBoolean` are `writeBool` and `readBool`, and `gc` may be called as well. -/
inductive Method (Double : Type*) where
  | pack
  | reset
  | flip
  | write (data : List UInt8)
  | writeBuffer (found : List UInt8)
  | read (arguments : List ReadArgument)
  | writeByte (value : Int64)
  | readByte
  | writeShort (value : Int64)
  | readShort
  | writeInt (value : Int64)
  | readInt
  | writeVarInt (value : Int64)
  | readVarInt
  | writeFloat (value : Double)
  | readFloat
  | writeDouble (value : Double)
  | readDouble
  | writeString (string : List UInt8)
  | readString
  | writeBool (value : Bool)
  | readBool
  | isEmpty
  | seek (mode : SeekMode) (whence : SeekWhence) (offset : Int64)
  | len
  | index (key : IndexKey)
  | tostring
  | gc

/-- The table `mumble_buffer`. -/
def Method.perform (arithmetic : Arithmetic Double) (heap : Heap) (buffer : ByteBuffer) :
    Method Double → Option (LuaResult × ByteBuffer)
  | .pack => luabufferPack buffer
  | .reset => luabufferReset buffer
  | .flip => luabufferFlip buffer
  | .write data => luabufferWrite heap buffer data
  | .writeBuffer found => luabufferWriteBuffer heap buffer found
  | .read arguments => luabufferRead heap buffer [] arguments
  | .writeByte value => luabufferWriteByte heap buffer value
  | .readByte => luabufferReadByte buffer
  | .writeShort value => luabufferWriteShort arithmetic heap buffer value
  | .readShort => luabufferReadShort buffer
  | .writeInt value => luabufferWriteInt arithmetic heap buffer value
  | .readInt => luabufferReadInt buffer
  | .writeVarInt value => luabufferWriteVarInt heap buffer value
  | .readVarInt => luabufferReadVarInt buffer
  | .writeFloat value => luabufferWriteFloat arithmetic heap buffer value
  | .readFloat => luabufferReadFloat buffer
  | .writeDouble value => luabufferWriteDouble arithmetic heap buffer value
  | .readDouble => luabufferReadDouble buffer
  | .writeString string => luabufferWriteString heap buffer string
  | .readString => luabufferReadString buffer
  | .writeBool value => luabufferWriteBool heap buffer value
  | .readBool => luabufferReadBool buffer
  | .isEmpty => luabufferIsEmpty buffer
  | .seek mode whence offset => luabufferSeek buffer mode whence offset
  | .len => luabufferLen buffer
  | .index key => luabufferIndex buffer key
  | .tostring => some (.values [.other], buffer)
  | .gc => some (.values [], bufferFree buffer)

/-- A call of a method, with what the allocator does during it. -/
structure MethodCall (Double : Type*) where
  heap : Heap
  method : Method Double

/-- The machine of a script; nothing is left after undefined behaviour. -/
def methodStep (arithmetic : Arithmetic Double) (buffer : Option ByteBuffer)
    (call : MethodCall Double) : Option LuaResult × Option ByteBuffer :=
  match buffer.bind fun buffer => call.method.perform arithmetic call.heap buffer with
  | some (result, buffer) => (some result, some buffer)
  | none => (none, none)

end LuaMumble.Buffer
