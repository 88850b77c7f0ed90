import LuaMumble.Buffer.Decode
import LuaMumble.Buffer.Methods
import Mathlib.Logic.Function.Basic

/-!
One buffer written into another, or into itself. `luabuffer_write` hands on `in + in->read_head`,
where `in` is the pointer to the struct: what is copied are the members of the struct and not the
unread bytes, and from the second byte that was read on it lies behind the struct. The members are
laid out as on a machine with 64 bits, little endian.
-/

namespace LuaMumble.Buffer

open Lib Lib.LittleEndian

/-- A userdata: a buffer, and the members of the struct that are not part of its model. `data` and
`context` are addresses. -/
structure BufferObject where
  buffer : ByteBuffer
  originalCapacity : UInt64
  data : UInt64
  context : UInt64

def sizeofByteBuffer : Nat := 48

namespace BufferObject

/-- The struct in memory. -/
def members (object : BufferObject) : List UInt8 :=
  digits 8 object.originalCapacity.toNat ++ digits 8 object.buffer.capacity ++
    digits 8 object.buffer.readHead ++ digits 8 object.buffer.writeHead ++
    digits 8 object.data.toNat ++ digits 8 object.context.toNat

/-- `memcpy` out of the struct. -/
def load (object : BufferObject) (start size : Nat) : Option (List UInt8) :=
  if size = 0 ∨ start + size ≤ sizeofByteBuffer then some ((object.members.drop start).take size)
  else none

/-- `buffer_adjust`; a block that is resized moves to `address`. -/
def adjust (heap : Heap) (address : UInt64) (object : BufferObject) (size : Nat) : BufferObject :=
  let (resized, buffer) := bufferAdjust heap object.buffer size
  { object with buffer := buffer, data := if resized = 1 then address else object.data }

end BufferObject

variable {ι : Type*} [DecidableEq ι]

/-- The objects once the destination has been given room. -/
def makeRoom (heap : Heap) (address : UInt64) (objects : ι → BufferObject) (dst : ι) (size : Nat) :
    ι → BufferObject :=
  Function.update objects dst ((objects dst).adjust heap address size)

/-- `luabuffer_write(dst, src)`, with `buffer_write`. The size and the pointer come from the
source before room is made. -/
def luabufferWriteFrom (heap : Heap) (address : UInt64) (objects : ι → BufferObject)
    (dst src : ι) : Option (LuaResult × (ι → BufferObject)) :=
  let size := bufferLength (objects src).buffer
  let start := sizeofByteBuffer * (objects src).buffer.readHead
  let objects := makeRoom heap address objects dst size
  ((objects src).load start size).bind fun bytes =>
    ((objects dst).buffer.put bytes).map fun buffer =>
      (.values [.integer (toInteger size)],
        Function.update objects dst { objects dst with buffer := buffer })

/-- What is asked of the call: it returns the number of the unread bytes of the source and appends
them to the destination, and changes nothing else. -/
def AppendsUnread (heap : Heap) (address : UInt64) (objects : ι → BufferObject)
    (dst src : ι) : Prop :=
  ∃ after,
    luabufferWriteFrom heap address objects dst src =
      some (.values [.integer (toInteger (objects src).buffer.unread.length)], after) ∧
    (after dst).buffer.unread = (objects dst).buffer.unread ++ (objects src).buffer.unread ∧
    (after dst).buffer.readHead = (objects dst).buffer.readHead ∧
    ∀ other, other ≠ dst → after other = objects other

/-- The unread bytes are those at the start of the struct. -/
def StructShowsUnread (heap : Heap) (address : UInt64) (objects : ι → BufferObject)
    (dst src : ι) : Prop :=
  (objects src).buffer.readHead = 0 ∧
    (objects src).buffer.unread <+:
      (makeRoom heap address objects dst (objects src).buffer.unread.length src).members

instance (heap : Heap) (address : UInt64) (objects : ι → BufferObject) (dst src : ι) :
    Decidable (StructShowsUnread heap address objects dst src) :=
  inferInstanceAs (Decidable (_ ∧ _))

section Members

theorem members_length (object : BufferObject) : object.members.length = sizeofByteBuffer := by
  simp only [BufferObject.members, List.length_append, digits_length, sizeofByteBuffer]

theorem load_of_le {object : BufferObject} {size : Nat} (hsize : size ≤ sizeofByteBuffer) :
    object.load 0 size = some (object.members.take size) := by
  rw [BufferObject.load, if_pos (Or.inr (by omega)), List.drop_zero]

/-- From the second byte that was read on, or for more bytes than it has, the copy leaves the
struct. -/
theorem load_of_lt {object : BufferObject} {start size : Nat} (hsize : 0 < size)
    (hbeyond : sizeofByteBuffer < start + size) : object.load start size = none := by
  rw [BufferObject.load, if_neg (by omega)]

theorem le_of_load {object : BufferObject} {bytes : List UInt8} {readHead size : Nat}
    (hsize : 0 < size) (hload : object.load (sizeofByteBuffer * readHead) size = some bytes) :
    readHead = 0 ∧ size ≤ sizeofByteBuffer := by
  have hinside : sizeofByteBuffer * readHead + size ≤ sizeofByteBuffer := by
    by_contra hbeyond
    rw [load_of_lt hsize (by omega)] at hload
    cases hload
  have hstart : readHead = 0 := by
    by_contra hne
    have hone : sizeofByteBuffer * 1 ≤ sizeofByteBuffer * readHead :=
      Nat.mul_le_mul_left _ (Nat.one_le_iff_ne_zero.mpr hne)
    omega
  subst hstart
  exact ⟨rfl, by omega⟩

end Members

section Write

variable {heap : Heap} {address : UInt64} {objects : ι → BufferObject} {dst src : ι}

theorem makeRoom_dst (size : Nat) : (makeRoom heap address objects dst size dst).buffer =
    (bufferAdjust heap (objects dst).buffer size).2 := by
  rw [makeRoom, Function.update_self]
  rfl

theorem makeRoom_of_ne {other : ι} (hother : other ≠ dst) (size : Nat) :
    makeRoom heap address objects dst size other = objects other :=
  Function.update_of_ne hother _ _

/-- Bytes that were copied are appended to the destination, where they fit. -/
theorem luabufferWriteFrom_of_load {bytes : List UInt8}
    (hread : (objects dst).buffer.readHead ≤ (objects dst).buffer.writeHead)
    (hwrite : (objects dst).buffer.writeHead ≤ (objects dst).buffer.capacity)
    (hlength : bufferLength (objects src).buffer = bytes.length)
    (hfits : Fits heap (objects dst).buffer.capacity (objects dst).buffer.writeHead bytes.length)
    (hload : (makeRoom heap address objects dst bytes.length src).load
      (sizeofByteBuffer * (objects src).buffer.readHead) bytes.length = some bytes) :
    ∃ after,
      luabufferWriteFrom heap address objects dst src =
        some (.values [.integer (toInteger bytes.length)], after) ∧
      (after dst).buffer.unread = (objects dst).buffer.unread ++ bytes ∧
      (after dst).buffer.readHead = (objects dst).buffer.readHead ∧
      ∀ other, other ≠ dst → after other = objects other := by
  have hstores := stores_unread hread hwrite
  obtain ⟨buffer, hput, hstores', -, -⟩ := put_of_fits hstores hfits
  let room := makeRoom heap address objects dst bytes.length
  refine ⟨Function.update room dst { room dst with buffer := buffer }, ?_, ?_, ?_, ?_⟩
  · rw [luabufferWriteFrom]
    dsimp only
    rw [hlength, hload, Option.bind_some, makeRoom_dst, hput, Option.map_some]
  · rw [Function.update_self]
    exact hstores'.unread_eq
  · rw [Function.update_self]
    exact hstores'.readHead_eq.trans hstores.readHead_eq.symm
  · intro other hother
    rw [Function.update_of_ne hother]
    exact makeRoom_of_ne hother _

/-- For the destination it is the method with the bytes that were copied. -/
theorem luabufferWriteFrom_dst {bytes : List UInt8}
    (hlength : bufferLength (objects src).buffer = bytes.length)
    (hload : (makeRoom heap address objects dst bytes.length src).load
      (sizeofByteBuffer * (objects src).buffer.readHead) bytes.length = some bytes) :
    (luabufferWriteFrom heap address objects dst src).map
        (fun (result, after) => (result, (after dst).buffer)) =
      luabufferWriteBuffer heap (objects dst).buffer bytes := by
  rw [luabufferWriteFrom, luabufferWriteBuffer, pushWritten, bufferWrite]
  dsimp only
  rw [hlength, hload, Option.bind_some, makeRoom_dst, Option.map_map, Option.map_map]
  apply congrArg (fun f => Option.map f _)
  funext buffer
  simp only [Function.comp_apply, Function.update_self]

/-- Conversely, a call that returns has copied bytes of the struct. -/
theorem load_of_luabufferWriteFrom {result : LuaResult} {after : ι → BufferObject} {size : Nat}
    (hlength : bufferLength (objects src).buffer = size)
    (hcall : luabufferWriteFrom heap address objects dst src = some (result, after)) :
    ∃ bytes, (makeRoom heap address objects dst size src).load
      (sizeofByteBuffer * (objects src).buffer.readHead) size = some bytes := by
  rw [luabufferWriteFrom] at hcall
  dsimp only at hcall
  rw [hlength] at hcall
  obtain ⟨bytes, hload, -⟩ := Option.bind_eq_some_iff.mp hcall
  exact ⟨bytes, hload⟩

/-- Unread bytes that are appended have been copied from the start of the struct. -/
theorem structShowsUnread_of_appends
    (hdst : (objects dst).buffer.readHead ≤ (objects dst).buffer.writeHead ∧
      (objects dst).buffer.writeHead ≤ (objects dst).buffer.capacity)
    (hsrc : (objects src).buffer.readHead ≤ (objects src).buffer.writeHead ∧
      (objects src).buffer.writeHead ≤ (objects src).buffer.capacity)
    (hfits : Fits heap (objects dst).buffer.capacity (objects dst).buffer.writeHead
      (objects src).buffer.unread.length)
    (hne : (objects src).buffer.unread ≠ [])
    (happends : AppendsUnread heap address objects dst src) :
    StructShowsUnread heap address objects dst src := by
  have hlength := bufferLength_spec (stores_unread hsrc.1 hsrc.2)
  unfold AppendsUnread at happends
  unfold StructShowsUnread
  generalize (objects src).buffer.unread = unread at hlength hfits hne happends ⊢
  dsimp only at hlength ⊢
  obtain ⟨after, hcall, happended, -, -⟩ := happends
  have hpositive : 0 < unread.length := List.length_pos_iff.mpr hne
  obtain ⟨bytes, hload⟩ := load_of_luabufferWriteFrom hlength hcall
  obtain ⟨hstart, hsize⟩ := le_of_load hpositive hload
  refine ⟨hstart, ?_⟩
  have htake : ((makeRoom heap address objects dst unread.length src).members.take
      unread.length).length = unread.length :=
    List.length_take_of_le (by rw [members_length]; exact hsize)
  -- what is copied is as long as the unread bytes, so it is what stands behind the old ones
  obtain ⟨after', hcall', happended', -, -⟩ := luabufferWriteFrom_of_load hdst.1 hdst.2
    (hlength.trans htake.symm) (htake.symm ▸ hfits)
    (by rw [htake, hstart, Nat.mul_zero, load_of_le hsize])
  have hsame : after = after' := by
    rw [hcall] at hcall'
    exact congrArg Prod.snd (Option.some.inj hcall')
  rw [← hsame, happended] at happended'
  exact List.prefix_iff_eq_take.mpr (List.append_cancel_left happended')

/-- Unread bytes that are at the start of the struct, or that are none, are appended. -/
theorem appends_of_structShowsUnread
    (hdst : (objects dst).buffer.readHead ≤ (objects dst).buffer.writeHead ∧
      (objects dst).buffer.writeHead ≤ (objects dst).buffer.capacity)
    (hsrc : (objects src).buffer.readHead ≤ (objects src).buffer.writeHead ∧
      (objects src).buffer.writeHead ≤ (objects src).buffer.capacity)
    (hfits : Fits heap (objects dst).buffer.capacity (objects dst).buffer.writeHead
      (objects src).buffer.unread.length)
    (hshows : (objects src).buffer.unread = [] ∨
      StructShowsUnread heap address objects dst src) :
    AppendsUnread heap address objects dst src := by
  have hlength := bufferLength_spec (stores_unread hsrc.1 hsrc.2)
  unfold AppendsUnread
  unfold StructShowsUnread at hshows
  generalize (objects src).buffer.unread = unread at hlength hfits hshows ⊢
  dsimp only at hlength hshows
  apply luabufferWriteFrom_of_load hdst.1 hdst.2 hlength hfits
  rcases hshows with rfl | ⟨hstart, hprefix⟩
  · rw [BufferObject.load, if_pos (Or.inl List.length_nil)]
    rfl
  · have hsize : unread.length ≤ sizeofByteBuffer := by
      rw [← members_length (makeRoom heap address objects dst unread.length src)]
      exact hprefix.length_le
    rw [hstart, Nat.mul_zero, load_of_le hsize, ← List.prefix_iff_eq_take.mp hprefix]

end Write

/-- For all buffers with their heads in order, and room for the unread bytes of the source in the
destination: writing one into the other, or into itself, appends the unread bytes exactly if there
are none, or none was read and they are at the start of the struct itself. -/
theorem appends_unread_iff (heap : Heap) (address : UInt64) (objects : ι → BufferObject)
    (dst src : ι)
    (hdst : (objects dst).buffer.readHead ≤ (objects dst).buffer.writeHead ∧
      (objects dst).buffer.writeHead ≤ (objects dst).buffer.capacity)
    (hsrc : (objects src).buffer.readHead ≤ (objects src).buffer.writeHead ∧
      (objects src).buffer.writeHead ≤ (objects src).buffer.capacity)
    (hfits : Fits heap (objects dst).buffer.capacity (objects dst).buffer.writeHead
      (objects src).buffer.unread.length) :
    AppendsUnread heap address objects dst src ↔
      (objects src).buffer.unread = [] ∨ StructShowsUnread heap address objects dst src := by
  constructor
  · intro happends
    rw [or_iff_not_imp_left]
    intro hne
    exact structShowsUnread_of_appends hdst hsrc hfits hne happends
  · exact appends_of_structShowsUnread hdst hsrc hfits

/-- A buffer of four bytes, and one of 1024 that holds the two bytes that 1024 begins with. -/
def storedCapacity : Bool → BufferObject
  | true => ⟨⟨⟨[7, 7, 7, 7], by simp⟩, 0, 1⟩, 4, 0x1000, 0⟩
  | false => ⟨⟨⟨[0, 4], by simp⟩, 0, 2⟩, 1024, 0x2000, 0⟩

theorem appends_unread_storedCapacity :
    AppendsUnread (fun _ => none) 0 storedCapacity true false :=
  (appends_unread_iff (fun _ => none) 0 storedCapacity true false
    (by decide) (by decide) (Or.inl (by decide))).mpr (Or.inr (by decide))

/-- `mumble.buffer("hi")`, and a buffer of four bytes to write it into. -/
def greeting : Bool → BufferObject
  | true => ⟨⟨⟨[0, 0, 0, 0], by simp⟩, 0, 0⟩, 4, 0x1000, 0⟩
  | false => ⟨⟨⟨[104, 105], by simp⟩, 0, 2⟩, 2, 0x2000, 0⟩

/-- The capacity is written in place of the string. -/
theorem capacity_written_for_string :
    ¬ AppendsUnread (fun _ => none) 0 greeting true false := by
  intro happends
  have hshows := structShowsUnread_of_appends (by decide) (by decide) (Or.inl (by decide))
    (by decide) happends
  exact absurd hshows (by decide)

end LuaMumble.Buffer
