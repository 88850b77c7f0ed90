import LuaMumble.Buffer.State
import LuaMumble.Lib.Machine
import LuaMumble.Lib.RewindQueue

/-!
The byte buffer as a queue of bytes that can be rewound. A buffer whose heads are
in order and inside its block represents one. Each function then does to the
queue what its name says, where the bytes it stores fit the block, or the larger
block that the allocator gives it.
-/

namespace LuaMumble.Buffer

open Lib

/-- The buffer stores the queue. -/
def Stores (q : RewindQueue UInt8) (buffer : ByteBuffer) : Prop :=
  q.Represents buffer.data.bytes buffer.readHead buffer.writeHead

def Granted (heap : Heap) (size : Nat) : Prop :=
  size < 2 ^ 63 ∧ (heap size).isSome

/-- There is room for the bytes, or the growth to make room is granted and enough. -/
def Fits (heap : Heap) (capacity writeHead size : Nat) : Prop :=
  writeHead + size ≤ capacity ∨
    (writeHead + size ≤ grownCapacity capacity (writeHead + size) ∧
      Granted heap (grownCapacity capacity (writeHead + size)))

/-- The capacity once `newHead` fits. -/
def capacityFor (capacity newHead : Nat) : Nat :=
  if newHead ≤ capacity then capacity else grownCapacity capacity newHead

/-- Chunks of these sizes fit one after another. -/
def ChunksFit (heap : Heap) : Nat → Nat → List Nat → Prop
  | _, _, [] => True
  | capacity, writeHead, size :: rest =>
      Fits heap capacity writeHead size ∧
        ChunksFit heap (capacityFor capacity (writeHead + size)) (writeHead + size) rest

theorem wrap_of_lt {n : Nat} (h : n < 2 ^ 64) : wrap n = n :=
  Nat.mod_eq_of_lt h

theorem ByteBuffer.capacity_lt (buffer : ByteBuffer) : buffer.capacity < 2 ^ 63 :=
  buffer.data.length_lt

section Memory

variable {heap : Heap}

theorem realloc_length {old : List UInt8} {size : Nat} {block : Block}
    (h : realloc heap old size = some block) : block.bytes.length = size := by
  unfold realloc at h
  split at h
  · obtain ⟨fill, _, rfl⟩ := Option.map_eq_some_iff.mp h
    simp only [List.length_append, List.length_take, List.length_map, List.length_range]
    omega
  · cases h

/-- A larger block begins with the bytes of the old one. -/
theorem realloc_of_granted (old : List UInt8) {size : Nat} (hgranted : Granted heap size)
    (hle : old.length ≤ size) :
    ∃ block, realloc heap old size = some block ∧ block.bytes.length = size ∧
      old <+: block.bytes := by
  obtain ⟨hlt, hsome⟩ := hgranted
  obtain ⟨fill, hfill⟩ := Option.isSome_iff_exists.mp hsome
  have hrealloc : ∃ block, realloc heap old size = some block ∧ old <+: block.bytes := by
    unfold realloc
    rw [dif_pos hlt, hfill, Option.map_some]
    refine ⟨_, rfl, ?_⟩
    dsimp only
    rw [List.take_of_length_le hle]
    exact List.prefix_append _ _
  obtain ⟨block, hblock, hprefix⟩ := hrealloc
  exact ⟨block, hblock, realloc_length hblock, hprefix⟩

theorem granted_of_realloc {old : List UInt8} {size : Nat} {block : Block}
    (h : realloc heap old size = some block) : Granted heap size := by
  unfold realloc at h
  split at h
  · rename_i hlt
    obtain ⟨fill, hfill, _⟩ := Option.map_eq_some_iff.mp h
    exact ⟨hlt, by rw [hfill]; rfl⟩
  · cases h

theorem store_of_le {block : Block} {start : Nat} {xs : List UInt8}
    (h : start + xs.length ≤ block.bytes.length) :
    ∃ block', block.store start xs = some block' ∧
      block'.bytes.length = block.bytes.length ∧
      block'.bytes.take (start + xs.length) = block.bytes.take start ++ xs := by
  have hstart : (block.bytes.take start).length = start := List.length_take_of_le (by omega)
  unfold Block.store
  rw [dif_pos (Or.inr h)]
  refine ⟨_, rfl, ?_, ?_⟩
  · simp only [List.length_append, hstart, List.length_drop]
    omega
  · exact List.take_left' (by rw [List.length_append, hstart])

theorem le_of_store {block block' : Block} {start : Nat} {xs : List UInt8} (hne : xs ≠ [])
    (h : block.store start xs = some block') : start + xs.length ≤ block.bytes.length := by
  unfold Block.store at h
  split at h
  · rename_i hfits
    exact hfits.resolve_left hne
  · cases h

end Memory

section Growth

theorem grownCapacity_lt (capacity newHead : Nat) : grownCapacity capacity newHead < 2 ^ 64 := by
  have hwrap (n : Nat) : wrap n < 2 ^ 64 := Nat.mod_lt n (Nat.two_pow_pos 64)
  have hdouble : (if wrap (capacity + capacity >>> 1) < newHead then wrap (capacity * 2)
      else wrap (capacity + capacity >>> 1)) < 2 ^ 64 := by
    split
    · exact hwrap _
    · exact hwrap _
  unfold grownCapacity
  dsimp only
  generalize (if wrap (capacity + capacity >>> 1) < newHead then wrap (capacity * 2)
    else wrap (capacity + capacity >>> 1)) = newCapacity at hdouble ⊢
  split
  · exact hwrap _
  · exact hdouble

/-- One of the three growths is enough, as long as none of them wraps. -/
theorem le_grownCapacity {capacity newHead : Nat} (hmore : capacity < newHead)
    (hsmall : newHead < 2 ^ 62) :
    newHead ≤ grownCapacity capacity newHead ∧ grownCapacity capacity newHead < 2 ^ 63 := by
  have h15 : capacity + capacity >>> 1 < 2 ^ 63 := by
    rw [Nat.shiftRight_one]
    omega
  have h2 : capacity * 2 < 2 ^ 63 := by omega
  have hroom : newHead + newHead >>> 1 < 2 ^ 63 := by
    rw [Nat.shiftRight_one]
    omega
  have hdouble : (if capacity + capacity >>> 1 < newHead then capacity * 2
      else capacity + capacity >>> 1) < 2 ^ 63 := by
    split
    · exact h2
    · exact h15
  unfold grownCapacity
  rw [wrap_of_lt (by omega), wrap_of_lt (by omega), wrap_of_lt (by omega)]
  dsimp only
  generalize (if capacity + capacity >>> 1 < newHead then capacity * 2
    else capacity + capacity >>> 1) = newCapacity at hdouble ⊢
  split
  · exact ⟨Nat.le_add_right _ _, hroom⟩
  · rename_i henough
    exact ⟨Nat.not_lt.mp henough, hdouble⟩

theorem fits_of_small {heap : Heap} {capacity writeHead size : Nat}
    (hheap : ∀ n, (heap n).isSome) (hsmall : writeHead + size < 2 ^ 62) :
    Fits heap capacity writeHead size := by
  by_cases hroom : writeHead + size ≤ capacity
  · exact Or.inl hroom
  · obtain ⟨henough, hlt⟩ := le_grownCapacity (Nat.not_le.mp hroom) hsmall
    exact Or.inr ⟨henough, hlt, hheap _⟩

theorem chunksFit_of_small {heap : Heap} {capacity writeHead : Nat} {sizes : List Nat}
    (hheap : ∀ n, (heap n).isSome) (hsmall : writeHead + sizes.sum < 2 ^ 62) :
    ChunksFit heap capacity writeHead sizes := by
  induction sizes generalizing capacity writeHead with
  | nil => trivial
  | cons size rest ih =>
      rw [List.sum_cons] at hsmall
      exact ⟨fits_of_small hheap (by omega), ih (by omega)⟩

end Growth

section Write

variable {q : RewindQueue UInt8} {heap : Heap} {buffer : ByteBuffer}

theorem Stores.le (h : Stores q buffer) :
    buffer.readHead ≤ buffer.writeHead ∧ buffer.writeHead ≤ buffer.capacity :=
  ⟨h.readHead_le, h.writeHead_le⟩

/-- `buffer_adjust`, where the bytes to come fit. -/
theorem bufferAdjust_of_fits {size : Nat} (hstores : Stores q buffer)
    (hfits : Fits heap buffer.capacity buffer.writeHead size) :
    ∃ ret data, bufferAdjust heap buffer size = (ret, { buffer with data := data }) ∧
      data.bytes.length = capacityFor buffer.capacity (buffer.writeHead + size) ∧
      data.bytes.take buffer.writeHead = buffer.data.bytes.take buffer.writeHead ∧
      buffer.writeHead + size ≤ data.bytes.length := by
  have hcapacity := buffer.capacity_lt
  by_cases hroom : buffer.writeHead + size ≤ buffer.capacity
  · refine ⟨0, buffer.data, ?_, ?_, rfl, hroom⟩
    · unfold bufferAdjust
      dsimp only
      rw [wrap_of_lt (by omega), if_neg (Nat.not_lt.mpr hroom)]
    · rw [capacityFor, if_pos hroom]
      rfl
  · obtain ⟨henough, hgranted⟩ := hfits.resolve_left hroom
    have hgrow : buffer.data.bytes.length ≤
        grownCapacity buffer.capacity (buffer.writeHead + size) :=
      (Nat.not_le.mp hroom).le.trans henough
    obtain ⟨block, hblock, hlength, hprefix⟩ := realloc_of_granted _ hgranted hgrow
    have hlt := hgranted.1
    refine ⟨1, block, ?_, ?_, ?_, ?_⟩
    · unfold bufferAdjust
      dsimp only
      rw [wrap_of_lt (by omega), if_pos (Nat.not_le.mp hroom), bufferResize, hblock]
    · rw [hlength, capacityFor, if_neg hroom]
    · obtain ⟨rest, hrest⟩ := hprefix
      rw [← hrest]
      exact List.take_append_of_le_length hstores.le.2
    · rw [hlength]
      exact henough

/-- The store behind every writer. -/
theorem put_of_fits {xs : List UInt8} (hstores : Stores q buffer)
    (hfits : Fits heap buffer.capacity buffer.writeHead xs.length) :
    ∃ buffer', (bufferAdjust heap buffer xs.length).2.put xs = some buffer' ∧
      Stores (q.write xs) buffer' ∧
      buffer'.writeHead = buffer.writeHead + xs.length ∧
      buffer'.capacity = capacityFor buffer.capacity (buffer.writeHead + xs.length) := by
  obtain ⟨ret, data, hadjust, hlength, htake, hle⟩ := bufferAdjust_of_fits hstores hfits
  obtain ⟨block, hstore, hsame, hcells⟩ := store_of_le hle
  have hhead : wrap (buffer.writeHead + xs.length) = buffer.writeHead + xs.length := by
    have hlt := data.length_lt
    exact wrap_of_lt (by omega)
  refine ⟨⟨block, buffer.readHead, buffer.writeHead + xs.length⟩, ?_, ?_, rfl, ?_⟩
  · rw [hadjust, ByteBuffer.put, hstore, Option.map_some, hhead]
  · apply RewindQueue.Represents.write hstores
    rw [hcells, htake]
  · exact hsame.trans hlength

/-- Bytes that have been stored did fit. -/
theorem fits_of_put {xs : List UInt8} {buffer' : ByteBuffer} (hstores : Stores q buffer)
    (hput : (bufferAdjust heap buffer xs.length).2.put xs = some buffer') :
    Fits heap buffer.capacity buffer.writeHead xs.length := by
  have hcapacity := buffer.capacity_lt
  have hwrite := hstores.le.2
  cases xs with
  | nil => exact Or.inl hwrite
  | cons x xs =>
      obtain ⟨block, hstore, _⟩ := Option.map_eq_some_iff.mp hput
      have hle := le_of_store (List.cons_ne_nil x xs) hstore
      unfold bufferAdjust bufferResize at hle
      dsimp only at hle
      split at hle
      · split at hle
        · rename_i hmore _ block' hblock
          have hlength := realloc_length hblock
          dsimp only at hle
          rw [hlength] at hle
          have hlt := grownCapacity_lt buffer.capacity
            (wrap (buffer.writeHead + (x :: xs).length))
          have hhead : wrap (buffer.writeHead + (x :: xs).length) =
              buffer.writeHead + (x :: xs).length := wrap_of_lt (by omega)
          rw [hhead] at hle hblock
          exact Or.inr ⟨hle, granted_of_realloc hblock⟩
        · exact Or.inl hle
      · exact Or.inl hle

/-- The writers that store several chunks, by induction on the chunks. -/
theorem putChunks_of_fit {chunks : List (List UInt8)} (hstores : Stores q buffer)
    (hfit : ChunksFit heap buffer.capacity buffer.writeHead (chunks.map List.length)) :
    ∃ buffer', buffer.putChunks heap chunks = some buffer' ∧
      Stores (q.write chunks.flatten) buffer' := by
  induction chunks generalizing q buffer with
  | nil =>
      refine ⟨buffer, rfl, ?_⟩
      rw [List.flatten_nil, RewindQueue.write_nil]
      exact hstores
  | cons chunk rest ih =>
      obtain ⟨hfirst, hrest⟩ := hfit
      obtain ⟨buffer', hput, hstores', hhead, hcapacity⟩ := put_of_fits hstores hfirst
      rw [← hcapacity, ← hhead] at hrest
      obtain ⟨buffer'', hlater, hstores''⟩ := ih hstores' hrest
      refine ⟨buffer'', ?_, ?_⟩
      · rw [ByteBuffer.putChunks, hput, Option.bind_some, hlater]
      · rw [List.flatten_cons, RewindQueue.write_append]
        exact hstores''

theorem fit_of_putChunks {chunks : List (List UInt8)} {buffer' : ByteBuffer}
    (hstores : Stores q buffer) (hput : buffer.putChunks heap chunks = some buffer') :
    ChunksFit heap buffer.capacity buffer.writeHead (chunks.map List.length) := by
  induction chunks generalizing q buffer with
  | nil => trivial
  | cons chunk rest ih =>
      obtain ⟨next, hfirst, hrest⟩ := Option.bind_eq_some_iff.mp hput
      have hfits := fits_of_put hstores hfirst
      obtain ⟨next', hfirst', hstores', hhead, hcapacity⟩ := put_of_fits hstores hfits
      obtain rfl : next = next' := Option.some.inj (hfirst.symm.trans hfirst')
      have hfit := ih hstores' hrest
      rw [hhead, hcapacity] at hfit
      exact ⟨hfits, hfit⟩

/-- Small writes find room wherever the allocator has memory. -/
theorem putChunks_of_small (chunks : List (List UInt8)) (hstores : Stores q buffer)
    (hheap : ∀ n, (heap n).isSome)
    (hsmall : buffer.writeHead + chunks.flatten.length < 2 ^ 62) :
    ∃ buffer', buffer.putChunks heap chunks = some buffer' ∧
      Stores (q.write chunks.flatten) buffer' ∧
      buffer'.writeHead ≤ buffer.writeHead + chunks.flatten.length := by
  rw [List.length_flatten] at hsmall
  obtain ⟨buffer', hput, hstores'⟩ := putChunks_of_fit hstores (chunksFit_of_small hheap hsmall)
  refine ⟨buffer', hput, hstores', ?_⟩
  rw [hstores'.writeHead_eq, hstores.writeHead_eq, RewindQueue.write, List.length_append,
    Nat.add_assoc]

theorem putChunks_append (buffer : ByteBuffer) (xs ys : List (List UInt8)) :
    buffer.putChunks heap (xs ++ ys) =
      (buffer.putChunks heap xs).bind fun buffer => buffer.putChunks heap ys := by
  induction xs generalizing buffer with
  | nil => rfl
  | cons chunk rest ih =>
      rw [List.cons_append, ByteBuffer.putChunks, ByteBuffer.putChunks, Option.bind_assoc]
      refine congrArg _ (funext fun next => ?_)
      exact ih next

theorem bufferWrite_eq_chunks (heap : Heap) (buffer : ByteBuffer) (data : List UInt8) :
    bufferWrite heap buffer data =
      (buffer.putChunks heap [data]).map fun buffer => (data.length, buffer) := by
  simp [bufferWrite, ByteBuffer.putChunks]

theorem bufferWriteByte_eq_chunks (heap : Heap) (buffer : ByteBuffer) (value : UInt8) :
    bufferWriteByte heap buffer value =
      (buffer.putChunks heap [[value]]).map fun buffer => (1, buffer) := by
  simp [bufferWriteByte, ByteBuffer.putChunks]

theorem bufferWriteAs_eq_chunks {Double : Type*} (conversion : Conversion Double) (type : CType)
    (heap : Heap) (buffer : ByteBuffer) (value : Double) :
    bufferWriteAs conversion type heap buffer value =
      (buffer.putChunks heap [conversion.bytes type value]).map fun buffer =>
        (type.size, buffer) := by
  simp [bufferWriteAs, bufferWrite_eq_chunks, Function.comp_def]

end Write

section Read

variable {q : RewindQueue UInt8} {buffer : ByteBuffer}

theorem get_of_le {n : Nat} (hstores : Stores q buffer) (hn : n ≤ q.pending.length) :
    ∃ buffer', buffer.get n = some (q.pending.take n, buffer') ∧ Stores (q.read n).2 buffer' ∧
      buffer'.data = buffer.data := by
  obtain ⟨hread, hwrite⟩ := hstores.le
  have hcapacity := buffer.capacity_lt
  have hpending := hstores.pending_length
  have hle : buffer.readHead + n ≤ buffer.data.bytes.length := by
    have hlength : buffer.capacity = buffer.data.bytes.length := rfl
    omega
  refine ⟨⟨buffer.data, buffer.readHead + n, buffer.writeHead⟩, ?_, hstores.read hn, rfl⟩
  rw [ByteBuffer.get, Block.load, if_pos (Or.inr hle), Option.map_some,
    hstores.drop_readHead hn, wrap_of_lt (by omega)]

theorem bufferAvailable_iff {n : Nat} (hstores : Stores q buffer)
    (hn : buffer.readHead + n < 2 ^ 64) : bufferAvailable buffer n ↔ n ≤ q.pending.length := by
  have hread := hstores.le.1
  rw [bufferAvailable, wrap_of_lt hn, hstores.pending_length]
  omega

/-- `buffer_read` returns nothing of the queue, or all that it is asked for. -/
theorem bufferRead_spec {n : Nat} (hstores : Stores q buffer)
    (hn : buffer.readHead + n < 2 ^ 64) :
    ∃ buffer', bufferRead buffer n =
        some (((q.read n).1.getD []).length, (q.read n).1.getD [], buffer') ∧
      Stores (q.read n).2 buffer' ∧ buffer'.data = buffer.data := by
  unfold bufferRead
  by_cases havailable : n ≤ q.pending.length
  · obtain ⟨buffer', hget, hstores', hdata⟩ := get_of_le hstores havailable
    refine ⟨buffer', ?_, hstores', hdata⟩
    rw [if_pos ((bufferAvailable_iff hstores hn).mpr havailable), hget, RewindQueue.read,
      if_pos havailable, Option.map_some, Option.getD_some, List.length_take_of_le havailable]
  · refine ⟨buffer, ?_, ?_, rfl⟩
    · rw [if_neg (mt (bufferAvailable_iff hstores hn).mp havailable), RewindQueue.read,
        if_neg havailable]
      rfl
    · rw [RewindQueue.read, if_neg havailable]
      exact hstores

theorem bufferReadByte_eq_read (buffer : ByteBuffer) :
    bufferReadByte buffer = bufferRead buffer 1 := rfl

theorem bufferPack_spec (hstores : Stores q buffer) :
    ∃ buffer', bufferPack buffer = some buffer' ∧ Stores q.pack buffer' ∧
      buffer'.capacity = buffer.capacity := by
  obtain ⟨hread, hwrite⟩ := hstores.le
  have hcapacity := buffer.capacity_lt
  have hpending := hstores.pending_length
  unfold bufferPack
  by_cases hempty : buffer.readHead = buffer.writeHead
  · rw [if_pos hempty]
    have hnil : q.pending = [] := List.length_eq_zero_iff.mp (by omega)
    refine ⟨_, rfl, ?_, rfl⟩
    rw [RewindQueue.pack, hnil]
    exact RewindQueue.Represents.empty _
  · rw [if_neg hempty]
    by_cases hzero : buffer.readHead > 0
    · have hremaining : wrap (buffer.writeHead + 2 ^ 64 - buffer.readHead) =
          buffer.writeHead - buffer.readHead := by
        have hsum : buffer.writeHead + 2 ^ 64 - buffer.readHead =
            (buffer.writeHead - buffer.readHead) + 2 ^ 64 := by omega
        rw [wrap, hsum, Nat.add_mod_right]
        exact Nat.mod_eq_of_lt (by omega)
      have hload : buffer.data.load buffer.readHead (buffer.writeHead - buffer.readHead) =
          some q.pending := by
        have hle : buffer.readHead + (buffer.writeHead - buffer.readHead) ≤
            buffer.data.bytes.length := by
          rw [Nat.add_sub_cancel' hread]
          exact hwrite
        rw [Block.load, if_pos (Or.inr hle), ← hpending, hstores.drop_readHead le_rfl,
          List.take_length]
      have hfront : 0 + q.pending.length ≤ buffer.data.bytes.length := by
        have hlength : buffer.capacity = buffer.data.bytes.length := rfl
        omega
      obtain ⟨block, hstore, hlength, htake⟩ := store_of_le hfront
      rw [if_pos hzero]
      dsimp only
      rw [hremaining, hload, Option.bind_some, hstore]
      refine ⟨_, rfl, ?_, hlength⟩
      apply hstores.pack
      rw [← hpending, hstores.drop_readHead le_rfl, List.take_length]
      simpa using htake
    · rw [if_neg hzero]
      have hhead : buffer.readHead = 0 := Nat.eq_zero_of_not_pos hzero
      have hnil : q.consumed = [] :=
        List.length_eq_zero_iff.mp (hstores.readHead_eq.symm.trans hhead)
      refine ⟨buffer, rfl, ?_, rfl⟩
      have hsame : q.pack = q := by
        rw [RewindQueue.pack, ← hnil]
      rw [hsame]
      exact hstores

theorem bufferFlip_spec (hstores : Stores q buffer) : Stores q.flip (bufferFlip buffer) :=
  hstores.flip

theorem bufferReset_spec (buffer : ByteBuffer) :
    Stores RewindQueue.empty (bufferReset buffer) :=
  RewindQueue.Represents.empty _

theorem bufferLength_spec (hstores : Stores q buffer) : bufferLength buffer = q.pending.length := by
  obtain ⟨hread, hwrite⟩ := hstores.le
  have hcapacity := buffer.capacity_lt
  have hsum : buffer.writeHead + 2 ^ 64 - buffer.readHead =
      (buffer.writeHead - buffer.readHead) + 2 ^ 64 := by omega
  rw [bufferLength, wrap, hsum, Nat.add_mod_right, hstores.pending_length]
  exact Nat.mod_eq_of_lt (by omega)

end Read

section Init

variable {heap : Heap}

theorem bufferInit_spec (size : Nat) (hgranted : Granted heap size) :
    ∃ buffer, bufferInit heap size = some buffer ∧ Stores RewindQueue.empty buffer ∧
      buffer.capacity = size := by
  obtain ⟨block, hblock, hlength, _⟩ :=
    realloc_of_granted [] hgranted (Nat.zero_le size)
  refine ⟨⟨block, 0, 0⟩, ?_, RewindQueue.Represents.empty _, hlength⟩
  rw [bufferInit, hblock, Option.map_some]

theorem bufferInitData_spec {data : List UInt8} (hgranted : Granted heap data.length) :
    ∃ buffer, bufferInitData heap data = some buffer ∧ Stores ⟨[], data⟩ buffer ∧
      buffer.capacity = data.length := by
  obtain ⟨buffer, hinit, hstores, hcapacity⟩ := bufferInit_spec _ hgranted
  have hhead : buffer.writeHead = 0 := hstores.writeHead_eq
  have hroom : buffer.writeHead + data.length ≤ buffer.capacity := by omega
  have hfits : Fits heap buffer.capacity buffer.writeHead data.length := Or.inl hroom
  obtain ⟨buffer', hput, hstores', _, hcapacity'⟩ := put_of_fits hstores hfits
  refine ⟨{ buffer' with readHead := 0 }, ?_, hstores'.flip, ?_⟩
  · rw [bufferInitData, hinit, Option.bind_some, bufferWrite, hput]
    rfl
  · rw [capacityFor, if_pos hroom] at hcapacity'
    exact hcapacity'.trans hcapacity

end Init

end LuaMumble.Buffer
