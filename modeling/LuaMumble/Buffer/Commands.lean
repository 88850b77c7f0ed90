import LuaMumble.Buffer.Refinement

/-!
Runs of the buffer functions. A request is a call together with what the
allocator does during it. As long as the allocator gives out what it is asked
for and the sizes stay small enough for no growth to wrap, a run of requests on
a buffer does what the same run does to the queue, whatever the capacity was at
the start.
-/

namespace LuaMumble.Buffer

open Lib Lib.LittleEndian

variable {Double : Type*}

inductive Command (Double : Type*) where
  | init (size : Nat)
  | initData (data : List UInt8)
  | write (data : List UInt8)
  | writeByte (value : UInt8)
  | writeVarInt (value : UInt64)
  | writeAs (type : CType) (value : Double)
  | read (size : Nat)
  | readByte
  | readAs (type : CType)
  | pack
  | reset
  | flip

structure Request (Double : Type*) where
  heap : Heap
  command : Command Double

/-- The size that a command is about. -/
def Command.size : Command Double → Nat
  | .init size => size
  | .initData data => data.length
  | .write data => data.length
  | .writeByte _ => 1
  | .writeVarInt value => (varIntChunks value.toNat).flatten.length
  | .writeAs type _ => type.size
  | .read size => size
  | .readByte => 1
  | .readAs type => type.size
  | .pack => 0
  | .reset => 0
  | .flip => 0

/-- The answer to a command, which is what it returns, if that is a number, and
what it moves to `output`, and the buffer afterwards. -/
def call (conversion : Conversion Double) (heap : Heap) (buffer : ByteBuffer) :
    Command Double → Option (Nat × List UInt8 × ByteBuffer)
  | .init size => (bufferInit heap size).map fun buffer => (0, [], buffer)
  | .initData data => (bufferInitData heap data).map fun buffer => (0, [], buffer)
  | .write data => (bufferWrite heap buffer data).map fun (ret, buffer) => (ret, [], buffer)
  | .writeByte value => (bufferWriteByte heap buffer value).map fun (ret, buffer) =>
      (ret, [], buffer)
  | .writeVarInt value => (bufferWriteVarInt heap buffer value.toNat).map fun (ret, buffer) =>
      (ret, [], buffer)
  | .writeAs type value => (bufferWriteAs conversion type heap buffer value).map
      fun (ret, buffer) => (ret, [], buffer)
  | .read size => bufferRead buffer size
  | .readByte => bufferReadByte buffer
  | .readAs type => bufferReadAs type buffer
  | .pack => (bufferPack buffer).map fun buffer => (0, [], buffer)
  | .reset => some (0, [], bufferReset buffer)
  | .flip => some (0, [], bufferFlip buffer)

/-- The machine of the buffer; nothing is left of it after undefined behaviour,
or where there is no memory for the first block. -/
def bufferStep (conversion : Conversion Double) (buffer : Option ByteBuffer)
    (request : Request Double) : Option (Nat × List UInt8) × Option ByteBuffer :=
  match buffer.bind fun buffer => call conversion request.heap buffer request.command with
  | some (ret, output, buffer) => (some (ret, output), some buffer)
  | none => (none, none)

/-- What a command means for the queue. -/
def queueCall (conversion : Conversion Double) (q : RewindQueue UInt8) :
    Command Double → (Nat × List UInt8) × RewindQueue UInt8
  | .init _ => ((0, []), .empty)
  | .initData data => ((0, []), ⟨[], data⟩)
  | .write data => ((data.length, []), q.write data)
  | .writeByte value => ((1, []), q.write [value])
  | .writeVarInt value =>
      (((varIntChunks value.toNat).flatten.length, []),
        q.write (varIntChunks value.toNat).flatten)
  | .writeAs type value => ((type.size, []), q.write (conversion.bytes type value))
  | .read size => ((((q.read size).1.getD []).length, (q.read size).1.getD []), (q.read size).2)
  | .readByte => ((((q.read 1).1.getD []).length, (q.read 1).1.getD []), (q.read 1).2)
  | .readAs type =>
      ((((q.read type.size).1.getD []).length, (q.read type.size).1.getD []),
        (q.read type.size).2)
  | .pack => ((0, []), q.pack)
  | .reset => ((0, []), .empty)
  | .flip => ((0, []), q.flip)

def queueStep (conversion : Conversion Double) (q : RewindQueue UInt8)
    (request : Request Double) : (Nat × List UInt8) × RewindQueue UInt8 :=
  queueCall conversion q request.command

section Step

variable (conversion : Conversion Double) {heap : Heap} {q : RewindQueue UInt8}
  {buffer : ByteBuffer}

private theorem bufferRead_of_small {n : Nat} (hstores : Stores q buffer)
    (hsmall : buffer.writeHead + n < 2 ^ 62) :
    ∃ buffer', bufferRead buffer n =
        some (((q.read n).1.getD []).length, (q.read n).1.getD [], buffer') ∧
      Stores (q.read n).2 buffer' ∧ buffer'.writeHead ≤ buffer.writeHead + n := by
  have hread := hstores.le.1
  obtain ⟨buffer', hcall, hstores', _⟩ := bufferRead_spec (n := n) hstores (by omega)
  refine ⟨buffer', hcall, hstores', ?_⟩
  have hsame : (q.read n).2.consumed.length + (q.read n).2.pending.length =
      q.consumed.length + q.pending.length := by
    unfold RewindQueue.read
    split
    · rename_i hle
      simp only [List.length_append, List.length_take_of_le hle, List.length_drop]
      omega
    · rfl
  rw [hstores'.writeHead_eq, hsame, ← hstores.writeHead_eq]
  exact Nat.le_add_right _ _

/-- The step: a call answers as the queue does, and the heads stay small. -/
theorem call_refines (command : Command Double) (hstores : Stores q buffer)
    (hheap : ∀ n, (heap n).isSome) (hsmall : buffer.writeHead + command.size < 2 ^ 62) :
    ∃ buffer', call conversion heap buffer command =
        some ((queueCall conversion q command).1.1, (queueCall conversion q command).1.2, buffer') ∧
      Stores (queueCall conversion q command).2 buffer' ∧
      buffer'.writeHead ≤ buffer.writeHead + command.size := by
  cases command with
  | init size =>
      have hlt : size < 2 ^ 63 := by
        rw [Command.size] at hsmall
        omega
      obtain ⟨buffer', hinit, hstores', _⟩ := bufferInit_spec size ⟨hlt, hheap size⟩
      refine ⟨buffer', ?_, hstores', ?_⟩
      · rw [call, hinit]
        rfl
      · rw [hstores'.writeHead_eq]
        exact Nat.zero_le _
  | initData data =>
      have hlt : data.length < 2 ^ 63 := by
        rw [Command.size] at hsmall
        omega
      obtain ⟨buffer', hinit, hstores', _⟩ := bufferInitData_spec ⟨hlt, hheap data.length⟩
      refine ⟨buffer', ?_, hstores', ?_⟩
      · rw [call, hinit]
        rfl
      · rw [hstores'.writeHead_eq, List.length_nil, Nat.zero_add]
        exact Nat.le_add_left _ _
  | write data =>
      obtain ⟨buffer', hput, hstores', hhead⟩ :=
        putChunks_of_small [data] hstores hheap
          (by simpa [Command.size] using hsmall)
      rw [List.flatten_singleton] at hstores' hhead
      refine ⟨buffer', ?_, hstores', hhead⟩
      rw [call, bufferWrite_eq_chunks, hput]
      rfl
  | writeByte value =>
      obtain ⟨buffer', hput, hstores', hhead⟩ :=
        putChunks_of_small [[value]] hstores hheap
          (by simpa [Command.size] using hsmall)
      refine ⟨buffer', ?_, hstores', hhead⟩
      rw [call, bufferWriteByte_eq_chunks, hput]
      rfl
  | writeVarInt value =>
      obtain ⟨buffer', hput, hstores', hhead⟩ :=
        putChunks_of_small (varIntChunks value.toNat) hstores hheap hsmall
      refine ⟨buffer', ?_, hstores', hhead⟩
      rw [call, bufferWriteVarInt, hput]
      rfl
  | writeAs type value =>
      have hlength := conversion.length_bytes type value
      obtain ⟨buffer', hput, hstores', hhead⟩ :=
        putChunks_of_small [conversion.bytes type value] hstores hheap
          (by simpa [Command.size, hlength] using hsmall)
      rw [List.flatten_singleton] at hstores' hhead
      rw [hlength] at hhead
      refine ⟨buffer', ?_, hstores', hhead⟩
      rw [call, bufferWriteAs_eq_chunks, hput]
      rfl
  | read size => exact bufferRead_of_small hstores hsmall
  | readByte => exact bufferRead_of_small (n := 1) hstores hsmall
  | readAs type => exact bufferRead_of_small hstores hsmall
  | pack =>
      obtain ⟨buffer', hpack, hstores', _⟩ := bufferPack_spec hstores
      refine ⟨buffer', ?_, hstores', ?_⟩
      · rw [call, hpack]
        rfl
      · have hle := hstores.writeHead_eq
        have hfront : buffer'.writeHead = q.pending.length :=
          hstores'.writeHead_eq.trans (Nat.zero_add _)
        omega
  | reset =>
      exact ⟨bufferReset buffer, rfl, bufferReset_spec buffer, Nat.zero_le _⟩
  | flip =>
      exact ⟨bufferFlip buffer, rfl, bufferFlip_spec hstores, Nat.le_refl _⟩

end Step

/-- The run, by induction on the requests. -/
theorem run_refines (conversion : Conversion Double) {q : RewindQueue UInt8} {buffer : ByteBuffer}
    (requests : List (Request Double)) (hstores : Stores q buffer)
    (hheap : ∀ request ∈ requests, ∀ n, (request.heap n).isSome)
    (hsmall : buffer.writeHead + (requests.map fun r => r.command.size).sum < 2 ^ 62) :
    ∃ after, Machine.final (bufferStep conversion) (some buffer) requests = some after ∧
      Stores (Machine.final (queueStep conversion) q requests) after ∧
      Machine.outputs (bufferStep conversion) (some buffer) requests =
        (Machine.outputs (queueStep conversion) q requests).map some := by
  induction requests generalizing q buffer with
  | nil => exact ⟨buffer, rfl, hstores, rfl⟩
  | cons request rest ih =>
      rw [List.map_cons, List.sum_cons] at hsmall
      obtain ⟨buffer', hcall, hstores', hhead⟩ := call_refines conversion
        request.command hstores (hheap request (List.mem_cons_self ..)) (by omega)
      have hstep : bufferStep conversion (some buffer) request =
          (some (queueStep conversion q request).1, some buffer') := by
        rw [bufferStep, Option.bind_some, hcall]
        rfl
      obtain ⟨after, hfinal, hafter, houtputs⟩ := ih hstores'
        (fun request hmem => hheap request (List.mem_cons_of_mem _ hmem)) (by omega)
      refine ⟨after, ?_, hafter, ?_⟩
      · rw [Machine.final, hstep]
        exact hfinal
      · rw [Machine.outputs, Machine.outputs, hstep, List.map_cons, houtputs]
        rfl

/-- The byte buffer refines the queue: after every initial part of a run the heads
are in order, the bytes in front of them are those consumed and those pending, and
the answers are those of the queue. -/
theorem buffer_refines_queue (conversion : Conversion Double) (heap : Heap) (capacity : Nat)
    (requests : List (Request Double)) (hheap : ∀ n, (heap n).isSome)
    (hrequests : ∀ request ∈ requests, ∀ n, (request.heap n).isSome)
    (hsmall : capacity + (requests.map fun r => r.command.size).sum < 2 ^ 62) :
    ∃ buffer, bufferInit heap capacity = some buffer ∧ buffer.capacity = capacity ∧
      ∀ n ≤ requests.length, ∃ after,
        Machine.final (bufferStep conversion) (some buffer) (requests.take n) = some after ∧
        after.readHead ≤ after.writeHead ∧ after.writeHead ≤ after.capacity ∧
        after.data.bytes.take after.readHead =
          (Machine.final (queueStep conversion) .empty (requests.take n)).consumed ∧
        (after.data.bytes.drop after.readHead).take (after.writeHead - after.readHead) =
          (Machine.final (queueStep conversion) .empty (requests.take n)).pending ∧
        Machine.outputs (bufferStep conversion) (some buffer) (requests.take n) =
          (Machine.outputs (queueStep conversion) .empty (requests.take n)).map some := by
  obtain ⟨buffer, hinit, hstores, hcapacity⟩ :=
    bufferInit_spec capacity ⟨by omega, hheap capacity⟩
  refine ⟨buffer, hinit, hcapacity, ?_⟩
  intro n _
  have hhead : buffer.writeHead = 0 := hstores.writeHead_eq
  have hsum : ((requests.take n).map fun r => r.command.size).sum ≤
      (requests.map fun r => r.command.size).sum := by
    rw [← List.take_append_drop n requests, List.map_append, List.sum_append,
      List.take_append_drop]
    exact Nat.le_add_right _ _
  obtain ⟨after, hfinal, hafter, houtputs⟩ := run_refines conversion
    (requests.take n) hstores
    (fun request hmem => hrequests request (List.mem_of_mem_take hmem)) (by omega)
  refine ⟨after, hfinal, hafter.le.1, hafter.le.2, hafter.take_readHead, ?_, houtputs⟩
  rw [← hafter.pending_length, hafter.drop_readHead le_rfl, List.take_length]

/-- A buffer without capacity that is written, read in part, packed and read again. -/
theorem buffer_refines_queue_pack :
    let heap : Heap := fun _ => some fun _ => 0
    let requests : List (Request Int) := [⟨heap, .write [1, 2, 3]⟩, ⟨heap, .read 2⟩,
      ⟨heap, .pack⟩, ⟨heap, .writeAs .short (-2)⟩, ⟨heap, .read 9⟩, ⟨heap, .flip⟩]
    ∃ buffer, bufferInit heap 0 = some buffer ∧ buffer.capacity = 0 ∧
      ∀ n ≤ requests.length, ∃ after,
        Machine.final (bufferStep integerConversion) (some buffer) (requests.take n) =
          some after ∧
        after.readHead ≤ after.writeHead ∧ after.writeHead ≤ after.capacity ∧
        after.data.bytes.take after.readHead =
          (Machine.final (queueStep integerConversion) .empty (requests.take n)).consumed ∧
        (after.data.bytes.drop after.readHead).take (after.writeHead - after.readHead) =
          (Machine.final (queueStep integerConversion) .empty (requests.take n)).pending ∧
        Machine.outputs (bufferStep integerConversion) (some buffer) (requests.take n) =
          (Machine.outputs (queueStep integerConversion) .empty (requests.take n)).map some := by
  intro heap requests
  refine buffer_refines_queue integerConversion heap 0 requests (fun _ => rfl) ?_ (by decide)
  intro request hmem
  simp only [requests, List.mem_cons, List.not_mem_nil, or_false] at hmem
  rcases hmem with rfl | rfl | rfl | rfl | rfl | rfl <;> exact fun _ => rfl

end LuaMumble.Buffer
