import LuaMumble.Buffer.Decode

/-!
Numbers of 64 bits written one after another with `buffer_writeVarInt`, and read back with
`buffer_readVarInt`. A reader may find other bytes in front of the read head, and others behind
what was written.
-/

namespace LuaMumble.Buffer

open Lib

/-- A call of `buffer_writeVarInt`, with what the allocator does in it. -/
structure VarIntWrite where
  heap : Heap
  value : UInt64

/-- Writes the numbers in order. The list has what the calls return. -/
def writeVarInts : ByteBuffer → List VarIntWrite → Option (List Nat × ByteBuffer)
  | buffer, [] => some ([], buffer)
  | buffer, call :: calls =>
      (bufferWriteVarInt call.heap buffer call.value.toNat).bind fun (count, buffer) =>
        (writeVarInts buffer calls).map fun (counts, buffer) => (count :: counts, buffer)

/-- Reads as many numbers. The list has `*output` and how far the read head moves, call by
call. -/
def readVarInts : Nat → ByteBuffer → Option (List (Nat × Int) × ByteBuffer)
  | 0, buffer => some ([], buffer)
  | n + 1, buffer =>
      (bufferReadVarInt buffer).bind fun (_, output, after) =>
        (readVarInts n after).map fun (results, last) =>
          ((output, (after.readHead : Int) - buffer.readHead) :: results, last)

/-- Each call finds room for what it stores, in the block or in a larger one that it is
granted. -/
def RoomForVarInts : ByteBuffer → List VarIntWrite → Prop
  | _, [] => True
  | buffer, call :: calls =>
      ChunksFit call.heap buffer.capacity buffer.writeHead
          ((varIntChunks call.value.toNat).map List.length) ∧
        ∀ count next, bufferWriteVarInt call.heap buffer call.value.toNat = some (count, next) →
          RoomForVarInts next calls

def VarIntWrite.bytes (call : VarIntWrite) : List UInt8 :=
  (varIntChunks call.value.toNat).flatten

section Write

variable {q : RewindQueue UInt8} {buffer : ByteBuffer}

theorem bufferWriteVarInt_of_fit {call : VarIntWrite} (hstores : Stores q buffer)
    (hfit : ChunksFit call.heap buffer.capacity buffer.writeHead
      ((varIntChunks call.value.toNat).map List.length)) :
    ∃ next, bufferWriteVarInt call.heap buffer call.value.toNat =
        some (call.bytes.length, next) ∧
      Stores (q.write call.bytes) next := by
  obtain ⟨next, hput, hstores'⟩ := putChunks_of_fit hstores hfit
  refine ⟨next, ?_, hstores'⟩
  rw [bufferWriteVarInt, hput]
  rfl

/-- The run of the writers, by induction on the calls. -/
theorem writeVarInts_run (calls : List VarIntWrite) (hstores : Stores q buffer)
    (hroom : RoomForVarInts buffer calls) :
    ∃ written,
      writeVarInts buffer calls = some (calls.map fun call => call.bytes.length, written) ∧
      Stores (q.write (calls.flatMap VarIntWrite.bytes)) written := by
  induction calls generalizing q buffer with
  | nil =>
      refine ⟨buffer, rfl, ?_⟩
      rw [List.flatMap_nil, RewindQueue.write_nil]
      exact hstores
  | cons call calls ih =>
      obtain ⟨hfit, hlater⟩ := hroom
      obtain ⟨next, hcall, hstores'⟩ := bufferWriteVarInt_of_fit hstores hfit
      obtain ⟨written, hrest, hwritten⟩ := ih hstores' (hlater _ _ hcall)
      refine ⟨written, ?_, ?_⟩
      · rw [writeVarInts, hcall, Option.bind_some]
        dsimp only
        rw [hrest]
        rfl
      · rw [List.flatMap_cons, RewindQueue.write_append]
        exact hwritten

/-- Where the allocator has memory, there is room for everything of less than 2^62 bytes. -/
theorem roomForVarInts_of_small (calls : List VarIntWrite) (hstores : Stores q buffer)
    (hheap : ∀ call ∈ calls, ∀ n, (call.heap n).isSome)
    (hsmall : buffer.writeHead + (calls.flatMap VarIntWrite.bytes).length < 2 ^ 62) :
    RoomForVarInts buffer calls := by
  induction calls generalizing q buffer with
  | nil => trivial
  | cons call calls ih =>
      rw [List.flatMap_cons, List.length_append] at hsmall
      obtain ⟨hmemory, hrest⟩ := List.forall_mem_cons.mp hheap
      have hsum : ((varIntChunks call.value.toNat).map List.length).sum = call.bytes.length := by
        rw [VarIntWrite.bytes, List.length_flatten]
      have hfit : ChunksFit call.heap buffer.capacity buffer.writeHead
          ((varIntChunks call.value.toNat).map List.length) :=
        chunksFit_of_small hmemory (by omega)
      refine ⟨hfit, ?_⟩
      intro count next hcall
      obtain ⟨next', hcall', hstores'⟩ := bufferWriteVarInt_of_fit hstores hfit
      obtain rfl : next = next' := congrArg Prod.snd (Option.some.inj (hcall.symm.trans hcall'))
      have hhead : next.writeHead = buffer.writeHead + call.bytes.length := by
        rw [hstores'.writeHead_eq, hstores.writeHead_eq, RewindQueue.write, List.length_append,
          Nat.add_assoc]
      exact ih hstores' hrest (by omega)

end Write

section Read

variable {q : RewindQueue UInt8} {buffer : ByteBuffer}

/-- The run of the readers, by induction on the calls. -/
theorem readVarInts_run (calls : List VarIntWrite) {more : List UInt8} (hstores : Stores q buffer)
    (hpending : q.pending = calls.flatMap VarIntWrite.bytes ++ more) :
    ∃ last q', readVarInts calls.length buffer =
        some (calls.map fun call => (call.value.toNat, (call.bytes.length : Int)), last) ∧
      Stores q' last ∧ q'.pending = more := by
  induction calls generalizing q buffer with
  | nil => exact ⟨buffer, q, rfl, hstores, hpending⟩
  | cons call calls ih =>
      rw [List.flatMap_cons, List.append_assoc] at hpending
      obtain ⟨size, after, hcall, -, hafter⟩ :=
        bufferReadVarInt_chunks call.value.toNat_lt hstores hpending
      have hle : call.bytes.length ≤ q.pending.length := by
        rw [hpending, List.length_append]
        exact Nat.le_add_right _ _
      have hleft : (q.read call.bytes.length).2.pending =
          calls.flatMap VarIntWrite.bytes ++ more := by
        rw [RewindQueue.read_of_le hle, hpending]
        exact List.drop_left
      have hmoved : (after.readHead : Int) - buffer.readHead = call.bytes.length := by
        have hhead : after.readHead = (q.read call.bytes.length).2.consumed.length :=
          hafter.readHead_eq
        rw [RewindQueue.read_of_le hle, List.length_append, List.length_take_of_le hle,
          ← hstores.readHead_eq] at hhead
        omega
      obtain ⟨last, q', hrest, hlast, hmore⟩ := ih hafter hleft
      refine ⟨last, q', ?_, hlast, hmore⟩
      rw [List.length_cons, readVarInts, hcall, Option.bind_some]
      dsimp only
      rw [hrest, hmoved]
      rfl

end Read

/-- For every list of numbers of 64 bits and every buffer with room for them: the numbers are
appended, and any buffer in which their bytes follow the read head gives them back in order,
each read moving the head by what the write returned. -/
theorem varints_round_trip (buffer : ByteBuffer) (calls : List VarIntWrite)
    (hread : buffer.readHead ≤ buffer.writeHead) (hwrite : buffer.writeHead ≤ buffer.capacity)
    (hroom : RoomForVarInts buffer calls) :
    ∃ (counts : List Nat) (written : ByteBuffer) (bytes : List UInt8),
      writeVarInts buffer calls = some (counts, written) ∧
      written.unread = buffer.unread ++ bytes ∧
      ∀ (reader : ByteBuffer) (more : List UInt8), reader.readHead ≤ reader.writeHead →
        reader.writeHead ≤ reader.capacity → reader.unread = bytes ++ more →
        ∃ last, readVarInts calls.length reader =
            some ((calls.map fun call => call.value.toNat).zip
              (counts.map fun count : Nat => (count : Int)), last) ∧
          last.unread = more := by
  obtain ⟨written, hcalls, hwritten⟩ := writeVarInts_run calls (stores_unread hread hwrite) hroom
  refine ⟨_, written, calls.flatMap VarIntWrite.bytes, hcalls, hwritten.unread_eq, ?_⟩
  intro reader more hread' hwrite' hunread
  obtain ⟨last, q', hresults, hlast, hmore⟩ :=
    readVarInts_run calls (stores_unread hread' hwrite') hunread
  refine ⟨last, ?_, hlast.unread_eq.trans hmore⟩
  rw [hresults, List.map_map, List.zip_map']
  rfl

/-- The last number of one byte, 2^14, and the largest number with a flag byte, written behind
an unread byte. -/
def threeVarInts : List VarIntWrite :=
  [⟨fun _ => some fun _ => 0, 127⟩, ⟨fun _ => some fun _ => 0, 16384⟩,
    ⟨fun _ => some fun _ => 0, 18446744073709551611⟩]

theorem varints_round_trip_three :
    ∃ (counts : List Nat) (written : ByteBuffer) (bytes : List UInt8),
      writeVarInts ⟨⟨[9], by simp⟩, 0, 1⟩ threeVarInts = some (counts, written) ∧
      written.unread = [9] ++ bytes ∧
      ∀ (reader : ByteBuffer) (more : List UInt8), reader.readHead ≤ reader.writeHead →
        reader.writeHead ≤ reader.capacity → reader.unread = bytes ++ more →
        ∃ last, readVarInts threeVarInts.length reader =
            some ((threeVarInts.map fun call => call.value.toNat).zip
              (counts.map fun count : Nat => (count : Int)), last) ∧
          last.unread = more := by
  apply varints_round_trip ⟨⟨[9], by simp⟩, 0, 1⟩ threeVarInts (by decide) (by decide)
  apply roomForVarInts_of_small threeVarInts (stores_unread (by decide) (by decide))
  · simp [threeVarInts]
  · decide

end LuaMumble.Buffer
