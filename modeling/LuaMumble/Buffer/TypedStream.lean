import LuaMumble.Buffer.Methods
import LuaMumble.Buffer.VarInt
import LuaMumble.Lib.Machine

/-!
Values written one after another and read back in the same order. Each reader
takes from the front what its writer has appended, except for an empty string:
its bytes are none, `buffer_read` returns the number of them, and `readString`
takes that 0 for the end of the data.
-/

namespace LuaMumble.Buffer

open Lib Lib.LittleEndian

variable {Double : Type*}

/-- The values that have a writer and a reader, as a script has them. -/
inductive StreamValue where
  | byte (n : UInt8)
  | short (n : Int16)
  | int (n : Int32)
  | varInt (n : Int64)
  | bool (b : Bool)
  | string (s : { s : List UInt8 // s.length < 2 ^ 20 })
  deriving DecidableEq

namespace StreamValue

def writer : StreamValue → Method Double
  | .byte n => .writeByte (Int64.ofInt n.toNat)
  | .short n => .writeShort (Int64.ofInt n.toInt)
  | .int n => .writeInt (Int64.ofInt n.toInt)
  | .varInt n => .writeVarInt n
  | .bool b => .writeBool b
  | .string s => .writeString s.val

def reader : StreamValue → Method Double
  | .byte _ => .readByte
  | .short _ => .readShort
  | .int _ => .readInt
  | .varInt _ => .readVarInt
  | .bool _ => .readBool
  | .string _ => .readString

/-- The value as `lua_pushinteger` and its like get it. -/
def pushed : StreamValue → LuaValue
  | .byte n => .integer n.toNat
  | .short n => .integer n.toInt
  | .int n => .integer n.toInt
  | .varInt n => .integer n.toInt
  | .bool b => .boolean b
  | .string s => .string s.val

/-- What the buffer gets, in the chunks that it makes room for. -/
def chunks : StreamValue → List (List UInt8)
  | .byte n => [[n]]
  | .short n => [digits 2 (n.toInt % 2 ^ 16).toNat]
  | .int n => [digits 4 (n.toInt % 2 ^ 32).toNat]
  | .varInt n => varIntChunks (toUnsigned n)
  | .bool b => [[if b then 1 else 0]]
  | .string s => varIntChunks s.val.length ++ [s.val]

def bytes (v : StreamValue) : List UInt8 := v.chunks.flatten

def IsEmptyString (v : StreamValue) : Prop := v = .string ⟨[], Nat.two_pow_pos 20⟩

instance (v : StreamValue) : Decidable v.IsEmptyString :=
  inferInstanceAs (Decidable (_ = _))

end StreamValue

/-- The calls raise no error, the readers return the values, and nothing is left in
the buffer. -/
def RoundTrips (arithmetic : Arithmetic Double) (buffer : ByteBuffer)
    (writes reads : List (MethodCall Double)) (values : List StreamValue) : Prop :=
  (∀ result ∈ Machine.outputs (methodStep arithmetic) (some buffer) (writes ++ reads),
    ∃ pushed, result = some (.values pushed)) ∧
  (Machine.outputs (methodStep arithmetic) (some buffer) (writes ++ reads)).drop writes.length =
    values.map (fun v => some (.values [v.pushed])) ∧
  ∃ after, Machine.final (methodStep arithmetic) (some buffer) (writes ++ reads) = some after ∧
    bufferIsEmpty after = true

section Numbers

private theorem bmod_toNat_emod {n : Int} {m : Nat} (hlow : -(m : Int) ≤ n * 2)
    (hhigh : n * 2 < m) : Int.bmod ((n % m).toNat : Int) m = n := by
  have hnonneg : 0 ≤ n % (m : Int) := Int.emod_nonneg n (by omega)
  rw [Int.toNat_of_nonneg hnonneg, Int.emod_bmod]
  exact Int.bmod_eq_of_le_mul_two hlow hhigh

theorem signedValue_digits (size : Nat) {n : Int} (hlow : -(2 ^ (8 * size) : Nat) ≤ n * 2)
    (hhigh : n * 2 < (2 ^ (8 * size) : Nat)) :
    signedValue (digits size (n % 2 ^ (8 * size)).toNat) = n := by
  have hpow : (2 : Int) ^ (8 * size) = (2 ^ (8 * size) : Nat) := by push_cast; rfl
  have hpos : (0 : Int) < (2 ^ (8 * size) : Nat) := Int.natCast_pos.mpr (Nat.two_pow_pos _)
  have hlt := Int.emod_lt_of_pos n hpos
  have hbase : 256 ^ size = 2 ^ (8 * size) := by rw [Nat.pow_mul]
  have hsmall : (n % (2 ^ (8 * size) : Nat)).toNat < 2 ^ (8 * size) := by omega
  rw [signedValue, digits_length, value_digits, hbase, hpow, Nat.mod_eq_of_lt hsmall]
  exact bmod_toNat_emod hlow hhigh

theorem toInteger_toUnsigned (n : Int64) : toInteger (toUnsigned n) = n.toInt := by
  have hlow := n.le_toInt
  have hhigh := n.toInt_lt
  have hmod := bmod_toNat_emod (n := n.toInt) (m := 18446744073709551616) (by omega) (by omega)
  exact hmod

theorem toUnsigned_lt (n : Int64) : toUnsigned n < 2 ^ 64 := by
  unfold toUnsigned
  omega

end Numbers

section Write

variable {q : RewindQueue UInt8} {heap : Heap} {buffer : ByteBuffer}

/-- A writer stores the chunks of its value and pushes a count. -/
theorem StreamValue.writer_eq (arithmetic : Arithmetic Double) (v : StreamValue)
    {after : ByteBuffer} (hput : buffer.putChunks heap v.chunks = some after) :
    ∃ count, (v.writer : Method Double).perform arithmetic heap buffer =
      some (.values [.integer count], after) := by
  have hbyte (value : UInt8) (h : buffer.putChunks heap [[value]] = some after) :
      pushWritten (bufferWriteByte heap buffer value) =
        some (.values [.integer (toInteger 1)], after) := by
    rw [pushWritten, bufferWriteByte_eq_chunks, h]
    rfl
  have has (type : CType) (n : Int) (hholds : type.Holds n) (hlow : -2 ^ 53 ≤ n)
      (hhigh : n ≤ 2 ^ 53)
      (h : buffer.putChunks heap [digits type.size (n % 2 ^ (8 * type.size)).toNat] = some after) :
      pushWritten (bufferWriteAs arithmetic.toConversion type heap buffer
        (arithmetic.ofInteger n)) = some (.values [.integer (toInteger type.size)], after) := by
    rw [pushWritten, bufferWriteAs_eq_chunks, arithmetic.bytes_ofInteger type n hholds hlow hhigh,
      h]
    rfl
  cases v with
  | byte n =>
      have hlt := n.toNat_lt
      have hsame : UInt8.ofNat (toUnsigned (Int64.ofInt n.toNat)) = n := by
        rw [toUnsigned, Int64.toInt_ofInt_of_le (by omega) (by omega),
          Int.emod_eq_of_lt (by omega) (by omega), Int.toNat_natCast, UInt8.ofNat_toNat]
      refine ⟨toInteger 1, ?_⟩
      rw [StreamValue.writer, Method.perform, luabufferWriteByte, hsame]
      exact hbyte n hput
  | short n =>
      have hlow := n.le_toInt
      have hhigh := n.toInt_lt
      refine ⟨toInteger CType.short.size, ?_⟩
      rw [StreamValue.writer, Method.perform, luabufferWriteShort,
        Int64.toInt_ofInt_of_le (by omega) (by omega)]
      exact has .short n.toInt ⟨hlow, hhigh⟩ (by omega) (by omega) hput
  | int n =>
      have hlow := n.le_toInt
      have hhigh := n.toInt_lt
      refine ⟨toInteger CType.int.size, ?_⟩
      rw [StreamValue.writer, Method.perform, luabufferWriteInt,
        Int64.toInt_ofInt_of_le (by omega) (by omega)]
      exact has .int n.toInt ⟨hlow, hhigh⟩ (by omega) (by omega) hput
  | varInt n =>
      refine ⟨toInteger (varIntChunks (toUnsigned n)).flatten.length, ?_⟩
      rw [StreamValue.writer, Method.perform, luabufferWriteVarInt, bufferWriteVarInt]
      rw [StreamValue.chunks] at hput
      rw [hput]
      rfl
  | bool b => exact ⟨_, hbyte _ hput⟩
  | string s =>
      rw [StreamValue.chunks, putChunks_append] at hput
      obtain ⟨next, hlength, hrest⟩ := Option.bind_eq_some_iff.mp hput
      refine ⟨toInteger s.val.length, ?_⟩
      rw [StreamValue.writer, Method.perform, luabufferWriteString, bufferWriteVarInt, hlength,
        Option.map_some, Option.bind_some]
      dsimp only
      rw [pushWritten, bufferWrite_eq_chunks, hrest]
      rfl

/-- The run of the writers, by induction on the values. -/
theorem writes_run (arithmetic : Arithmetic Double) (values : List StreamValue)
    (writes : List (MethodCall Double)) (hstores : Stores q buffer)
    (hmethods : writes.map MethodCall.method = values.map StreamValue.writer)
    (hheap : ∀ call ∈ writes, ∀ n, (call.heap n).isSome)
    (hsmall : buffer.writeHead + (values.flatMap StreamValue.bytes).length < 2 ^ 62) :
    ∃ after, Machine.final (methodStep arithmetic) (some buffer) writes = some after ∧
      Stores (q.write (values.flatMap StreamValue.bytes)) after ∧
      (∀ result ∈ Machine.outputs (methodStep arithmetic) (some buffer) writes,
        ∃ pushed, result = some (.values pushed)) := by
  induction writes generalizing q buffer values with
  | nil =>
      obtain rfl : values = [] := by
        cases values with
        | nil => rfl
        | cons v rest => cases hmethods
      refine ⟨buffer, rfl, ?_, ?_⟩
      · rw [List.flatMap_nil, RewindQueue.write_nil]
        exact hstores
      · intro result hmem
        cases hmem
  | cons call later ih =>
      cases values with
      | nil => cases hmethods
      | cons v rest =>
          rw [List.map_cons, List.map_cons, List.cons.injEq] at hmethods
          obtain ⟨hmethod, hlater⟩ := hmethods
          rw [List.flatMap_cons, List.length_append] at hsmall
          obtain ⟨next, hput, hnext, hhead⟩ := putChunks_of_small v.chunks hstores
            (hheap call (List.mem_cons_self ..))
            ((Nat.add_le_add_left (Nat.le_add_right _ _) _).trans_lt hsmall)
          obtain ⟨count, hcall⟩ := v.writer_eq arithmetic hput
          have hstep : methodStep arithmetic (some buffer) call =
              (some (.values [.integer count]), some next) := by
            rw [methodStep, Option.bind_some, hmethod, hcall]
          have hbytes : v.chunks.flatten = v.bytes := rfl
          rw [hbytes] at hnext hhead
          obtain ⟨after, hfinal, hafter, hvalues⟩ := ih rest hnext hlater
            (fun call hmem => hheap call (List.mem_cons_of_mem _ hmem)) (by omega)
          refine ⟨after, ?_, ?_, ?_⟩
          · rw [Machine.final, hstep]
            exact hfinal
          · rw [List.flatMap_cons, RewindQueue.write_append]
            exact hafter
          · intro result hmem
            rw [Machine.outputs, hstep, List.mem_cons] at hmem
            rcases hmem with rfl | hmem
            · exact ⟨_, rfl⟩
            · exact hvalues result hmem

end Write

section Read

variable {q : RewindQueue UInt8} {buffer : ByteBuffer}

theorem pushRead_of_append {xs more : List UInt8} (hstores : Stores q buffer)
    (hpending : q.pending = xs ++ more) (hne : xs ≠ []) (push : List UInt8 → LuaValue) :
    ∃ after q', pushRead (bufferRead buffer xs.length) push = some (.values [push xs], after) ∧
      Stores q' after ∧ q'.pending = more := by
  have hheads := hstores.le
  have hcapacity := buffer.capacity_lt
  have hlength := hstores.pending_length
  have hle : xs.length ≤ q.pending.length := by
    rw [hpending, List.length_append]
    exact Nat.le_add_right _ _
  obtain ⟨after, hread, hstores', _⟩ := bufferRead_spec (n := xs.length) hstores (by omega)
  have hpositive : xs.length ≠ 0 := List.length_eq_zero_iff.not.mpr hne
  have htake : (q.read xs.length).1.getD [] = xs := by
    rw [RewindQueue.read, if_pos hle, Option.getD_some, hpending, List.take_left]
  refine ⟨after, (q.read xs.length).2, ?_, hstores', ?_⟩
  · rw [pushRead, hread, Option.map_some, htake]
    dsimp only
    rw [if_neg hpositive]
  · rw [RewindQueue.read_of_le hle, hpending]
    exact List.drop_left

/-- A varint in front of other bytes is read, and the other bytes are left. -/
theorem bufferReadVarInt_append {n : Nat} {more : List UInt8} (hn : n < 2 ^ 64)
    (hstores : Stores q buffer) (hpending : q.pending = (varIntChunks n).flatten ++ more) :
    ∃ size after q', bufferReadVarInt buffer = some (size, n, after) ∧ size ≠ 0 ∧
      Stores q' after ∧ q'.pending = more := by
  have hle : (varIntChunks n).flatten.length ≤ q.pending.length := by
    rw [hpending, List.length_append]
    exact Nat.le_add_right _ _
  obtain ⟨size, after, hread, hsize, hstores'⟩ := bufferReadVarInt_chunks hn hstores hpending
  refine ⟨size, after, _, hread, hsize, hstores', ?_⟩
  rw [RewindQueue.read_of_le hle, hpending]
  exact List.drop_left

/-- A read of no bytes counts as a failure. -/
theorem pushRead_nothing (hstores : Stores q buffer) (push : List UInt8 → LuaValue) :
    ∃ after q', pushRead (bufferRead buffer 0) push = some (beyondLimit, after) ∧
      Stores q' after ∧ q'.pending = q.pending := by
  have hheads := hstores.le
  have hcapacity := buffer.capacity_lt
  obtain ⟨after, hread, hstores', _⟩ := bufferRead_spec (n := 0) hstores (by omega)
  have hnil : ((q.read 0).1.getD []).length = 0 := by
    rw [RewindQueue.read, if_pos (Nat.zero_le _)]
    rfl
  refine ⟨after, (q.read 0).2, ?_, hstores', ?_⟩
  · rw [pushRead, hread, Option.map_some]
    dsimp only
    rw [if_pos hnil]
  · rw [RewindQueue.read_of_le (Nat.zero_le _)]
    rfl

/-- What `readString` gives in front of a string and its length. -/
theorem luabufferReadString_append {s more : List UInt8} (hs : s.length < 2 ^ 64)
    (hstores : Stores q buffer)
    (hpending : q.pending = (varIntChunks s.length).flatten ++ (s ++ more)) :
    ∃ after q', luabufferReadString buffer =
        some (if s = [] then beyondLimit else .values [.string s], after) ∧
      Stores q' after ∧ q'.pending = more := by
  obtain ⟨size, next, q₁, hread, hsize, hstores₁, hleft⟩ :=
    bufferReadVarInt_append hs hstores hpending
  have hcall : luabufferReadString buffer = pushRead (bufferRead next s.length) .string := by
    rw [luabufferReadString, hread, Option.bind_some]
    dsimp only
    rw [if_neg hsize]
  by_cases hempty : s = []
  · subst hempty
    obtain ⟨after, q', hnothing, hstores', hmore⟩ := pushRead_nothing hstores₁ LuaValue.string
    exact ⟨after, q', hcall.trans hnothing, hstores', hmore.trans hleft⟩
  · obtain ⟨after, q', hrest, hstores', hmore⟩ :=
      pushRead_of_append hstores₁ hleft hempty LuaValue.string
    refine ⟨after, q', ?_, hstores', hmore⟩
    rw [hcall, hrest, if_neg hempty]

/-- A reader in front of its value pushes the value and takes its bytes, unless the
value is an empty string, for which it raises an error. -/
theorem StreamValue.reader_eq (arithmetic : Arithmetic Double) (heap : Heap) (v : StreamValue)
    {more : List UInt8} (hstores : Stores q buffer) (hpending : q.pending = v.bytes ++ more) :
    ∃ after q', (v.reader : Method Double).perform arithmetic heap buffer =
        some (if v.IsEmptyString then beyondLimit else .values [v.pushed], after) ∧
      Stores q' after ∧ q'.pending = more := by
  have hshow {call : Option (LuaResult × ByteBuffer)} (xs : List UInt8)
      (push : List UInt8 → LuaValue)
      (hcall : call = pushRead (bufferRead buffer xs.length) push) (hxs : q.pending = xs ++ more)
      (hne : xs ≠ []) (hpush : push xs = v.pushed) (hv : ¬ v.IsEmptyString) :
      ∃ after q', call = some (if v.IsEmptyString then beyondLimit else .values [v.pushed], after) ∧
        Stores q' after ∧ q'.pending = more := by
    obtain ⟨after, q', hread, hstores', hmore⟩ := pushRead_of_append hstores hxs hne push
    refine ⟨after, q', ?_, hstores', hmore⟩
    rw [hcall, hread, hpush, if_neg hv]
  cases v with
  | byte n =>
      refine hshow [n] (fun bytes => .integer (value bytes)) rfl hpending (List.cons_ne_nil _ _) ?_
        (by rintro ⟨⟩)
      simp [StreamValue.pushed]
  | short n =>
      have hlow := n.le_toInt
      have hhigh := n.toInt_lt
      have hlength := digits_length 2 (n.toInt % 2 ^ 16).toNat
      refine hshow (digits 2 (n.toInt % 2 ^ 16).toNat) (fun bytes => .integer (signedValue bytes))
        (by rw [hlength]; rfl)
        (by simpa [StreamValue.bytes, StreamValue.chunks] using hpending)
        (List.ne_nil_of_length_pos (by rw [hlength]; omega)) ?_ (by rintro ⟨⟩)
      exact congrArg LuaValue.integer (signedValue_digits 2 (by omega) (by omega))
  | int n =>
      have hlow := n.le_toInt
      have hhigh := n.toInt_lt
      have hlength := digits_length 4 (n.toInt % 2 ^ 32).toNat
      refine hshow (digits 4 (n.toInt % 2 ^ 32).toNat) (fun bytes => .integer (signedValue bytes))
        (by rw [hlength]; rfl)
        (by simpa [StreamValue.bytes, StreamValue.chunks] using hpending)
        (List.ne_nil_of_length_pos (by rw [hlength]; omega)) ?_ (by rintro ⟨⟩)
      exact congrArg LuaValue.integer (signedValue_digits 4 (by omega) (by omega))
  | varInt n =>
      obtain ⟨size, after, q', hread, hsize, hstores', hmore⟩ :=
        bufferReadVarInt_append (toUnsigned_lt n) hstores hpending
      refine ⟨after, q', ?_, hstores', hmore⟩
      rw [StreamValue.reader, Method.perform, luabufferReadVarInt, hread, Option.map_some,
        if_neg (by rintro ⟨⟩)]
      dsimp only
      rw [if_neg hsize, toInteger_toUnsigned, StreamValue.pushed]
  | bool b =>
      refine hshow [if b then 1 else 0] (fun bytes => .boolean (value bytes != 0)) rfl hpending
        (List.cons_ne_nil _ _) ?_ (by rintro ⟨⟩)
      cases b with
      | false => rfl
      | true => rfl
  | string s =>
      obtain ⟨s, hs⟩ := s
      have hsplit : q.pending = (varIntChunks s.length).flatten ++ (s ++ more) := by
        simpa [StreamValue.bytes, StreamValue.chunks] using hpending
      have hempty : (StreamValue.string ⟨s, hs⟩).IsEmptyString ↔ s = [] := by
        simp [StreamValue.IsEmptyString]
      obtain ⟨after, q', hread, hstores', hmore⟩ :=
        luabufferReadString_append (hs.trans (by omega)) hstores hsplit
      refine ⟨after, q', ?_, hstores', hmore⟩
      rw [StreamValue.reader, Method.perform, hread]
      simp only [hempty, StreamValue.pushed]

/-- The run of the readers over values that they can read, by induction on them. -/
theorem reads_run (arithmetic : Arithmetic Double) (values : List StreamValue)
    (reads : List (MethodCall Double)) (hstores : Stores q buffer)
    (hpending : q.pending = values.flatMap StreamValue.bytes)
    (hmethods : reads.map MethodCall.method = values.map StreamValue.reader)
    (hvalues : ∀ v ∈ values, ¬ v.IsEmptyString) :
    Machine.outputs (methodStep arithmetic) (some buffer) reads =
        values.map (fun v => some (.values [v.pushed])) ∧
      ∃ after, Machine.final (methodStep arithmetic) (some buffer) reads = some after ∧
        bufferIsEmpty after = true := by
  induction values generalizing q buffer reads with
  | nil =>
      obtain rfl : reads = [] := List.map_eq_nil_iff.mp hmethods
      refine ⟨rfl, buffer, rfl, ?_⟩
      have hlength := hstores.pending_length
      have hheads := hstores.le
      rw [hpending, List.flatMap_nil, List.length_nil] at hlength
      rw [bufferIsEmpty, beq_iff_eq]
      omega
  | cons v rest ih =>
      cases reads with
      | nil => cases hmethods
      | cons call later =>
          rw [List.map_cons, List.map_cons, List.cons.injEq] at hmethods
          obtain ⟨hmethod, hlater⟩ := hmethods
          rw [List.flatMap_cons] at hpending
          obtain ⟨hv, hrest⟩ := List.forall_mem_cons.mp hvalues
          obtain ⟨next, q', hcall, hnext, hmore⟩ :=
            v.reader_eq arithmetic call.heap hstores hpending
          rw [if_neg hv] at hcall
          have hstep : methodStep arithmetic (some buffer) call =
              (some (.values [v.pushed]), some next) := by
            rw [methodStep, Option.bind_some, hmethod, hcall]
          obtain ⟨houtputs, after, hfinal, hempty⟩ := ih later hnext hmore hlater hrest
          refine ⟨?_, after, ?_, hempty⟩
          · rw [Machine.outputs, hstep, List.map_cons, houtputs]
          · rw [Machine.final, hstep]
            exact hfinal

/-- The first empty string of the values raises an error. -/
theorem reads_error (arithmetic : Arithmetic Double) (values : List StreamValue)
    (reads : List (MethodCall Double)) (hstores : Stores q buffer)
    (hpending : q.pending = values.flatMap StreamValue.bytes)
    (hmethods : reads.map MethodCall.method = values.map StreamValue.reader)
    (hvalue : ∃ v ∈ values, v.IsEmptyString) :
    some beyondLimit ∈ Machine.outputs (methodStep arithmetic) (some buffer) reads := by
  induction values generalizing q buffer reads with
  | nil => simp at hvalue
  | cons v rest ih =>
      cases reads with
      | nil => cases hmethods
      | cons call later =>
          rw [List.map_cons, List.map_cons, List.cons.injEq] at hmethods
          obtain ⟨hmethod, hlater⟩ := hmethods
          rw [List.flatMap_cons] at hpending
          obtain ⟨next, q', hcall, hnext, hmore⟩ :=
            v.reader_eq arithmetic call.heap hstores hpending
          by_cases hv : v.IsEmptyString
          · rw [if_pos hv] at hcall
            rw [Machine.outputs, methodStep, Option.bind_some, hmethod, hcall]
            exact List.mem_cons_self ..
          · rw [if_neg hv] at hcall
            have hrest : ∃ v ∈ rest, v.IsEmptyString := by
              obtain ⟨w, hmem, hw⟩ := hvalue
              rcases List.mem_cons.mp hmem with rfl | hmem
              · exact absurd hw hv
              · exact ⟨w, hmem, hw⟩
            have herror := ih later hnext hmore hlater hrest
            rw [Machine.outputs, methodStep, Option.bind_some, hmethod, hcall]
            exact List.mem_cons_of_mem _ herror

end Read

/-- Values written to a fresh buffer are read back, and the buffer is empty again,
just when no one of them is an empty string. -/
theorem round_trips_iff (arithmetic : Arithmetic Double) (heap : Heap) (capacity : Nat)
    (buffer : ByteBuffer) (values : List StreamValue) (writes reads : List (MethodCall Double))
    (hfresh : bufferInit heap capacity = some buffer)
    (hwrites : writes.map MethodCall.method = values.map StreamValue.writer)
    (hreads : reads.map MethodCall.method = values.map StreamValue.reader)
    (hheap : ∀ call ∈ writes, ∀ n, (call.heap n).isSome)
    (hsmall : (values.flatMap StreamValue.bytes).length < 2 ^ 62) :
    RoundTrips arithmetic buffer writes reads values ↔ ∀ v ∈ values, ¬ v.IsEmptyString := by
  obtain ⟨data, _, rfl⟩ := Option.map_eq_some_iff.mp hfresh
  have hempty : Stores RewindQueue.empty ⟨data, 0, 0⟩ := RewindQueue.Represents.empty _
  obtain ⟨written, hfinal, hstores, hcounts⟩ := writes_run arithmetic values writes hempty hwrites
    hheap (by rw [Nat.zero_add]; exact hsmall)
  have hpending : (RewindQueue.empty.write (values.flatMap StreamValue.bytes)).pending =
      values.flatMap StreamValue.bytes := List.nil_append _
  have hsplit := @Machine.outputs_append _ _ _ (methodStep arithmetic) (some ⟨data, 0, 0⟩)
    writes reads
  rw [hfinal] at hsplit
  constructor
  · rintro ⟨hnoError, _, _⟩ v hmem hv
    have herror := reads_error arithmetic values reads hstores hpending hreads ⟨v, hmem, hv⟩
    obtain ⟨pushed, hpushed⟩ := hnoError (some beyondLimit) (by
      rw [hsplit]
      exact List.mem_append_right _ herror)
    cases hpushed
  · intro hvalues
    obtain ⟨houtputs, after, hafter, hisEmpty⟩ :=
      reads_run arithmetic values reads hstores hpending hreads hvalues
    refine ⟨?_, ?_, after, ?_, hisEmpty⟩
    · intro result hmem
      rw [hsplit, houtputs, List.mem_append] at hmem
      rcases hmem with hmem | hmem
      · exact hcounts result hmem
      · obtain ⟨v, _, rfl⟩ := List.mem_map.mp hmem
        exact ⟨_, rfl⟩
    · rw [hsplit, List.drop_left' (Machine.outputs_length _ _), houtputs]
    · rw [Machine.final_append, hfinal]
      exact hafter

/-- One value of each kind. -/
theorem round_trips_each :
    let heap : Heap := fun _ => some fun _ => 0
    let values : List StreamValue := [.byte 200, .short (-3), .int 70000, .varInt (-5),
      .bool true, .string ⟨[0, 65], by decide⟩]
    let writes : List (MethodCall Int) := values.map fun v => ⟨heap, v.writer⟩
    let reads : List (MethodCall Int) := values.map fun v => ⟨heap, v.reader⟩
    ∃ buffer, bufferInit heap 4 = some buffer ∧
      (RoundTrips integerArithmetic buffer writes reads values ↔
        ∀ v ∈ values, ¬ v.IsEmptyString) := by
  intro heap values writes reads
  refine ⟨_, rfl, round_trips_iff integerArithmetic heap 4 _ values writes reads rfl ?_ ?_ ?_ ?_⟩
  · simp [writes, Function.comp_def]
  · simp [reads, Function.comp_def]
  · intro call hmem
    obtain ⟨v, _, rfl⟩ := List.mem_map.mp hmem
    exact fun _ => rfl
  · decide

/-- An empty string alone. -/
theorem empty_string_lost :
    ¬ ∀ (arithmetic : Arithmetic Int) (heap : Heap) (capacity : Nat) (buffer : ByteBuffer)
      (values : List StreamValue) (writes reads : List (MethodCall Int)),
      bufferInit heap capacity = some buffer →
      writes.map MethodCall.method = values.map StreamValue.writer →
      reads.map MethodCall.method = values.map StreamValue.reader →
      (∀ call ∈ writes, ∀ n, (call.heap n).isSome) →
      (values.flatMap StreamValue.bytes).length < 2 ^ 62 →
      RoundTrips arithmetic buffer writes reads values := by
  intro h
  let heap : Heap := fun _ => some fun _ => 0
  obtain ⟨hnoError, _, _⟩ := h integerArithmetic heap 4 _ [.string ⟨[], by decide⟩]
    [⟨heap, .writeString []⟩] [⟨heap, .readString⟩] rfl rfl rfl
    (by intro call hmem; rw [List.mem_singleton.mp hmem]; exact fun _ => rfl) (by decide)
  obtain ⟨pushed, hpushed⟩ := hnoError (some beyondLimit) (by decide)
  cases hpushed

end LuaMumble.Buffer
