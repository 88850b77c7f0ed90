import LuaMumble.Buffer.Refinement
import LuaMumble.Voice.Varint

/-!
The varints of the byte buffer. `buffer_writeVarInt` writes the format that
`util_get_varint` reads, except for the negative numbers below -4, which have a
flag byte in front; `buffer_readVarInt` reads what it writes, and on any buffer
whose heads are in order it ends without undefined behaviour.
-/

namespace LuaMumble.Buffer

open Lib Lib.LittleEndian Voice

section Bytes

theorem shiftedOr_eq (v : UInt8) (bytes : List UInt8) :
    shiftedOr v bytes = v.toNat * 256 ^ bytes.length + value bytes.reverse := by
  have hfold (n : Nat) : bytes.foldl (fun output byte => output <<< 8 ||| byte.toNat) n =
      n * 256 ^ bytes.length + value bytes.reverse := by
    induction bytes generalizing n with
    | nil => simp
    | cons byte rest ih =>
        have hjoin : n <<< 8 ||| byte.toNat = n * 256 + byte.toNat := by
          rw [← Nat.shiftLeft_add_eq_or_of_lt byte.toNat_lt, Nat.shiftLeft_eq]
        rw [List.foldl_cons, ih, hjoin, List.reverse_cons, value_append, value_cons, value_nil,
          List.length_reverse, List.length_cons, pow_succ]
        ring
  exact hfold v.toNat

/-- `buffer_writeVarInt` writes a number as `util_set_varint` does. -/
theorem varIntBytes_eq {n : Nat} (hn : n < 2 ^ 64) :
    varIntBytes n = utilSetVarint (UInt64.ofNat n) := by
  have hvalue : (UInt64.ofNat n).toNat = n := UInt64.toNat_ofNat_of_lt' hn
  have hbyte (shift : UInt64) (hshift : shift.toNat < 64) :
      (UInt64.ofNat n >>> shift).toUInt8 = UInt8.ofNat (n >>> shift.toNat) := by
    apply UInt8.toNat_inj.mp
    rw [UInt64.toNat_toUInt8, UInt64.toNat_shiftRight, Nat.mod_eq_of_lt hshift, hvalue,
      UInt8.toNat_ofNat']
  simp (disch := decide) only [varIntBytes, utilSetVarint, hbyte, UInt64.lt_iff_toNat_lt, hvalue,
    UInt64.reduceToNat]

/-- What is written for a number is one varint, and its value is the number. -/
theorem varIntBytes_spec {n : Nat} (hn : n < 2 ^ 64) :
    ∃ v rest, varIntBytes n = v :: rest ∧ v.toNat < 248 ∧
      (varIntBytes n).length = varintWidth v ∧ varintValue (varIntBytes n) = n := by
  have hspec := utilSetVarint_spec (UInt64.ofNat n)
  rw [← varIntBytes_eq hn] at hspec
  rwa [UInt64.toNat_ofNat_of_lt' hn] at hspec

end Bytes

section Read

variable {q : RewindQueue UInt8} {buffer : ByteBuffer}

theorem readVarIntRest_of_le (v : UInt8) {size : Nat} (hstores : Stores q buffer)
    (hsize : size ≤ 8) (hle : size ≤ q.pending.length) :
    ∃ buffer', readVarIntRest buffer v size =
        some (size + 1, shiftedOr v (q.pending.take size), buffer') ∧
      Stores (q.read size).2 buffer' := by
  have hcapacity := buffer.capacity_lt
  have hheads := hstores.le
  obtain ⟨buffer', hget, hstores', _⟩ := get_of_le hstores hle
  refine ⟨buffer', ?_, hstores'⟩
  rw [readVarIntRest, if_pos ((bufferAvailable_iff hstores (by omega)).mpr hle), hget,
    Option.map_some]

theorem readVarIntRest_short (v : UInt8) {size : Nat} (hstores : Stores q buffer)
    (hsize : size ≤ 8) (hshort : q.pending.length < size) :
    readVarIntRest buffer v size = some (0, 0, buffer) := by
  have hcapacity := buffer.capacity_lt
  have hheads := hstores.le
  have hnone := mt (bufferAvailable_iff hstores (by omega)).mp (Nat.not_le.mpr hshort)
  rw [readVarIntRest, if_neg hnone]

/-- The rest of a varint is read, or nothing more; the number fits 64 bits. -/
theorem readVarIntRest_total (v : UInt8) (size : Nat) (hstores : Stores q buffer)
    (hsize : size ≤ 8) (hfits : size ≤ 7 ∨ v = 0) :
    ∃ ret output buffer' q', readVarIntRest buffer v size = some (ret, output, buffer') ∧
      output < 2 ^ 64 ∧ Stores q' buffer' := by
  have hcapacity := buffer.capacity_lt
  have hheads := hstores.le
  by_cases hle : size ≤ q.pending.length
  · obtain ⟨buffer', hread, hstores'⟩ := readVarIntRest_of_le v hstores hsize hle
    refine ⟨_, _, buffer', _, hread, ?_, hstores'⟩
    have hlow := value_lt (q.pending.take size).reverse
    rw [List.length_reverse] at hlow
    have hlength : (q.pending.take size).length = size := List.length_take_of_le hle
    rw [shiftedOr_eq]
    rw [hlength] at hlow ⊢
    rcases hfits with hsmall | rfl
    · have hpow : 256 ^ size ≤ 256 ^ 7 := Nat.pow_le_pow_right (by omega) hsmall
      have hv := v.toNat_lt
      have hhigh : v.toNat * 256 ^ size ≤ 255 * 256 ^ 7 := Nat.mul_le_mul (by omega) hpow
      omega
    · have hpow : 256 ^ size ≤ 256 ^ 8 := Nat.pow_le_pow_right (by omega) hsize
      rw [UInt8.toNat_zero, Nat.zero_mul]
      omega
  · exact ⟨0, 0, buffer, q, readVarIntRest_short v hstores hsize (Nat.not_le.mp hle),
      Nat.two_pow_pos 64, hstores⟩

theorem readVarInt_cons {v : UInt8} {rest : List UInt8} (depth : Nat) (hstores : Stores q buffer)
    (hpending : q.pending = v :: rest) :
    ∃ buffer', readVarInt (depth + 1) buffer = readVarIntFrom (readVarInt depth) v buffer' ∧
      Stores (q.read 1).2 buffer' := by
  have hcapacity := buffer.capacity_lt
  have hheads := hstores.le
  have hone : 1 ≤ q.pending.length := by
    rw [hpending, List.length_cons]
    omega
  obtain ⟨buffer', hget, hstores', _⟩ := get_of_le hstores hone
  refine ⟨buffer', ?_, hstores'⟩
  rw [readVarInt, if_pos ((bufferAvailable_iff hstores (by omega)).mpr hone), hget,
    Option.bind_some, hpending]
  rfl

theorem readVarInt_nil (depth : Nat) (hstores : Stores q buffer) (hpending : q.pending = []) :
    readVarInt (depth + 1) buffer = some (0, 0, buffer) := by
  have hcapacity := buffer.capacity_lt
  have hheads := hstores.le
  have hnone : ¬ 1 ≤ q.pending.length := by simp [hpending]
  rw [readVarInt, if_neg (mt (bufferAvailable_iff hstores (by omega)).mp hnone)]

/-- What comes behind the first byte: the number is given by then, or the rest of a varint is
read, or another varint behind the flag byte. -/
theorem readVarIntFrom_cases (recurse : ByteBuffer → Option (Nat × Nat × ByteBuffer)) (v : UInt8)
    (buffer : ByteBuffer) (P : Option (Nat × Nat × ByteBuffer) → Prop)
    (hgiven : ∀ ret output, output < 2 ^ 64 → P (some (ret, output, buffer)))
    (hrest : ∀ u size, size ≤ 8 → (size ≤ 7 ∨ u = 0) → P (readVarIntRest buffer u size))
    (hflag : P ((recurse buffer).map fun (size, output, buffer) =>
      (size, 2 ^ 64 - 1 - output, buffer))) :
    P (readVarIntFrom recurse v buffer) := by
  have hzero : 0 < 2 ^ 64 := Nat.two_pow_pos 64
  have hbyte (u : UInt8) : u.toNat < 2 ^ 64 := u.toNat_lt.trans (by omega)
  have hite {c : Prop} [Decidable c] {x y : Option (Nat × Nat × ByteBuffer)} (hx : P x)
      (hy : P y) : P (if c then x else y) := iteInduction (fun _ => hx) fun _ => hy
  unfold readVarIntFrom
  refine hite (hgiven _ _ (hbyte _)) (hite (hrest _ 1 (by omega) (.inl (by omega))) ?_)
  refine hite ?_ (hite (hrest _ 3 (by omega) (.inl (by omega))) ?_)
  · refine hite (hrest _ 4 (by omega) (.inr rfl)) (hite (hrest _ 8 (by omega) (.inr rfl)) ?_)
    exact hite (hite hflag (hgiven _ _ hzero))
      (hite (hgiven _ _ (by omega)) (hgiven _ _ hzero))
  · exact hite (hrest _ 2 (by omega) (.inl (by omega))) (hgiven _ _ hzero)

/-- With the heads in order, `buffer_readVarInt` returns, and leaves them in order.
By induction on the depth, which the bytes still to be read bound. -/
theorem readVarInt_total (depth : Nat) (hstores : Stores q buffer)
    (hdepth : q.pending.length < depth) :
    ∃ ret output buffer' q', readVarInt depth buffer = some (ret, output, buffer') ∧
      output < 2 ^ 64 ∧ Stores q' buffer' := by
  induction depth generalizing q buffer with
  | zero => exact absurd hdepth (Nat.not_lt_zero _)
  | succ depth ih =>
      cases hpending : q.pending with
      | nil => exact ⟨0, 0, buffer, q, readVarInt_nil depth hstores hpending,
          Nat.two_pow_pos 64, hstores⟩
      | cons v rest =>
          obtain ⟨buffer', hread, hstores'⟩ := readVarInt_cons depth hstores hpending
          have hone : 1 ≤ q.pending.length := by
            rw [hpending, List.length_cons]
            omega
          have hshorter : (q.read 1).2.pending.length < depth := by
            rw [RewindQueue.read_of_le hone, List.length_drop]
            omega
          rw [hread]
          refine readVarIntFrom_cases (readVarInt depth) v buffer'
            (fun result => ∃ ret output buffer'' q'', result = some (ret, output, buffer'') ∧
              output < 2 ^ 64 ∧ Stores q'' buffer'') ?_ ?_ ?_
          · exact fun ret output houtput => ⟨ret, output, buffer', _, rfl, houtput, hstores'⟩
          · exact fun u size hsize hfits => readVarIntRest_total u size hstores' hsize hfits
          · obtain ⟨ret, output, buffer'', q'', hinner, _, hstores''⟩ := ih hstores' hshorter
            refine ⟨ret, 2 ^ 64 - 1 - output, buffer'', q'', ?_, by omega, hstores''⟩
            rw [hinner, Option.map_some]

/-- A varint in front is read as a whole, and `*output` is its value. -/
theorem readVarInt_value {v : UInt8} {rest more : List UInt8} (depth : Nat)
    (hstores : Stores q buffer) (hpending : q.pending = v :: rest ++ more)
    (hwidth : (v :: rest).length = varintWidth v) (hv : v.toNat < 248) :
    ∃ buffer', readVarInt (depth + 1) buffer =
        some ((v :: rest).length, varintValue (v :: rest), buffer') ∧
      Stores (q.read (v :: rest).length).2 buffer' := by
  obtain ⟨next, hread, hstores'⟩ := readVarInt_cons depth hstores hpending
  have hone : 1 ≤ q.pending.length := by
    rw [hpending, List.cons_append, List.length_cons]
    omega
  have hleft : (q.read 1).2.pending = rest ++ more := by
    rw [RewindQueue.read_of_le hone, hpending]
    rfl
  -- the bytes behind the first one make up the number with what is left of that
  have hrest (u : UInt8) (size output : Nat) (hlength : rest.length = size) (hsize : size ≤ 8)
      (houtput : u.toNat * 256 ^ size + value rest.reverse = output) : ∃ buffer',
      readVarIntRest next u size = some (size + 1, output, buffer') ∧
      Stores (q.read (size + 1)).2 buffer' := by
    subst hlength
    obtain ⟨buffer', hcall, hstores''⟩ := readVarIntRest_of_le u hstores' hsize
      (by rw [hleft, List.length_append]; omega)
    rw [hleft, List.take_left, shiftedOr_eq, houtput] at hcall
    rw [RewindQueue.read_read (by rw [hpending]; simp; omega), Nat.add_comm] at hstores''
    exact ⟨buffer', hcall, hstores''⟩
  obtain ⟨h80, hc0, he0, hf0, hf, hf4, hf8, hfc, hff⟩ := prefix_iff v
  have hvalue : value (v :: rest).reverse = value rest.reverse + 256 ^ rest.length * v.toNat := by
    rw [List.reverse_cons, value_append, List.length_reverse, value_cons, value_nil, Nat.mul_zero,
      Nat.add_zero]
  rw [hread]
  simp only [readVarIntFrom, h80, hc0, he0, hf0, hf, hf4, hf8, hfc, hff, varintValue, varintWidth,
    List.headD_cons, List.tail_cons, hvalue, List.length_cons, UInt8.lt_iff_toNat_lt,
    UInt8.le_iff_toNat_le, UInt8.reduceToNat] at hwidth ⊢
  have hlt := value_lt rest.reverse
  rw [List.length_reverse] at hlt
  have hcases : v.toNat < 128 ∨ (128 ≤ v.toNat ∧ v.toNat < 192) ∨
      (192 ≤ v.toNat ∧ v.toNat < 224) ∨ (224 ≤ v.toNat ∧ v.toNat < 240) ∨
      (240 ≤ v.toNat ∧ v.toNat < 244) ∨ (244 ≤ v.toNat ∧ v.toNat < 248) := by omega
  rcases hcases with h | h | h | h | h | h
  all_goals simp (disch := omega) only [if_pos, if_neg] at hwidth ⊢
  · obtain rfl : rest = [] := List.length_eq_zero_iff.mp (Nat.succ.inj hwidth)
    have hlow : (v &&& 0x7F).toNat = v.toNat % 2 ^ 7 := toNat_and_low v 7 (by omega)
    refine ⟨next, ?_, hstores'⟩
    simp [hlow]
  · have hlow : (v &&& 0x3F).toNat = v.toNat % 2 ^ 6 := toNat_and_low v 6 (by omega)
    have hlength : rest.length = 1 := Nat.succ.inj hwidth
    rw [hlength] at hlt ⊢
    apply hrest (v &&& 0x3F) 1 _ hlength (by omega)
    omega
  · have hlow : (v &&& 0x1F).toNat = v.toNat % 2 ^ 5 := toNat_and_low v 5 (by omega)
    have hlength : rest.length = 2 := Nat.succ.inj hwidth
    rw [hlength] at hlt ⊢
    apply hrest (v &&& 0x1F) 2 _ hlength (by omega)
    omega
  · have hlow : (v &&& 0x0F).toNat = v.toNat % 2 ^ 4 := toNat_and_low v 4 (by omega)
    have hlength : rest.length = 3 := Nat.succ.inj hwidth
    rw [hlength] at hlt ⊢
    apply hrest (v &&& 0x0F) 3 _ hlength (by omega)
    omega
  · have hlength : rest.length = 4 := Nat.succ.inj hwidth
    rw [hlength] at hlt ⊢
    apply hrest 0 4 _ hlength (by omega)
    rw [UInt8.toNat_zero, Nat.zero_mul, Nat.zero_add]
  · have hlength : rest.length = 8 := Nat.succ.inj hwidth
    rw [hlength] at hlt ⊢
    apply hrest 0 8 _ hlength (by omega)
    rw [UInt8.toNat_zero, Nat.zero_mul, Nat.zero_add]

theorem bufferReadVarInt_total (hstores : Stores q buffer) :
    ∃ ret output buffer' q', bufferReadVarInt buffer = some (ret, output, buffer') ∧
      output < 2 ^ 64 ∧ Stores q' buffer' := by
  have hheads := hstores.le
  have hpending := hstores.pending_length
  exact readVarInt_total _ hstores (by omega)

/-- The last four numbers have a byte of their own. -/
theorem readVarIntFrom_last {v : UInt8} (hlast : 252 ≤ v.toNat)
    (recurse : ByteBuffer → Option (Nat × Nat × ByteBuffer)) (buffer : ByteBuffer) :
    readVarIntFrom recurse v buffer = some (1, 2 ^ 64 - 1 - v.toNat % 4, buffer) := by
  obtain ⟨h80, hc0, he0, hf0, hf, hf4, hf8, hfc, hff⟩ := prefix_iff v
  have hlow : (v &&& 0x03).toNat = v.toNat % 2 ^ 2 := toNat_and_low _ 2 (by omega)
  simp only [readVarIntFrom, h80, hc0, he0, hf0, hf, hf4, hf8, hfc, hff, UInt8.lt_iff_toNat_lt,
    UInt8.le_iff_toNat_le, UInt8.reduceToNat, hlow]
  simp (disch := omega) only [if_pos, if_neg, Nat.reducePow]

private theorem toNat_lastByte {c : Nat} (hc : c ≤ 3) :
    (0xFC ||| UInt8.ofNat c).toNat = 252 + c := by
  have hbyte : (UInt8.ofNat c).toNat = c := UInt8.toNat_ofNat_of_lt' (show c < 256 by omega)
  rw [UInt8.or_comm, toNat_or_mark 0xFC (i := 2) (a := 63) rfl (by omega), hbyte]
  rfl

private theorem readVarIntFrom_flag (recurse : ByteBuffer → Option (Nat × Nat × ByteBuffer))
    (buffer : ByteBuffer) :
    readVarIntFrom recurse 0xF8 buffer =
      if bufferAvailable buffer 1 then
        (recurse buffer).map fun (size, output, buffer) => (size, 2 ^ 64 - 1 - output, buffer)
      else some (0, 0, buffer) := rfl

/-- The round trip: what was written for a number is read back as that number. -/
theorem bufferReadVarInt_chunks {n : Nat} {more : List UInt8} (hn : n < 2 ^ 64)
    (hstores : Stores q buffer) (hpending : q.pending = (varIntChunks n).flatten ++ more) :
    ∃ size buffer', bufferReadVarInt buffer = some (size, n, buffer') ∧ size ≠ 0 ∧
      Stores (q.read (varIntChunks n).flatten.length).2 buffer' := by
  have hheads := hstores.le
  have hcapacity := buffer.capacity_lt
  have hlength := hstores.pending_length
  unfold varIntChunks at hpending ⊢
  split
  · rename_i hnegative
    rw [if_pos hnegative] at hpending
    dsimp only at hpending ⊢
    split
    · rename_i hlast
      rw [if_pos hlast] at hpending
      obtain ⟨buffer', hread, hstores'⟩ := readVarInt_cons buffer.capacity hstores hpending
      have hbyte := toNat_lastByte hlast
      refine ⟨1, buffer', ?_, Nat.one_ne_zero, hstores'⟩
      rw [bufferReadVarInt, hread, readVarIntFrom_last (by omega), hbyte]
      have hcomplement : 2 ^ 64 - 1 - (252 + (2 ^ 64 - 1 - n)) % 4 = n := by omega
      rw [hcomplement]
    · rename_i hflag
      rw [if_neg hflag] at hpending
      obtain ⟨v, rest, hbytes, hv, hwidth, hvalue⟩ :=
        varIntBytes_spec (n := 2 ^ 64 - 1 - n) (by omega)
      have hsplit : q.pending = 0xF8 :: (v :: rest ++ more) := by
        rw [hpending, hbytes]
        simp
      have htwo : 2 ≤ q.pending.length := by
        rw [hsplit]
        simp
      obtain ⟨next, hread, hstores'⟩ := readVarInt_cons buffer.capacity hstores hsplit
      have hheads' := hstores'.le
      have hcapacity' := next.capacity_lt
      have hleft : (q.read 1).2.pending = v :: rest ++ more := by
        rw [RewindQueue.read_of_le (by omega), hsplit]
        rfl
      have havailable : bufferAvailable next 1 :=
        (bufferAvailable_iff hstores' (by omega)).mpr (by rw [hleft]; simp)
      obtain ⟨depth, hdepth⟩ : ∃ depth, buffer.capacity = depth + 1 :=
        ⟨buffer.capacity - 1, by omega⟩
      rw [hbytes] at hwidth hvalue
      obtain ⟨buffer', hinner, hstores''⟩ := readVarInt_value depth hstores' hleft hwidth hv
      rw [RewindQueue.read_read (by rw [hsplit]; simp; omega)] at hstores''
      refine ⟨(v :: rest).length, buffer', ?_, by simp, ?_⟩
      · rw [bufferReadVarInt, hread, readVarIntFrom_flag, if_pos havailable, hdepth, hinner,
          Option.map_some, hvalue]
        have hcomplement : 2 ^ 64 - 1 - (2 ^ 64 - 1 - n) = n := by omega
        dsimp only
        rw [hcomplement]
      · have hall : ([[0xF8], varIntBytes (2 ^ 64 - 1 - n)] : List (List UInt8)).flatten.length =
            1 + (v :: rest).length := by
          rw [hbytes]
          simp
          omega
        rw [hall]
        exact hstores''
  · rename_i hpositive
    rw [if_neg hpositive, List.flatten_singleton] at hpending
    obtain ⟨v, rest, hbytes, hv, hwidth, hvalue⟩ := varIntBytes_spec hn
    rw [hbytes] at hpending hwidth hvalue
    obtain ⟨buffer', hread, hstores'⟩ := readVarInt_value buffer.capacity hstores hpending hwidth hv
    refine ⟨(v :: rest).length, buffer', ?_, by simp, ?_⟩
    · rw [bufferReadVarInt, hread, hvalue]
    · rw [List.flatten_singleton, hbytes]
      exact hstores'

end Read

end LuaMumble.Buffer
