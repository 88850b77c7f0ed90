import LuaMumble.Buffer.VarInt

/-!
What `buffer_readVarInt` makes of any bytes. A varint is a tag and the bytes it asks for, or a
flag byte with another varint behind it, whose complement is the value. The format is a function
on bytes, and so is what the code does with them: what it returns and how far it moves the read
head. The two differ where a varint is cut off behind its first byte, which stays read, and in
the flag bytes, which are not counted.
-/

namespace LuaMumble.Buffer

open Lib Lib.LittleEndian Voice

/-- The bytes between the heads. -/
def ByteBuffer.unread (buffer : ByteBuffer) : List UInt8 :=
  (buffer.data.bytes.drop buffer.readHead).take (buffer.writeHead - buffer.readHead)

/-- The byte says that the complement of a varint follows. -/
def isFlag (v : UInt8) : Bool := v &&& 0xFC == 0xF8

/-- The varint at the start of the bytes, with its value and its length, or nothing where the
bytes end inside of it. -/
def decodeVarInt : List UInt8 → Option (Nat × Nat)
  | [] => none
  | v :: rest =>
      if isFlag v then
        (decodeVarInt rest).map fun (output, length) => (2 ^ 64 - 1 - output, length + 1)
      else if varintWidth v ≤ rest.length + 1 then
        some (varintValue (v :: rest.take (varintWidth v - 1)), varintWidth v)
      else none

/-- What `buffer_readVarInt` returns on these unread bytes, and how far it moves the read
head. -/
def readVarIntMoves : List UInt8 → Nat × Nat
  | [] => (0, 0)
  | v :: rest =>
      if isFlag v then ((readVarIntMoves rest).1, (readVarIntMoves rest).2 + 1)
      else if varintWidth v ≤ rest.length + 1 then (varintWidth v, varintWidth v)
      else (0, 1)

section Format

theorem isFlag_iff (v : UInt8) : isFlag v = true ↔ 248 ≤ v.toNat ∧ v.toNat < 252 := by
  obtain ⟨-, -, -, -, -, -, -, hflag, -⟩ := prefix_iff v
  rw [isFlag, beq_iff_eq, hflag, UInt8.le_iff_toNat_le, UInt8.lt_iff_toNat_lt]
  rfl

theorem varintWidth_of_isFlag {v : UInt8} (h : isFlag v = true) : varintWidth v = 1 := by
  obtain ⟨hlow, hhigh⟩ := (isFlag_iff v).mp h
  simp only [varintWidth, UInt8.lt_iff_toNat_lt, UInt8.reduceToNat]
  simp (disch := omega) only [if_neg]

theorem one_le_varintWidth (v : UInt8) : 1 ≤ varintWidth v := by
  simp only [varintWidth]
  split_ifs <;> decide

variable {bytes : List UInt8}

/-- The code returns 0 exactly where the bytes end inside of the varint. -/
theorem readVarIntMoves_eq_zero_iff :
    (readVarIntMoves bytes).1 = 0 ↔ decodeVarInt bytes = none := by
  induction bytes with
  | nil => simp [readVarIntMoves, decodeVarInt]
  | cons v rest ih =>
      have hwidth := one_le_varintWidth v
      unfold readVarIntMoves decodeVarInt
      split
      · rw [Option.map_eq_none_iff]
        exact ih
      · split
        · simp only [reduceCtorEq, iff_false]
          omega
        · simp

/-- A varint is read as far as it goes. -/
theorem readVarIntMoves_of_decode {output length : Nat}
    (h : decodeVarInt bytes = some (output, length)) : (readVarIntMoves bytes).2 = length := by
  induction bytes generalizing output length with
  | nil => cases h
  | cons v rest ih =>
      unfold decodeVarInt at h
      unfold readVarIntMoves
      split at h
      · rename_i hflag
        obtain ⟨⟨inner, count⟩, hinner, heq⟩ := Option.map_eq_some_iff.mp h
        rw [if_pos hflag, ih hinner]
        exact congrArg Prod.snd heq
      · rename_i hflag
        split at h
        · rename_i hfits
          rw [if_neg hflag, if_pos hfits]
          exact congrArg Prod.snd (Option.some.inj h)
        · cases h

theorem readVarIntMoves_le : (readVarIntMoves bytes).2 ≤ bytes.length := by
  induction bytes with
  | nil => exact Nat.le_refl 0
  | cons v rest ih =>
      unfold readVarIntMoves
      rw [List.length_cons]
      split
      · exact Nat.succ_le_succ ih
      · split
        · assumption
        · exact Nat.succ_le_succ (Nat.zero_le _)

/-- The flag bytes are not counted in what is returned. -/
theorem readVarIntMoves_ret_le (bytes : List UInt8) :
    (readVarIntMoves bytes).1 ≤ (readVarIntMoves bytes).2 := by
  induction bytes with
  | nil => exact Nat.le_refl 0
  | cons v rest ih =>
      unfold readVarIntMoves
      split
      · exact Nat.le_succ_of_le ih
      · split
        · exact Nat.le_refl _
        · exact Nat.zero_le _

/-- Every call on bytes moves the head, except on none. -/
theorem readVarIntMoves_cons_pos (v : UInt8) (rest : List UInt8) :
    0 < (readVarIntMoves (v :: rest)).2 := by
  have hwidth := one_le_varintWidth v
  unfold readVarIntMoves
  split
  · exact Nat.succ_pos _
  · split
    · exact hwidth
    · exact Nat.one_pos

theorem decodeVarInt_length_pos {output length : Nat}
    (h : decodeVarInt bytes = some (output, length)) : 0 < length := by
  cases bytes with
  | nil => cases h
  | cons v rest =>
      rw [← readVarIntMoves_of_decode h]
      exact readVarIntMoves_cons_pos v rest

/-- The value does not depend on what follows. -/
theorem decodeVarInt_append {output length : Nat} (h : decodeVarInt bytes = some (output, length))
    (more : List UInt8) : decodeVarInt (bytes ++ more) = some (output, length) := by
  induction bytes generalizing output length with
  | nil => cases h
  | cons v rest ih =>
      unfold decodeVarInt at h
      rw [List.cons_append]
      unfold decodeVarInt
      split at h
      · rename_i hflag
        obtain ⟨⟨inner, count⟩, hinner, heq⟩ := Option.map_eq_some_iff.mp h
        rw [if_pos hflag, ih hinner, Option.map_some, heq]
      · rename_i hflag
        split at h
        · rename_i hfits
          have hmore : varintWidth v ≤ (rest ++ more).length + 1 := by
            rw [List.length_append]
            omega
          have htake : (rest ++ more).take (varintWidth v - 1) = rest.take (varintWidth v - 1) :=
            List.take_append_of_le_length (by omega)
          rw [if_neg hflag, if_pos hmore, htake]
          exact h
        · cases h

end Format

section Unread

variable {q : RewindQueue UInt8} {buffer : ByteBuffer}

theorem Stores.unread_eq (h : Stores q buffer) : buffer.unread = q.pending := by
  rw [ByteBuffer.unread, ← h.pending_length, h.drop_readHead (Nat.le_refl _), List.take_length]

/-- A buffer whose heads are in order stores what lies in front of the read head and the unread
bytes. -/
theorem stores_unread (hread : buffer.readHead ≤ buffer.writeHead)
    (hwrite : buffer.writeHead ≤ buffer.capacity) :
    Stores ⟨buffer.data.bytes.take buffer.readHead, buffer.unread⟩ buffer :=
  RewindQueue.Represents.of_le hread hwrite

end Unread

section Read

variable {q : RewindQueue UInt8} {buffer : ByteBuffer} {v : UInt8}
  (recurse : ByteBuffer → Option (Nat × Nat × ByteBuffer))

theorem readVarIntFrom_of_isFlag (hflag : isFlag v = true) (buffer : ByteBuffer) :
    readVarIntFrom recurse v buffer =
      if bufferAvailable buffer 1 then
        (recurse buffer).map fun (size, output, buffer) => (size, 2 ^ 64 - 1 - output, buffer)
      else some (0, 0, buffer) := by
  obtain ⟨hlow, hhigh⟩ := (isFlag_iff v).mp hflag
  obtain ⟨h80, hc0, he0, hf0, hf, hf4, hf8, hfc, hff⟩ := prefix_iff v
  simp only [readVarIntFrom, h80, hc0, he0, hf0, hf, hf4, hf8, hfc, hff, UInt8.lt_iff_toNat_lt,
    UInt8.le_iff_toNat_le, UInt8.reduceToNat]
  simp (disch := omega) only [if_pos, if_neg]

/-- Too few bytes behind the tag: the call returns 0, and the tag stays read. -/
theorem readVarIntFrom_short (hstores : Stores q buffer) (hflag : ¬ isFlag v = true)
    (hshort : q.pending.length + 1 < varintWidth v) :
    readVarIntFrom recurse v buffer = some (0, 0, buffer) := by
  have hrest (u : UInt8) (size : Nat) (hsize : size ≤ 8) (hlt : q.pending.length < size) :=
    readVarIntRest_short u hstores hsize hlt
  obtain ⟨h80, hc0, he0, hf0, hf, hf4, hf8, hfc, hff⟩ := prefix_iff v
  rw [isFlag_iff] at hflag
  simp only [readVarIntFrom, h80, hc0, he0, hf0, hf, hf4, hf8, hfc, hff, varintWidth,
    UInt8.lt_iff_toNat_lt, UInt8.le_iff_toNat_le, UInt8.reduceToNat] at hshort ⊢
  have hcases : v.toNat < 128 ∨ (128 ≤ v.toNat ∧ v.toNat < 192) ∨
      (192 ≤ v.toNat ∧ v.toNat < 224) ∨ (224 ≤ v.toNat ∧ v.toNat < 240) ∨
      (240 ≤ v.toNat ∧ v.toNat < 244) ∨ (244 ≤ v.toNat ∧ v.toNat < 248) ∨ 252 ≤ v.toNat := by
    omega
  rcases hcases with h | h | h | h | h | h | h
  all_goals simp (disch := omega) only [if_pos, if_neg] at hshort ⊢
  · omega
  · exact hrest _ 1 (by omega) (by omega)
  · exact hrest _ 2 (by omega) (by omega)
  · exact hrest _ 3 (by omega) (by omega)
  · exact hrest _ 4 (by omega) (by omega)
  · exact hrest _ 8 (by omega) (by omega)
  · omega

/-- A whole varint without a flag byte is read with its value. -/
theorem readVarInt_of_whole {rest : List UInt8} (depth : Nat) (hstores : Stores q buffer)
    (hpending : q.pending = v :: rest) (hflag : ¬ isFlag v = true)
    (hwhole : varintWidth v ≤ rest.length + 1) :
    ∃ after, readVarInt (depth + 1) buffer =
        some (varintWidth v, varintValue (v :: rest.take (varintWidth v - 1)), after) ∧
      Stores (q.read (varintWidth v)).2 after := by
  have hpos := one_le_varintWidth v
  have hlength : (v :: rest.take (varintWidth v - 1)).length = varintWidth v := by
    rw [List.length_cons, List.length_take]
    omega
  rw [isFlag_iff] at hflag
  by_cases hlast : 252 ≤ v.toNat
  · obtain ⟨after, hread, hstores'⟩ := readVarInt_cons depth hstores hpending
    have hwidth : varintWidth v = 1 := by
      simp only [varintWidth, UInt8.lt_iff_toNat_lt, UInt8.reduceToNat]
      simp (disch := omega) only [if_neg]
    have hvalue : varintValue [v] = 2 ^ 64 - 1 - v.toNat % 4 := by
      simp only [varintValue, List.headD_cons, UInt8.lt_iff_toNat_lt, UInt8.reduceToNat]
      simp (disch := omega) only [if_neg]
    rw [hwidth, Nat.sub_self, List.take_zero, hvalue]
    exact ⟨after, hread.trans (readVarIntFrom_last hlast _ _), hstores'⟩
  · have hsplit : q.pending =
        v :: rest.take (varintWidth v - 1) ++ rest.drop (varintWidth v - 1) := by
      rw [hpending, List.cons_append, List.take_append_drop]
    obtain ⟨after, hread, hstores'⟩ := readVarInt_value depth hstores hsplit hlength (by omega)
    rw [hlength] at hread hstores'
    exact ⟨after, hread, hstores'⟩

/-- What `buffer_readVarInt` does with the unread bytes, by induction on the depth, which their
number bounds. -/
theorem readVarInt_spec (depth : Nat) (hstores : Stores q buffer)
    (hdepth : q.pending.length < depth) :
    ∃ output after,
      readVarInt depth buffer = some ((readVarIntMoves q.pending).1, output, after) ∧
      Stores (q.read (readVarIntMoves q.pending).2).2 after ∧
      ∀ n length, decodeVarInt q.pending = some (n, length) → output = n := by
  induction depth generalizing q buffer with
  | zero => exact absurd hdepth (Nat.not_lt_zero _)
  | succ depth ih =>
      cases hpending : q.pending with
      | nil =>
          have hsame : (q.read 0).2 = q := by
            rw [RewindQueue.read_of_le (Nat.zero_le _)]
            simp
          refine ⟨0, buffer, readVarInt_nil depth hstores hpending, ?_, nofun⟩
          rw [readVarIntMoves, hsame]
          exact hstores
      | cons v rest =>
          obtain ⟨next, hread, hstores'⟩ := readVarInt_cons depth hstores hpending
          have hone : 1 ≤ q.pending.length := by
            rw [hpending, List.length_cons]
            omega
          have hleft : (q.read 1).2.pending = rest := by
            rw [RewindQueue.read_of_le hone, hpending]
            rfl
          unfold readVarIntMoves decodeVarInt
          split
          · rename_i hflag
            rw [hpending, List.length_cons] at hdepth
            obtain ⟨output, after, hinner, hstores'', hvalue⟩ :=
              ih hstores' (by rw [hleft]; omega)
            have hmoves : (readVarIntMoves rest).2 ≤ rest.length := readVarIntMoves_le
            have hreads : 1 + (readVarIntMoves rest).2 ≤ q.pending.length := by
              rw [hpending, List.length_cons]
              omega
            rw [hleft, RewindQueue.read_read hreads, Nat.add_comm] at hstores''
            rw [hleft] at hinner hvalue
            have hcapacity := next.capacity_lt
            have hheads := hstores'.le
            have havailable := bufferAvailable_iff hstores' (n := 1) (by omega)
            rw [hleft] at havailable
            cases rest with
            | nil =>
                refine ⟨0, next, ?_, hstores', by simp [decodeVarInt]⟩
                rw [hread, readVarIntFrom_of_isFlag _ hflag,
                  if_neg (mt havailable.mp (by simp))]
                rfl
            | cons w more =>
                refine ⟨2 ^ 64 - 1 - output, after, ?_, hstores'', ?_⟩
                · rw [hread, readVarIntFrom_of_isFlag _ hflag,
                    if_pos (havailable.mpr (by simp)), hinner]
                  rfl
                · intro n length hdecode
                  obtain ⟨⟨inner, count⟩, hsome, heq⟩ := Option.map_eq_some_iff.mp hdecode
                  rw [hvalue inner count hsome]
                  exact congrArg Prod.fst heq
          · rename_i hflag
            split
            · rename_i hwhole
              obtain ⟨after, hcall, hafter⟩ :=
                readVarInt_of_whole depth hstores hpending hflag hwhole
              refine ⟨_, after, hcall, hafter, ?_⟩
              intro n length hdecode
              exact congrArg Prod.fst (Option.some.inj hdecode)
            · rename_i hcut
              refine ⟨0, next, ?_, hstores', nofun⟩
              exact hread.trans
                (readVarIntFrom_short _ hstores' hflag (by rw [hleft]; omega))

end Read

section Contract

variable {buffer : ByteBuffer}

theorem bufferReadVarInt_spec (hread : buffer.readHead ≤ buffer.writeHead)
    (hwrite : buffer.writeHead ≤ buffer.capacity) :
    ∃ output after,
      bufferReadVarInt buffer = some ((readVarIntMoves buffer.unread).1, output, after) ∧
      after.readHead = buffer.readHead + (readVarIntMoves buffer.unread).2 ∧
      after.readHead ≤ after.writeHead ∧ after.writeHead ≤ after.capacity ∧
      after.unread = buffer.unread.drop (readVarIntMoves buffer.unread).2 ∧ output < 2 ^ 64 ∧
      ∀ n length, decodeVarInt buffer.unread = some (n, length) → output = n := by
  have hstores := stores_unread hread hwrite
  have hpending := hstores.pending_length
  obtain ⟨ret, output', after', q', htotal, hlt, -⟩ := bufferReadVarInt_total hstores
  obtain ⟨output, after, hcall, hafter, hvalue⟩ :=
    readVarInt_spec (buffer.capacity + 1) hstores (by omega)
  have hmoves : (readVarIntMoves buffer.unread).2 ≤ buffer.unread.length := readVarIntMoves_le
  have hheads := hafter.le
  rw [RewindQueue.read_of_le hmoves] at hafter
  obtain rfl : output' = output :=
    congrArg (fun result => result.2.1) (Option.some.inj (htotal.symm.trans hcall))
  refine ⟨output', after, hcall, ?_, hheads.1, hheads.2, hafter.unread_eq, hlt, hvalue⟩
  have hlength : (buffer.data.bytes.take buffer.readHead).length = buffer.readHead :=
    List.length_take_of_le (hread.trans hwrite)
  rw [hafter.readHead_eq, List.length_append, hlength, List.length_take_of_le hmoves]

/-- What is asked of a call: it returns, and 0 exactly where the unread bytes end inside of the
varint; then the read head is where it was, and else it has moved by what is returned. -/
def DecodesInStep (buffer : ByteBuffer) : Prop :=
  ∃ ret output after, bufferReadVarInt buffer = some (ret, output, after) ∧
    (ret = 0 ↔ decodeVarInt buffer.unread = none) ∧
    (ret = 0 → after.readHead = buffer.readHead) ∧
    (ret ≠ 0 → after.readHead = buffer.readHead + ret)

/-- No byte, or a whole varint that begins with no flag byte. -/
def PlainOrEmpty : List UInt8 → Prop
  | [] => True
  | v :: rest => ¬ isFlag v = true ∧ varintWidth v ≤ rest.length + 1

instance : (bytes : List UInt8) → Decidable (PlainOrEmpty bytes)
  | [] => .isTrue trivial
  | _ :: _ => inferInstanceAs (Decidable (_ ∧ _))

theorem decodesInStep_iff_moves (hread : buffer.readHead ≤ buffer.writeHead)
    (hwrite : buffer.writeHead ≤ buffer.capacity) :
    DecodesInStep buffer ↔
      (readVarIntMoves buffer.unread).2 = (readVarIntMoves buffer.unread).1 := by
  obtain ⟨output, after, hcall, hmoved, -⟩ := bufferReadVarInt_spec hread hwrite
  constructor
  · rintro ⟨ret, output', after', hcall', -, hcut, hwhole⟩
    have hsame := Option.some.inj (hcall.symm.trans hcall')
    obtain rfl : _ = ret := congrArg Prod.fst hsame
    obtain rfl : after = after' := congrArg (fun result => result.2.2) hsame
    by_cases hzero : (readVarIntMoves buffer.unread).1 = 0
    · have hstay := hcut hzero
      omega
    · have hadvance := hwhole hzero
      omega
  · intro hmoves
    rw [hmoves] at hmoved
    refine ⟨_, output, after, hcall, readVarIntMoves_eq_zero_iff, ?_, fun _ => hmoved⟩
    intro hzero
    rw [hmoved, hzero, Nat.add_zero]

/-- For every buffer with its heads in order: a call of `buffer_readVarInt` returns, and what it
returns and where it leaves the read head are in step, exactly if the unread bytes are none or
begin with a whole varint that has no flag byte. -/
theorem decodes_in_step_iff (buffer : ByteBuffer) (hread : buffer.readHead ≤ buffer.writeHead)
    (hwrite : buffer.writeHead ≤ buffer.capacity) :
    DecodesInStep buffer ↔ PlainOrEmpty buffer.unread := by
  rw [decodesInStep_iff_moves hread hwrite]
  cases hunread : buffer.unread with
  | nil => simp [readVarIntMoves, PlainOrEmpty]
  | cons v rest =>
      have hret := readVarIntMoves_ret_le rest
      unfold readVarIntMoves PlainOrEmpty
      split
      · rename_i hflag
        constructor
        · intro hmoves
          dsimp only at hmoves
          omega
        · intro hplain
          exact absurd hflag hplain.1
      · rename_i hflag
        split
        · rename_i hwhole
          exact ⟨fun _ => ⟨hflag, hwhole⟩, fun _ => rfl⟩
        · rename_i hcut
          constructor
          · intro hmoves
            cases hmoves
          · intro hplain
            exact absurd hplain.2 hcut

/-- The two bytes of 257, and one more. -/
def plainVarInt : ByteBuffer := ⟨⟨[0x81, 0x01, 0x07], by simp⟩, 0, 3⟩

theorem decodes_in_step_plain : DecodesInStep plainVarInt :=
  (decodes_in_step_iff plainVarInt (by decide) (by decide)).mpr (by decide)

/-- The tag of a varint of two bytes, without the second one: it stays read. -/
theorem truncated_tag_consumed :
    ¬ ∀ buffer : ByteBuffer, buffer.readHead ≤ buffer.writeHead →
      buffer.writeHead ≤ buffer.capacity → DecodesInStep buffer := by
  intro h
  have hstep := h ⟨⟨[0x81], by simp⟩, 0, 1⟩ (by decide) (by decide)
  rw [decodesInStep_iff_moves (by decide) (by decide)] at hstep
  exact absurd hstep (by decide)

end Contract

end LuaMumble.Buffer
