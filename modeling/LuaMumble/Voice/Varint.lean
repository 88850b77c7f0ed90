import LuaMumble.Lib.LittleEndian
import LuaMumble.Lib.TracedRead

/-!
`util_get_varint` and the format it reads, and `util_set_varint`, which writes
that format. The first byte of a varint says how many bytes the varint has; its
value is the number those bytes write in big endian, without the bits of the
first byte that say so.
-/

namespace LuaMumble.Voice

open Lib.LittleEndian Lib.TracedRead

/-- `util_get_varint(buffer, &len)`: the value, and `len` afterwards. The numbers of `len` are
those of the caller: counts of bytes are natural. -/
def utilGetVarint {E N : Type} [Add N] [NatCast N] (buffer : Nat) (len : N) :
    Traced E (UInt64 × N) := do
  let v ← load buffer
  if v &&& 0x80 = 0x00 then
    pure ((v &&& 0x7F).toUInt64, len + (1 : Nat))
  else if v &&& 0xC0 = 0x80 then do
    let b1 ← load (buffer + 1)
    pure ((v &&& 0x3F).toUInt64 <<< 8 ||| b1.toUInt64, len + (2 : Nat))
  else if v &&& 0xF0 = 0xF0 then
    if v &&& 0xFC = 0xF0 then do
      let b1 ← load (buffer + 1)
      let b2 ← load (buffer + 2)
      let b3 ← load (buffer + 3)
      let b4 ← load (buffer + 4)
      pure (b1.toUInt64 <<< 24 ||| b2.toUInt64 <<< 16 ||| b3.toUInt64 <<< 8 ||| b4.toUInt64,
        len + (5 : Nat))
    else if v &&& 0xFC = 0xF4 then do
      let b1 ← load (buffer + 1)
      let b2 ← load (buffer + 2)
      let b3 ← load (buffer + 3)
      let b4 ← load (buffer + 4)
      let b5 ← load (buffer + 5)
      let b6 ← load (buffer + 6)
      let b7 ← load (buffer + 7)
      let b8 ← load (buffer + 8)
      pure (b1.toUInt64 <<< 56 ||| b2.toUInt64 <<< 48 ||| b3.toUInt64 <<< 40 |||
        b4.toUInt64 <<< 32 ||| b5.toUInt64 <<< 24 ||| b6.toUInt64 <<< 16 |||
        b7.toUInt64 <<< 8 ||| b8.toUInt64, len + (9 : Nat))
    else if v &&& 0xFC = 0xF8 then
      pure (~~~0, len + (1 : Nat))
    else if v &&& 0xFC = 0xFC then
      pure (~~~(v &&& 0x03).toUInt64, len + (1 : Nat))
    else
      pure (0, len + (1 : Nat))
  else if v &&& 0xF0 = 0xE0 then do
    let b1 ← load (buffer + 1)
    let b2 ← load (buffer + 2)
    let b3 ← load (buffer + 3)
    pure ((v &&& 0x0F).toUInt64 <<< 24 ||| b1.toUInt64 <<< 16 ||| b2.toUInt64 <<< 8 |||
      b3.toUInt64, len + (4 : Nat))
  else if v &&& 0xE0 = 0xC0 then do
    let b1 ← load (buffer + 1)
    let b2 ← load (buffer + 2)
    pure ((v &&& 0x1F).toUInt64 <<< 16 ||| b1.toUInt64 <<< 8 ||| b2.toUInt64, len + (3 : Nat))
  else
    pure (0, len)

/-- The bytes that `util_set_varint(buffer, value)` stores; it returns how many. -/
def utilSetVarint (value : UInt64) : List UInt8 :=
  let byte (shift : UInt64) : UInt8 := (value >>> shift).toUInt8
  if value < 0x80 then [byte 0]
  else if value < 0x4000 then [byte 8 ||| 0x80, byte 0]
  else if value < 0x200000 then [byte 16 ||| 0xC0, byte 8, byte 0]
  else if value < 0x10000000 then [byte 24 ||| 0xE0, byte 16, byte 8, byte 0]
  else if value < 0x100000000 then [0xF0, byte 24, byte 16, byte 8, byte 0]
  else [0xF4, byte 56, byte 48, byte 40, byte 32, byte 24, byte 16, byte 8, byte 0]

/-- The number of bytes of a varint, told by the first one. -/
def varintWidth (v : UInt8) : Nat :=
  if v < 0x80 then 1
  else if v < 0xC0 then 2
  else if v < 0xE0 then 3
  else if v < 0xF0 then 4
  else if v < 0xF4 then 5
  else if v < 0xF8 then 9
  else 1

/-- The value of a varint. Up to four bytes, each byte adds seven bits; then the
first byte carries no digit, and last come the negative numbers -1 to -4. -/
def varintValue (bytes : List UInt8) : Nat :=
  let v := bytes.headD 0
  if v < 0xF0 then value bytes.reverse % 2 ^ (7 * bytes.length)
  else if v < 0xF8 then value bytes.tail.reverse
  else if v < 0xFC then 2 ^ 64 - 1
  else 2 ^ 64 - 1 - v.toNat % 4

/-- The bytes of one varint and nothing more. -/
def IsVarint (bytes : List UInt8) : Prop :=
  ∃ v rest, bytes = v :: rest ∧ bytes.length = varintWidth v


section FirstByte

/-- Masks of the high and of the low bits as arithmetic. -/
private theorem and_masks : ∀ n : Fin 256,
    n.val &&& 0x80 = n.val / 128 * 128 ∧ n.val &&& 0xC0 = n.val / 64 * 64 ∧
    n.val &&& 0xE0 = n.val / 32 * 32 ∧ n.val &&& 0xF0 = n.val / 16 * 16 ∧
    n.val &&& 0xFC = n.val / 4 * 4 := by
  decide +kernel

private theorem and_eq_iff (v m p : UInt8) : v &&& m = p ↔ v.toNat &&& m.toNat = p.toNat := by
  rw [← UInt8.toNat_and, UInt8.toNat_inj]

private theorem and_high (v : UInt8) :
    v.toNat &&& 0x80 = v.toNat / 128 * 128 ∧ v.toNat &&& 0xC0 = v.toNat / 64 * 64 ∧
    v.toNat &&& 0xE0 = v.toNat / 32 * 32 ∧ v.toNat &&& 0xF0 = v.toNat / 16 * 16 ∧
    v.toNat &&& 0xFC = v.toNat / 4 * 4 :=
  and_masks ⟨v.toNat, v.toNat_lt⟩

/-- Which branch the first byte takes, as a range of its value. -/
theorem prefix_iff (v : UInt8) :
    (v &&& 0x80 = 0x00 ↔ v < 0x80) ∧
    (v &&& 0xC0 = 0x80 ↔ 0x80 ≤ v ∧ v < 0xC0) ∧
    (v &&& 0xE0 = 0xC0 ↔ 0xC0 ≤ v ∧ v < 0xE0) ∧
    (v &&& 0xF0 = 0xE0 ↔ 0xE0 ≤ v ∧ v < 0xF0) ∧
    (v &&& 0xF0 = 0xF0 ↔ 0xF0 ≤ v) ∧
    (v &&& 0xFC = 0xF0 ↔ 0xF0 ≤ v ∧ v < 0xF4) ∧
    (v &&& 0xFC = 0xF4 ↔ 0xF4 ≤ v ∧ v < 0xF8) ∧
    (v &&& 0xFC = 0xF8 ↔ 0xF8 ≤ v ∧ v < 0xFC) ∧
    (v &&& 0xFC = 0xFC ↔ 0xFC ≤ v) := by
  obtain ⟨h80, hc0, he0, hf0, hfc⟩ := and_high v
  have hlt := v.toNat_lt
  simp only [and_eq_iff, UInt8.lt_iff_toNat_lt, UInt8.le_iff_toNat_le, UInt8.reduceToNat]
  rw [h80, hc0, he0, hf0, hfc]
  omega

end FirstByte


section Bytes

/-- Bytes shifted into place and joined, the most significant first. -/
private def pack : List UInt8 → UInt64
  | [] => 0
  | b :: rest => b.toUInt64 <<< UInt64.ofNat (8 * rest.length) ||| pack rest

private theorem toNat_pack (bytes : List UInt8) (hlength : bytes.length ≤ 8) :
    (pack bytes).toNat = value bytes.reverse := by
  induction bytes with
  | nil => rfl
  | cons b rest ih =>
      have hrest : rest.length < 8 := by simpa using hlength
      have hlow : value rest.reverse < 2 ^ (8 * rest.length) := by
        have h := value_lt rest.reverse
        rwa [List.length_reverse, show (256 : Nat) = 2 ^ 8 from rfl, ← Nat.pow_mul] at h
      have hhigh : b.toNat * 2 ^ (8 * rest.length) < 2 ^ 64 := by
        calc
          b.toNat * 2 ^ (8 * rest.length) < 2 ^ 8 * 2 ^ (8 * rest.length) :=
            Nat.mul_lt_mul_of_pos_right b.toNat_lt (Nat.two_pow_pos _)
          _ = 2 ^ (8 + 8 * rest.length) := (Nat.pow_add 2 8 _).symm
          _ ≤ 2 ^ 64 := Nat.pow_le_pow_right (by omega) (by omega)
      have hshift : (UInt64.ofNat (8 * rest.length)).toNat % 64 = 8 * rest.length := by
        simp only [UInt64.toNat_ofNat']
        omega
      rw [pack, UInt64.toNat_or, UInt64.toNat_shiftLeft, UInt8.toNat_toUInt64, hshift,
        Nat.shiftLeft_eq, Nat.mod_eq_of_lt hhigh, ih (by omega), Nat.mul_comm,
        ← Nat.two_pow_add_eq_or_of_lt hlow]
      rw [List.reverse_cons, value_append, List.length_reverse, value_cons, value_nil,
        Nat.pow_mul, Nat.mul_zero, Nat.add_zero, Nat.add_comm]

private theorem pack_two (a b : UInt8) : a.toUInt64 <<< 8 ||| b.toUInt64 = pack [a, b] := by
  simp [pack]

private theorem pack_three (a b c : UInt8) :
    a.toUInt64 <<< 16 ||| b.toUInt64 <<< 8 ||| c.toUInt64 = pack [a, b, c] := by
  simp [pack, UInt64.or_assoc]

private theorem pack_four (a b c d : UInt8) :
    a.toUInt64 <<< 24 ||| b.toUInt64 <<< 16 ||| c.toUInt64 <<< 8 ||| d.toUInt64 =
      pack [a, b, c, d] := by
  simp [pack, UInt64.or_assoc]

private theorem pack_eight (a b c d e f g h : UInt8) :
    a.toUInt64 <<< 56 ||| b.toUInt64 <<< 48 ||| c.toUInt64 <<< 40 ||| d.toUInt64 <<< 32 |||
      e.toUInt64 <<< 24 ||| f.toUInt64 <<< 16 ||| g.toUInt64 <<< 8 ||| h.toUInt64 =
      pack [a, b, c, d, e, f, g, h] := by
  simp [pack, UInt64.or_assoc]

/-- The low bits of a byte. -/
theorem toNat_and_low (v : UInt8) (k : Nat) (hk : k ≤ 8) :
    (v &&& UInt8.ofNat (2 ^ k - 1)).toNat = v.toNat % 2 ^ k := by
  have hpow : 2 ^ k ≤ 2 ^ 8 := Nat.pow_le_pow_right (by omega) hk
  rw [UInt8.toNat_and, UInt8.toNat_ofNat', Nat.mod_eq_of_lt (by omega),
    Nat.and_two_pow_sub_one_eq_mod]

end Bytes

section Spec

/-- The ranges of the first byte that the format tells apart. -/
private theorem first_byte_cases (v : UInt8) :
    v.toNat < 128 ∨ (128 ≤ v.toNat ∧ v.toNat < 192) ∨ (192 ≤ v.toNat ∧ v.toNat < 224) ∨
    (224 ≤ v.toNat ∧ v.toNat < 240) ∨ (240 ≤ v.toNat ∧ v.toNat < 244) ∨
    (244 ≤ v.toNat ∧ v.toNat < 248) ∨ (248 ≤ v.toNat ∧ v.toNat < 252) ∨ 252 ≤ v.toNat := by
  omega

variable {E N : Type} [Add N] [NatCast N] {p : Entry E → Prop} (mem : Memory) (buffer : Nat)

/-- `util_get_varint` reads the bytes of the varint and no others. -/
theorem always_utilGetVarint (len : N) :
    Always p (utilGetVarint buffer len : Traced E (UInt64 × N)) mem ↔
      ∀ i < varintWidth (mem buffer), p (.read (buffer + i)) := by
  obtain ⟨h80, hc0, he0, hf0, hf, hf4, hf8, hfc, hff⟩ := prefix_iff (mem buffer)
  simp only [utilGetVarint, varintWidth, always_bind, always_load, value_load, always_ite,
    always_pure, h80, hc0, he0, hf0, hf, hf4, hf8, hfc, hff, UInt8.lt_iff_toNat_lt,
    UInt8.le_iff_toNat_le, UInt8.reduceToNat]
  rcases first_byte_cases (mem buffer) with h | h | h | h | h | h | h | h
  all_goals
    simp (disch := omega) only [if_pos, if_neg]
    simp only [Nat.forall_lt_succ_right, Nat.not_lt_zero, false_implies, implies_true, true_and,
      and_assoc, and_true, Nat.add_zero]

/-- It returns the value of the varint and adds its length to `len`. -/
theorem value_utilGetVarint_cast (len : N) :
    ((utilGetVarint buffer len : Traced E (UInt64 × N)).value mem).1.toNat =
        varintValue (bytesAt mem buffer (varintWidth (mem buffer))) ∧
      ((utilGetVarint buffer len : Traced E (UInt64 × N)).value mem).2 =
        len + (varintWidth (mem buffer) : Nat) := by
  obtain ⟨h80, hc0, he0, hf0, hf, hf4, hf8, hfc, hff⟩ := prefix_iff (mem buffer)
  simp only [utilGetVarint, varintWidth, varintValue, value_bind, value_load, value_ite,
    value_pure, h80, hc0, he0, hf0, hf, hf4, hf8, hfc, hff, UInt8.lt_iff_toNat_lt,
    UInt8.le_iff_toNat_le, UInt8.reduceToNat]
  rcases first_byte_cases (mem buffer) with h | h | h | h | h | h | h | h
  all_goals
    simp (disch := omega) only [if_pos, if_neg, bytesAt, List.headD_cons, List.tail_cons,
      List.length_cons, List.length_nil, and_true]
  · simp only [List.reverse_singleton, value_cons, value_nil, UInt8.toNat_toUInt64]
    exact toNat_and_low _ 7 (by decide)
  · rw [pack_two, toNat_pack _ (by simp)]
    have hlow : (mem buffer &&& 63).toNat = _ := toNat_and_low _ 6 (by decide)
    have hbyte := (mem (buffer + 1)).toNat_lt
    simp only [List.reverse_cons, List.reverse_nil, List.nil_append, List.cons_append, value_cons,
      value_nil, hlow]
    omega
  · rw [pack_three, toNat_pack _ (by simp)]
    have hlow : (mem buffer &&& 31).toNat = _ := toNat_and_low _ 5 (by decide)
    have hbyte := (mem (buffer + 1)).toNat_lt
    have hbyte' := (mem (buffer + 2)).toNat_lt
    simp only [List.reverse_cons, List.reverse_nil, List.nil_append, List.cons_append, value_cons,
      value_nil, hlow, Nat.add_assoc, Nat.reduceAdd]
    omega
  · rw [pack_four, toNat_pack _ (by simp)]
    have hlow : (mem buffer &&& 15).toNat = _ := toNat_and_low _ 4 (by decide)
    have hbyte := (mem (buffer + 1)).toNat_lt
    have hbyte' := (mem (buffer + 2)).toNat_lt
    have hbyte'' := (mem (buffer + 3)).toNat_lt
    simp only [List.reverse_cons, List.reverse_nil, List.nil_append, List.cons_append, value_cons,
      value_nil, hlow, Nat.add_assoc, Nat.reduceAdd]
    omega
  · rw [pack_four, toNat_pack _ (by simp)]
  · rw [pack_eight, toNat_pack _ (by simp)]
  · rfl
  · have hlow : (mem buffer &&& 3).toNat = _ := toNat_and_low _ 2 (by decide)
    rw [UInt64.toNat_not, UInt8.toNat_toUInt64, hlow]
    rfl

theorem value_utilGetVarint (len : Nat) :
    ((utilGetVarint buffer len : Traced E (UInt64 × Nat)).value mem).1.toNat =
        varintValue (bytesAt mem buffer (varintWidth (mem buffer))) ∧
      ((utilGetVarint buffer len : Traced E (UInt64 × Nat)).value mem).2 =
        len + varintWidth (mem buffer) :=
  value_utilGetVarint_cast mem buffer len

end Spec

section Written

private theorem toNat_byte (value shift : UInt64) (hshift : shift.toNat < 64) :
    (value >>> shift).toUInt8.toNat = value.toNat / 2 ^ shift.toNat % 256 := by
  rw [UInt64.toNat_toUInt8, UInt64.toNat_shiftRight, Nat.mod_eq_of_lt hshift,
    Nat.shiftRight_eq_div_pow]

/-- The high bits of a number below the marking bits of a first byte. -/
theorem toNat_or_mark (mark : UInt8) {b : UInt8} {i a : Nat} (hmark : mark.toNat = 2 ^ i * a)
    (hb : b.toNat < 2 ^ i) : (b ||| mark).toNat = mark.toNat + b.toNat := by
  rw [UInt8.toNat_or, Nat.or_comm, hmark, ← Nat.two_pow_add_eq_or_of_lt hb]

/-- A varint of at most four bytes: as many one bits as there are further bytes, a
zero bit, and the digits. -/
private theorem marked_spec {n : Nat} {v : UInt8} {rest : List UInt8} (hlength : rest.length ≤ 3)
    (hn : n < 2 ^ (7 * (rest.length + 1)))
    (hv : v.toNat = 256 - 2 ^ (8 - rest.length) + n / 256 ^ rest.length)
    (hrest : value rest.reverse = n % 256 ^ rest.length) :
    v.toNat < 248 ∧ (v :: rest).length = varintWidth v ∧ varintValue (v :: rest) = n := by
  have hall : value (v :: rest).reverse = n % 256 ^ rest.length + 256 ^ rest.length * v.toNat := by
    rw [List.reverse_cons, value_append, List.length_reverse, hrest]
    simp
  simp only [varintWidth, varintValue, List.headD_cons, List.length_cons, hall,
    UInt8.lt_iff_toNat_lt, UInt8.reduceToNat]
  generalize rest.length = k at hlength hn hv
  interval_cases k
  all_goals
    refine ⟨by omega, ?_, ?_⟩
    · simp (disch := omega) only [if_pos, if_neg]
    · simp (disch := omega) only [if_pos]
      omega

/-- `util_set_varint` writes one varint whose value is the number, and not one of
the negative ones. -/
theorem utilSetVarint_spec (n : UInt64) :
    ∃ v rest, utilSetVarint n = v :: rest ∧ v.toNat < 248 ∧
      (utilSetVarint n).length = varintWidth v ∧ varintValue (utilSetVarint n) = n.toNat := by
  have hlt := n.toNat_lt
  unfold utilSetVarint
  simp only [UInt64.lt_iff_toNat_lt, UInt64.reduceToNat]
  split
  · refine ⟨_, _, rfl, marked_spec (by simp) (by simp; omega) ?_ (by simp [Nat.mod_one])⟩
    rw [toNat_byte _ _ (by decide)]
    simp
    omega
  · split
    · have hhigh : (n >>> 8).toUInt8.toNat = n.toNat / 2 ^ 8 := by
        simp (disch := decide) only [toNat_byte, UInt64.reduceToNat]
        omega
      have hv := toNat_or_mark 0x80 (i := 6) (a := 2) rfl (hhigh.trans_lt (by omega))
      refine ⟨_, _, rfl, marked_spec (by simp) (by simp; omega) ?_ ?_⟩
      · rw [hv, hhigh]
        simp
      · simp
    · split
      · have hhigh : (n >>> 16).toUInt8.toNat = n.toNat / 2 ^ 16 := by
          simp (disch := decide) only [toNat_byte, UInt64.reduceToNat]
          omega
        have hv := toNat_or_mark 0xC0 (i := 5) (a := 6) rfl (hhigh.trans_lt (by omega))
        refine ⟨_, _, rfl, marked_spec (by simp) (by simp; omega) ?_ ?_⟩
        · rw [hv, hhigh]
          simp
        · simp
          omega
      · split
        · have hhigh : (n >>> 24).toUInt8.toNat = n.toNat / 2 ^ 24 := by
            simp (disch := decide) only [toNat_byte, UInt64.reduceToNat]
            omega
          have hv := toNat_or_mark 0xE0 (i := 4) (a := 14) rfl (hhigh.trans_lt (by omega))
          refine ⟨_, _, rfl, marked_spec (by simp) (by simp; omega) ?_ ?_⟩
          · rw [hv, hhigh]
            simp
          · simp
            omega
        · split
          · refine ⟨_, _, rfl, by decide, rfl, ?_⟩
            simp only [varintValue, List.headD_cons, List.tail_cons, List.reverse_cons,
              List.reverse_nil, List.nil_append, List.cons_append, value_cons, value_nil,
              UInt8.lt_iff_toNat_lt, UInt8.reduceToNat, Nat.reduceLT, if_true, if_false]
            simp (disch := decide) only [toNat_byte, UInt64.reduceToNat]
            omega
          · refine ⟨_, _, rfl, by decide, rfl, ?_⟩
            simp only [varintValue, List.headD_cons, List.tail_cons, List.reverse_cons,
              List.reverse_nil, List.nil_append, List.cons_append, value_cons, value_nil,
              UInt8.lt_iff_toNat_lt, UInt8.reduceToNat, Nat.reduceLT, if_true, if_false]
            simp (disch := decide) only [toNat_byte, UInt64.reduceToNat]
            omega

variable {E N : Type} [Add N] [NatCast N] {mem : Memory} {buffer : Nat} {rest : List UInt8}

/-- Reading what `util_set_varint` wrote: the number, and the bytes behind it. -/
theorem utilGetVarint_of_written (n : UInt64)
    (hmem : Holds mem buffer (utilSetVarint n ++ rest)) (len : N) :
    (utilGetVarint buffer len : Traced E (UInt64 × N)).value mem =
        (n, len + ((utilSetVarint n).length : Nat)) ∧
      Holds mem (buffer + (utilSetVarint n).length) rest := by
  obtain ⟨hwritten, hrest⟩ := (holds_append _ _ _).mp hmem
  refine ⟨?_, hrest⟩
  obtain ⟨v, tail, hbytes, _, hwidth, hvalue⟩ := utilSetVarint_spec n
  have hv : mem buffer = v := by
    rw [hbytes] at hwritten
    exact ((holds_cons _ _ _).mp hwritten).1
  obtain ⟨hnumber, hread⟩ := value_utilGetVarint_cast (E := E) mem buffer len
  rw [hv, ← hwidth] at hnumber hread
  rw [hwritten, hvalue] at hnumber
  exact Prod.ext (UInt64.toNat_inj.mp hnumber) hread

end Written

end LuaMumble.Voice
