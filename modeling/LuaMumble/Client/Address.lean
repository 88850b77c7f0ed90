import Mathlib.Tactic
import LuaMumble.Lib.LittleEndian
import LuaMumble.Lib.TracedRead

/-!
The table that `mumble_push_address` makes of an address. The function is given a
pointer and a length, but looks at the bytes through pointers to wider integers
and hands the pointer to `inet_ntop`, which reads as many bytes as its family
has. What it reads goes to a log, so that reads behind the address can be told.
-/

namespace LuaMumble.Client.Address

open Lib Lib.TracedRead

/-- `AF_INET` and `AF_INET6`. -/
inductive Family where
  | inet
  | inet6
  deriving DecidableEq

/-- How many bytes `inet_ntop` reads. -/
def Family.size : Family → Nat
  | .inet => 4
  | .inet6 => 16

/-- `inet_ntop` on the bytes it reads; nothing where it returns NULL. -/
abbrev InetNtop := Family → List UInt8 → Option String

/-- What is pushed: the fields that are set, and the indices and values of `data`. -/
structure AddressTable where
  ipv4 : Bool
  ipv6 : Bool
  string : String
  data : List (Nat × UInt8)

/-- `%d.%d.%d.%d` -/
def dotted (a b c d : UInt8) : String :=
  a.toNat.repr ++ ("." ++ (b.toNat.repr ++ ("." ++ (c.toNat.repr ++ ("." ++ d.toNat.repr)))))

/-- `%02x` -/
def hexByte (b : UInt8) : String :=
  String.ofList [(b.toNat / 16).digitChar, (b.toNat % 16).digitChar]

/-- `%02x%02x` of two bytes. -/
def hexGroup (i j : Nat) : Traced Empty String := do
  let a ← load i
  let b ← load j
  return hexByte a ++ hexByte b

/-- The string for `AF_INET6` where `inet_ntop` fails. The fourth group repeats
byte 5 in place of byte 6. -/
def fallback6 : Traced Empty String := do
  let g0 ← hexGroup 0 1
  let g1 ← hexGroup 2 3
  let g2 ← hexGroup 4 5
  let g3 ← hexGroup 5 7
  let g4 ← hexGroup 8 9
  let g5 ← hexGroup 10 11
  let g6 ← hexGroup 12 13
  let g7 ← hexGroup 14 15
  return String.intercalate ":" [g0, g1, g2, g3, g4, g5, g6, g7]

/-- The string for `AF_INET` where `inet_ntop` fails. -/
def fallback4 : Traced Empty String := do
  let a ← load 12
  let b ← load 13
  let c ← load 14
  let d ← load 15
  return dotted a b c d

/-- `inet_ntop(family, address.data, ...)`, which reads from the first byte on. -/
def addressString (inetNtop : InetNtop) (family : Family) (fallback : Traced Empty String) :
    Traced Empty String := do
  let bytes ← slice 0 family.size
  match inetNtop family bytes with
  | some string => return string
  | none => fallback

/-- `addr[0] != 0ULL || shorts[4] != 0 || shorts[5] != 0xFFFF` -/
def notMapped : Traced Empty Bool := do
  let addr0 ← slice 0 8
  if LittleEndian.value addr0 ≠ 0 then
    return true
  let shorts4 ← slice 8 2
  if LittleEndian.value shorts4 ≠ 0 then
    return true
  let shorts5 ← slice 10 2
  return LittleEndian.value shorts5 ≠ 0xFFFF

/-- The loop over `address.data`, from the byte at `k` on. -/
def pushData (k : Nat) : Nat → Traced Empty (List (Nat × UInt8))
  | 0 => return []
  | rest + 1 => do
      let b ← load k
      let more ← pushData (k + 1) rest
      return (k + 1, b) :: more

/-- `mumble_push_address` on an address of that length. -/
def mumblePushAddress (inetNtop : InetNtop) (length : Nat) : Traced Empty AddressTable := do
  let isIpv6 ← notMapped
  if isIpv6 then
    let ipv6 ← addressString inetNtop .inet6 fallback6
    let data ← pushData 0 length
    return ⟨false, true, ipv6, data⟩
  else
    let ipv4 ← addressString inetNtop .inet fallback4
    let data ← pushData 0 length
    return ⟨true, false, ipv4, data⟩

/-- `inet_ntop` formats the bytes it is given: four in dotted decimal, and
sixteen in a text of their own. -/
structure Formats (inetNtop : InetNtop) (text : List UInt8 → String) : Prop where
  inet : ∀ a b c d, inetNtop .inet [a, b, c, d] = some (dotted a b c d)
  inet6 : ∀ bytes : List UInt8, bytes.length = 16 → inetNtop .inet6 bytes = some (text bytes)

/-- The address begins with ten bytes of 0 and two of 0xFF. -/
def Mapped (bytes : List UInt8) : Prop :=
  bytes.take 12 = [0, 0, 0, 0, 0, 0, 0, 0, 0, 0, 0xFF, 0xFF]

instance (bytes : List UInt8) : Decidable (Mapped bytes) :=
  inferInstanceAs (Decidable (_ = _))

/-- The text of a 16-byte address: for a mapped one, of its last four bytes. -/
def addressText (text : List UInt8 → String) (bytes : List UInt8) : String :=
  if Mapped bytes then
    dotted (bytes.getD 12 0) (bytes.getD 13 0) (bytes.getD 14 0) (bytes.getD 15 0)
  else text bytes

/-- What the table of an address says. -/
structure Describes (text : List UInt8 → String) (bytes : List UInt8) (table : AddressTable) :
    Prop where
  ipv4 : table.ipv4 = true ↔ Mapped bytes
  ipv6 : table.ipv6 = true ↔ ¬Mapped bytes
  string : table.string = addressText text bytes
  data : table.data = bytes.zipIdx.map fun entry => (entry.2 + 1, entry.1)

/-- A read of bytes of the address only. -/
def Inside (length : Nat) : Entry Empty → Prop
  | .read index => index < length
  | .slice start count => start + count ≤ length
  | .emit _ => True

section Text

theorem toDigits_injective {a b : Nat} (h : Nat.toDigits 10 a = Nat.toDigits 10 b) : a = b := by
  rw [← Nat.ofDigitChars_ten_toDigits (n := a), h, Nat.ofDigitChars_ten_toDigits]

/-- A number ends at the dot behind it. -/
theorem append_dot_inj {a b : Nat} {x y : String}
    (h : a.repr ++ ("." ++ x) = b.repr ++ ("." ++ y)) : a = b ∧ x = y := by
  have hlist := congrArg String.toList h
  simp only [String.toList_append, Nat.toList_repr] at hlist
  have hdigits (n : Nat) (rest : List Char) :
      (Nat.toDigits 10 n ++ '.' :: rest).takeWhile (· ≠ '.') = Nat.toDigits 10 n := by
    rw [List.takeWhile_append_of_pos]
    · simp
    · intro c hc
      have hdigit := Nat.isDigit_of_mem_toDigits (by decide) (by decide) hc
      rw [decide_eq_true_iff]
      rintro rfl
      exact absurd hdigit (by decide)
  have hnumber : Nat.toDigits 10 a = Nat.toDigits 10 b := by
    have htake := congrArg (List.takeWhile (· ≠ '.')) hlist
    exact (hdigits a x.toList).symm.trans (htake.trans (hdigits b y.toList))
  rw [hnumber] at hlist
  have hrest : '.' :: x.toList = '.' :: y.toList := List.append_cancel_left hlist
  exact ⟨toDigits_injective hnumber, String.toList_inj.mp (List.cons.inj hrest).2⟩

theorem dotted_injective {a b c d a' b' c' d' : UInt8}
    (h : dotted a b c d = dotted a' b' c' d') : a = a' ∧ b = b' ∧ c = c' ∧ d = d' := by
  obtain ⟨ha, hrest⟩ := append_dot_inj h
  obtain ⟨hb, hrest⟩ := append_dot_inj hrest
  obtain ⟨hc, hrest⟩ := append_dot_inj hrest
  have hd := congrArg String.toList hrest
  rw [Nat.toList_repr, Nat.toList_repr] at hd
  exact ⟨UInt8.toNat_inj.mp ha, UInt8.toNat_inj.mp hb, UInt8.toNat_inj.mp hc,
    UInt8.toNat_inj.mp (toDigits_injective hd)⟩

end Text

section Reads

variable {mem : Memory}

theorem value_eq_zero_iff (bytes : List UInt8) :
    LittleEndian.value bytes = 0 ↔ bytes = List.replicate bytes.length 0 := by
  induction bytes with
  | nil => simp
  | cons b rest ih =>
      rw [LittleEndian.value_cons, List.length_cons, List.replicate_succ, List.cons.injEq, ← ih]
      constructor
      · intro h
        have hb : b.toNat = 0 := by omega
        exact ⟨UInt8.toNat_inj.mp hb, by omega⟩
      · rintro ⟨rfl, hrest⟩
        rw [hrest]
        rfl

theorem value_pair_iff (a b : UInt8) :
    LittleEndian.value [a, b] = 0xFFFF ↔ a = 0xFF ∧ b = 0xFF := by
  have ha := a.toNat_lt
  have hb := b.toNat_lt
  simp only [LittleEndian.value_cons, LittleEndian.value_nil]
  constructor
  · intro h
    have ha' : a.toNat = 255 := by omega
    have hb' : b.toNat = 255 := by omega
    exact ⟨UInt8.toNat_inj.mp ha', UInt8.toNat_inj.mp hb'⟩
  · rintro ⟨rfl, rfl⟩
    rfl

/-- The three tests read what a comparison of the first twelve bytes would. -/
theorem mapped_iff : Mapped (bytesAt mem 0 12) ↔ LittleEndian.value (bytesAt mem 0 8) = 0 ∧
    LittleEndian.value (bytesAt mem 8 2) = 0 ∧
      LittleEndian.value (bytesAt mem 10 2) = 0xFFFF := by
  rw [value_eq_zero_iff, value_eq_zero_iff, bytesAt_length, bytesAt_length,
    show bytesAt mem 10 2 = [mem 10, mem 11] from rfl, value_pair_iff]
  simp only [Mapped, bytesAt_succ, bytesAt_zero, List.take_succ_cons, List.take_zero,
    List.replicate, List.cons.injEq, and_true, Nat.zero_add, Nat.reduceAdd]
  tauto

theorem notMapped_iff : notMapped.value mem = true ↔ ¬Mapped (bytesAt mem 0 12) := by
  rw [mapped_iff]
  simp only [notMapped, value_bind, value_slice]
  by_cases haddr0 : LittleEndian.value (bytesAt mem 0 8) = 0
  · by_cases hshorts4 : LittleEndian.value (bytesAt mem 8 2) = 0
    · simp [haddr0, hshorts4]
      exact decide_eq_false_iff_not
    · simp [haddr0, hshorts4]
  · simp [haddr0]

theorem mapped_take {length : Nat} (hlength : 12 ≤ length) :
    Mapped (bytesAt mem 0 length) ↔ Mapped (bytesAt mem 0 12) := by
  obtain ⟨more, rfl⟩ := Nat.exists_eq_add_of_le' hlength
  simp only [Mapped, bytesAt_succ, bytesAt_zero, List.take_succ_cons, List.take_zero]

theorem value_pushData (k n : Nat) :
    (pushData k n).value mem =
      ((bytesAt mem k n).zipIdx k).map fun entry => (entry.2 + 1, entry.1) := by
  induction n generalizing k with
  | zero => rfl
  | succ n ih =>
      simp only [pushData, value_bind, value_load, value_pure, ih, bytesAt_succ, List.zipIdx_cons,
        List.map_cons]

theorem inside_pushData {k n length : Nat} (h : k + n ≤ length) :
    Always (Inside length) (pushData k n) mem := by
  induction n generalizing k with
  | zero => exact always_pure _
  | succ n ih =>
      simp only [pushData, always_bind, always_load, always_pure, and_true]
      refine ⟨?_, ih (by omega)⟩
      rw [Inside]
      omega

variable {inetNtop : InetNtop} {text : List UInt8 → String} {family : Family}
  {fallback : Traced Empty String} {string : String}

theorem value_addressString (h : inetNtop family (bytesAt mem 0 family.size) = some string) :
    (addressString inetNtop family fallback).value mem = string := by
  simp only [addressString, value_bind, value_slice, h, value_pure]

theorem always_addressString {p : Entry Empty → Prop}
    (h : inetNtop family (bytesAt mem 0 family.size) = some string) :
    Always p (addressString inetNtop family fallback) mem ↔ p (.slice 0 family.size) := by
  simp only [addressString, always_bind, always_slice, value_slice, h, always_pure, and_true]

theorem formats_inet (h : Formats inetNtop text) : inetNtop .inet (bytesAt mem 0 4) =
    some (dotted (mem 0) (mem 1) (mem 2) (mem 3)) := h.inet _ _ _ _

theorem formats_inet6 (h : Formats inetNtop text) : inetNtop .inet6 (bytesAt mem 0 16) =
    some (text (bytesAt mem 0 16)) := h.inet6 _ (bytesAt_length 0 16)

theorem value_mumblePushAddress (h : Formats inetNtop text) (length : Nat) :
    (mumblePushAddress inetNtop length).value mem =
      if Mapped (bytesAt mem 0 12) then
        ⟨true, false, dotted (mem 0) (mem 1) (mem 2) (mem 3), (pushData 0 length).value mem⟩
      else ⟨false, true, text (bytesAt mem 0 16), (pushData 0 length).value mem⟩ := by
  have hstring4 : (addressString inetNtop .inet fallback4).value mem = _ :=
    value_addressString (formats_inet h)
  have hstring6 : (addressString inetNtop .inet6 fallback6).value mem = _ :=
    value_addressString (formats_inet6 h)
  simp only [mumblePushAddress, value_bind, value_ite, value_pure, hstring4, hstring6,
    notMapped_iff]
  by_cases hmapped : Mapped (bytesAt mem 0 12) <;> simp [hmapped]

/-- The reads of the tests, and then those of one of the two families. -/
theorem inside_notMapped {length : Nat} : Always (Inside length) notMapped mem ↔
    8 ≤ length ∧ (LittleEndian.value (bytesAt mem 0 8) = 0 → 10 ≤ length ∧
      (LittleEndian.value (bytesAt mem 8 2) = 0 → 12 ≤ length)) := by
  simp only [notMapped, always_bind, always_slice, value_slice]
  by_cases haddr0 : LittleEndian.value (bytesAt mem 0 8) = 0
  · by_cases hshorts4 : LittleEndian.value (bytesAt mem 8 2) = 0
    · simp [haddr0, hshorts4, Inside]
    · simp [haddr0, hshorts4, Inside]
  · simp [haddr0, Inside]

theorem inside_mumblePushAddress (h : Formats inetNtop text) {length : Nat}
    (hlength : length < 16) :
    Always (Inside length) (mumblePushAddress inetNtop length) mem ↔
      12 ≤ length ∧ Mapped (bytesAt mem 0 12) := by
  have hreads4 : Always (Inside length) (addressString inetNtop .inet fallback4) mem ↔ _ :=
    always_addressString (formats_inet h)
  have hreads6 : Always (Inside length) (addressString inetNtop .inet6 fallback6) mem ↔ _ :=
    always_addressString (formats_inet6 h)
  have hdata : Always (Inside length) (pushData 0 length) mem := inside_pushData (by omega)
  simp only [mumblePushAddress, always_bind, always_ite, always_pure, hreads4, hreads6, hdata,
    notMapped_iff, inside_notMapped, and_true, Inside, Family.size]
  by_cases hmapped : Mapped (bytesAt mem 0 12)
  · obtain ⟨haddr0, hshorts4, -⟩ := mapped_iff.mp hmapped
    simp only [hmapped, haddr0, hshorts4]
    simp
    omega
  · simp only [hmapped]
    simp
    omega

end Reads

/-- What is asked for an address of at most 16 bytes: a whole one is described by
its table, and of a shorter one no byte behind its end is read. -/
def AsDocumented (inetNtop : InetNtop) (text : List UInt8 → String) (bytes : List UInt8)
    (mem : Memory) : Prop :=
  (bytes.length = 16 →
    Describes text bytes ((mumblePushAddress inetNtop bytes.length).value mem)) ∧
  (bytes.length < 16 →
    Always (Inside bytes.length) (mumblePushAddress inetNtop bytes.length) mem)

/-- A whole address is not a mapped one, or it is that of 0.0.0.0; a shorter one
has the twelve bytes in front of a mapped one. -/
def PrintedRight (bytes : List UInt8) : Prop :=
  (bytes.length = 16 → ¬Mapped bytes ∨ bytes.drop 12 = [0, 0, 0, 0]) ∧
  (bytes.length < 16 → Mapped bytes)

section

variable {inetNtop : InetNtop} {text : List UInt8 → String} {mem : Memory}

/-- The dotted decimal is that of the first four bytes, which are 0. -/
theorem describes_iff (h : Formats inetNtop text) :
    Describes text (bytesAt mem 0 16) ((mumblePushAddress inetNtop 16).value mem) ↔
      ¬Mapped (bytesAt mem 0 16) ∨ (bytesAt mem 0 16).drop 12 = [0, 0, 0, 0] := by
  have htake : Mapped (bytesAt mem 0 16) ↔ Mapped (bytesAt mem 0 12) := mapped_take (by decide)
  rw [value_mumblePushAddress h, value_pushData, htake]
  by_cases hmapped : Mapped (bytesAt mem 0 12)
  · have hfirst : mem 0 = 0 ∧ mem 1 = 0 ∧ mem 2 = 0 ∧ mem 3 = 0 := by
      simp only [Mapped, bytesAt_succ, bytesAt_zero, List.take_succ_cons, List.take_zero,
        List.cons.injEq, Nat.zero_add, Nat.reduceAdd] at hmapped
      exact ⟨hmapped.1, hmapped.2.1, hmapped.2.2.1, hmapped.2.2.2.1⟩
    obtain ⟨h0, h1, h2, h3⟩ := hfirst
    rw [if_pos hmapped, h0, h1, h2, h3]
    have hlast : (bytesAt mem 0 16).drop 12 = [mem 12, mem 13, mem 14, mem 15] := rfl
    have htext : addressText text (bytesAt mem 0 16) =
        dotted (mem 12) (mem 13) (mem 14) (mem 15) := if_pos (htake.mpr hmapped)
    rw [hlast]
    constructor
    · intro hdescribes
      obtain ⟨h12, h13, h14, h15⟩ := dotted_injective (hdescribes.string.trans htext)
      right
      rw [← h12, ← h13, ← h14, ← h15]
    · rintro (hnot | hzero)
      · exact absurd hmapped hnot
      · simp only [List.cons.injEq, and_true] at hzero
        obtain ⟨h12, h13, h14, h15⟩ := hzero
        refine ⟨?_, ?_, ?_, rfl⟩
        · simp [htake, hmapped]
        · simp [htake, hmapped]
        · rw [htext, h12, h13, h14, h15]
  · rw [if_neg hmapped]
    refine iff_of_true ⟨?_, ?_, ?_, rfl⟩ (Or.inl hmapped)
    · simp [htake, hmapped]
    · simp [htake, hmapped]
    · exact (if_neg (mt htake.mp hmapped)).symm

theorem push_address_iff (h : Formats inetNtop text) (bytes : List UInt8)
    (hmem : Holds mem 0 bytes) :
    AsDocumented inetNtop text bytes mem ↔ PrintedRight bytes := by
  have hwhole : (bytes.length = 16 →
      Describes text bytes ((mumblePushAddress inetNtop bytes.length).value mem)) ↔
      (bytes.length = 16 → ¬Mapped bytes ∨ bytes.drop 12 = [0, 0, 0, 0]) := by
    apply forall_congr'
    intro hlength
    rw [Holds, hlength] at hmem
    rw [hlength, ← hmem]
    exact describes_iff h
  have hshort : (bytes.length < 16 →
      Always (Inside bytes.length) (mumblePushAddress inetNtop bytes.length) mem) ↔
      (bytes.length < 16 → Mapped bytes) := by
    apply forall_congr'
    intro hlength
    rw [inside_mumblePushAddress h hlength]
    rw [Holds] at hmem
    constructor
    · rintro ⟨htwelve, hmapped⟩
      rw [← hmem]
      exact (mapped_take htwelve).mpr hmapped
    · intro hmapped
      have htwelve : 12 ≤ bytes.length := by
        have hcount := congrArg List.length hmapped
        simp only [List.length_take, List.length_cons, List.length_nil] at hcount
        omega
      refine ⟨htwelve, ?_⟩
      rw [← mapped_take htwelve, hmem]
      exact hmapped
  rw [AsDocumented, PrintedRight, hwhole, hshort]

end

/-- An `inet_ntop` that knows dotted decimal, and writes the bytes of an IPv6
address in full. -/
def plainNtop : InetNtop
  | .inet, [a, b, c, d] => some (dotted a b c d)
  | .inet, _ => none
  | .inet6, bytes => some (String.intercalate ":" (bytes.map hexByte))

/-- 127.0.0.1 as a mapped address. -/
def mappedLoopback : List UInt8 :=
  [0, 0, 0, 0, 0, 0, 0, 0, 0, 0, 0xFF, 0xFF, 127, 0, 0, 1]

theorem plainNtop_formats :
    Formats plainNtop fun bytes => String.intercalate ":" (bytes.map hexByte) :=
  ⟨fun _ _ _ _ => rfl, fun _ _ => rfl⟩

theorem push_address_iff_loopback :
    AsDocumented plainNtop (fun bytes => String.intercalate ":" (bytes.map hexByte))
      mappedLoopback (fun i => mappedLoopback.getD i 0) ↔ PrintedRight mappedLoopback :=
  push_address_iff plainNtop_formats mappedLoopback rfl

/-- 127.0.0.1 is printed as 0.0.0.0. -/
theorem loopback_printed_as_zero :
    ¬ ∀ (inetNtop : InetNtop) (text : List UInt8 → String), Formats inetNtop text →
      ∀ (bytes : List UInt8) (mem : Memory), bytes.length ≤ 16 → Holds mem 0 bytes →
        AsDocumented inetNtop text bytes mem := by
  intro h
  have hdocumented := h plainNtop _ plainNtop_formats mappedLoopback
    (fun i => mappedLoopback.getD i 0) (Nat.le_refl 16) rfl
  have hdescribes : Describes _ (bytesAt (fun i => mappedLoopback.getD i 0) 0 16)
      ((mumblePushAddress plainNtop 16).value fun i => mappedLoopback.getD i 0) :=
    hdocumented.1 rfl
  have hright := (describes_iff plainNtop_formats).mp hdescribes
  rcases hright with hnot | hzero
  · exact hnot rfl
  · cases hzero

end LuaMumble.Client.Address
