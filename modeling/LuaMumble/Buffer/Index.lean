import LuaMumble.Buffer.Heads

/-!
`buffer[i]`, which README.md describes as getting a byte without reading it.
The test in `luabuffer_index` compares the position with the length that is
left, not with the write head, so a buffer that has been read in part hides the
bytes behind that length. The index is also cut to an `int`.
-/

namespace LuaMumble.Buffer

open Lib

variable {Double : Type*}

/-- `buffer[i]`: `int index = lua_tointeger(l, 2)`. -/
def luabufferAt (buffer : ByteBuffer) (i : Int64) : Option (LuaResult × ByteBuffer) :=
  luabufferIndex buffer (.byte i.toInt32)

/-- `read_head <= i < write_head`. -/
def Unread (buffer : ByteBuffer) (i : Int) : Prop :=
  (buffer.readHead : Int) ≤ i ∧ i < buffer.writeHead

instance (buffer : ByteBuffer) (i : Int) : Decidable (Unread buffer i) :=
  inferInstanceAs (Decidable (_ ∧ _))

/-- Indexing leaves the buffer as it is. It gives the byte that reading up to it
would return last, and nil where there is none to be read. -/
def Peeks (buffer : ByteBuffer) (i : Int64) : Prop :=
  ∃ result, luabufferAt buffer i = some (result, buffer) ∧
    if Unread buffer i.toInt then
      ∃ byte output after, result = .values [.string [byte]] ∧
        buffer.data.bytes[i.toInt.toNat]? = some byte ∧
        bufferRead buffer (i.toInt.toNat - buffer.readHead + 1) =
          some (i.toInt.toNat - buffer.readHead + 1, output, after) ∧
        output.getLast? = some byte
    else result = .values [.nil]

/-- The positions that pass the test of `luabuffer_index`. -/
def Shown (buffer : ByteBuffer) (i : Int) : Prop :=
  (buffer.readHead : Int) ≤ i ∧ i < (buffer.writeHead : Int) - buffer.readHead

/-- An index that an `int` holds is not one of the unread bytes from the length
on. Any other index is cut to an `int`, which has to show the same byte, or to
be hidden as the index is no unread one. -/
def PeeksWhen (buffer : ByteBuffer) (i : Int64) : Prop :=
  if -2 ^ 31 ≤ i.toInt ∧ i.toInt < 2 ^ 31 then
    ¬(Unread buffer i.toInt ∧ (buffer.writeHead : Int) - buffer.readHead ≤ i.toInt)
  else if Unread buffer i.toInt then
    Shown buffer i.toInt32.toInt ∧
      buffer.data.bytes[i.toInt32.toInt.toNat]? = buffer.data.bytes[i.toInt.toNat]?
  else ¬Shown buffer i.toInt32.toInt

section

variable {buffer : ByteBuffer} {i : Int64}

/-- As a `uint64_t` a negative index is beyond every length. -/
theorem shown_iff (h : HeadsInOrder (some buffer)) (index : Int32) :
    buffer.readHead ≤ (index.toInt % 2 ^ 64).toNat ∧
        (index.toInt % 2 ^ 64).toNat < bufferLength buffer ↔ Shown buffer index.toInt := by
  obtain ⟨q, hstores⟩ := exists_stores h
  have hheads := hstores.le
  have hcapacity := buffer.capacity_lt
  have hlength : bufferLength buffer = buffer.writeHead - buffer.readHead := by
    rw [bufferLength_spec hstores, hstores.pending_length]
  have hlow := index.le_toInt
  have hhigh := index.toInt_lt
  rw [hlength, Shown]
  omega

theorem luabufferAt_shown (h : HeadsInOrder (some buffer))
    (hshown : Shown buffer i.toInt32.toInt) :
    ∃ byte, buffer.data.bytes[i.toInt32.toInt.toNat]? = some byte ∧
      luabufferAt buffer i = some (.values [.string [byte]], buffer) := by
  have hheads := (headsInOrder_some buffer).mp h
  have hcapacity : buffer.capacity = buffer.data.bytes.length := rfl
  have hlt := buffer.capacity_lt
  obtain ⟨hread, hwrite⟩ := id hshown
  have hindex : (i.toInt32.toInt % 2 ^ 64).toNat = i.toInt32.toInt.toNat := by
    have hhigh := i.toInt32.toInt_lt
    omega
  have hinside : i.toInt32.toInt.toNat < buffer.data.bytes.length := by omega
  refine ⟨buffer.data.bytes[i.toInt32.toInt.toNat], List.getElem?_eq_getElem hinside, ?_⟩
  rw [luabufferAt, luabufferIndex, if_pos ((shown_iff h _).mpr hshown), hindex, Block.load,
    if_pos (Or.inr (Nat.succ_le_of_lt hinside)), List.drop_eq_getElem_cons hinside]
  rfl

theorem luabufferAt_hidden (h : HeadsInOrder (some buffer))
    (hhidden : ¬Shown buffer i.toInt32.toInt) :
    luabufferAt buffer i = some (.values [.nil], buffer) := by
  rw [luabufferAt, luabufferIndex, if_neg (mt (shown_iff h _).mp hhidden)]

/-- Reading up to an unread byte returns it last. -/
theorem bufferRead_getLast? (h : HeadsInOrder (some buffer)) {n : Nat} {byte : UInt8}
    (hunread : Unread buffer n) (hbyte : buffer.data.bytes[n]? = some byte) :
    ∃ output after,
      bufferRead buffer (n - buffer.readHead + 1) =
        some (n - buffer.readHead + 1, output, after) ∧ output.getLast? = some byte := by
  obtain ⟨q, hstores⟩ := exists_stores h
  have hcapacity := buffer.capacity_lt
  have hheads := hstores.le
  obtain ⟨hread, hwrite⟩ := hunread
  have hpending : n - buffer.readHead + 1 ≤ q.pending.length := by
    rw [hstores.pending_length]
    omega
  obtain ⟨after, hcall, -, -⟩ := bufferRead_spec (n := n - buffer.readHead + 1) hstores (by omega)
  have houtput : (q.read (n - buffer.readHead + 1)).1.getD [] =
      (buffer.data.bytes.drop buffer.readHead).take (n - buffer.readHead + 1) := by
    rw [RewindQueue.read, if_pos hpending, hstores.drop_readHead hpending]
    rfl
  have hlength : ((buffer.data.bytes.drop buffer.readHead).take
      (n - buffer.readHead + 1)).length = n - buffer.readHead + 1 := by
    rw [hstores.drop_readHead hpending, List.length_take_of_le hpending]
  rw [houtput, hlength] at hcall
  refine ⟨_, after, hcall, ?_⟩
  have hposition : buffer.readHead + (n - buffer.readHead) = n := by omega
  rw [List.getLast?_eq_getElem?, hlength, Nat.add_sub_cancel,
    List.getElem?_take_of_lt (Nat.lt_succ_self _), List.getElem?_drop, hposition, hbyte]

theorem toInt32_of_fits (h : -2 ^ 31 ≤ i.toInt ∧ i.toInt < 2 ^ 31) :
    i.toInt32.toInt = i.toInt := by
  rw [Int64.toInt_toInt32]
  exact Int.bmod_eq_of_le (by omega) (by omega)

theorem unread_byte (h : HeadsInOrder (some buffer)) {n : Int} (hunread : Unread buffer n) :
    ∃ byte, buffer.data.bytes[n.toNat]? = some byte := by
  have hheads := (headsInOrder_some buffer).mp h
  have hcapacity : buffer.capacity = buffer.data.bytes.length := rfl
  obtain ⟨hread, hwrite⟩ := hunread
  have hinside : n.toNat < buffer.data.bytes.length := by omega
  exact ⟨_, List.getElem?_eq_getElem hinside⟩

/-- What indexing has to do in terms of the test of the code. -/
theorem peeks_iff_shown (h : HeadsInOrder (some buffer)) :
    Peeks buffer i ↔
      if Unread buffer i.toInt then
        Shown buffer i.toInt32.toInt ∧
          buffer.data.bytes[i.toInt32.toInt.toNat]? = buffer.data.bytes[i.toInt.toNat]?
      else ¬Shown buffer i.toInt32.toInt := by
  by_cases hshown : Shown buffer i.toInt32.toInt
  · obtain ⟨byte, hbyte, hat⟩ := luabufferAt_shown h hshown
    simp only [Peeks, hat, hshown]
    by_cases hunread : Unread buffer i.toInt
    · simp only [if_pos hunread, hbyte, true_and]
      have hnonneg : ((i.toInt.toNat : Nat) : Int) = i.toInt := by
        obtain ⟨hread, -⟩ := hunread
        omega
      constructor
      · rintro ⟨result, hresult, byte', -, -, rfl, hbyte', -⟩
        cases hresult
        exact hbyte'.symm
      · intro hsame
        obtain ⟨output, after, hcall, hlast⟩ := bufferRead_getLast? h
          (by rw [hnonneg]; exact hunread) hsame.symm
        exact ⟨_, rfl, byte, output, after, rfl, hsame.symm, hcall, hlast⟩
    · simp only [if_neg hunread, not_true_eq_false, iff_false]
      rintro ⟨result, hresult, rfl⟩
      cases hresult
  · simp only [Peeks, luabufferAt_hidden h hshown, hshown]
    by_cases hunread : Unread buffer i.toInt
    · simp only [if_pos hunread, false_and, iff_false]
      rintro ⟨result, hresult, byte', -, -, rfl, -⟩
      cases hresult
    · simp only [if_neg hunread, not_false_eq_true, iff_true]
      exact ⟨_, rfl, rfl⟩

theorem peeks_iff (h : HeadsInOrder (some buffer)) : Peeks buffer i ↔ PeeksWhen buffer i := by
  rw [peeks_iff_shown h, PeeksWhen]
  by_cases hfits : -2 ^ 31 ≤ i.toInt ∧ i.toInt < 2 ^ 31
  · rw [if_pos hfits, toInt32_of_fits hfits]
    have hheads := (headsInOrder_some buffer).mp h
    by_cases hunread : Unread buffer i.toInt
    · simp only [hunread, if_true, and_true, true_and, not_le]
      exact ⟨fun hshown => hshown.2, fun hlt => ⟨hunread.1, hlt⟩⟩
    · simp only [hunread, if_false, false_and, not_false_eq_true, iff_true]
      rintro ⟨hread, hlt⟩
      exact hunread ⟨hread, by omega⟩
  · rw [if_neg hfits]

end

/-- The heads are in order in every state that calls other than `seek` reach. -/
theorem headsInOrder_run (arithmetic : Arithmetic Double) {buffer after : ByteBuffer}
    (h : HeadsInOrder (some buffer)) (calls : List (MethodCall Double))
    (hcalls : ∀ call ∈ calls, ∀ mode whence offset, call.method ≠ .seek mode whence offset)
    (hafter : Machine.final (methodStep arithmetic) (some buffer) calls = some after) :
    HeadsInOrder (some after) := by
  induction calls generalizing buffer with
  | nil =>
      cases hafter
      exact h
  | cons call rest ih =>
      have hnone (rest : List (MethodCall Double)) :
          Machine.final (methodStep arithmetic) none rest = none := by
        induction rest with
        | nil => rfl
        | cons _ _ ihrest => exact ihrest
      rw [Machine.final] at hafter
      cases hcall : call.method.perform arithmetic call.heap buffer with
      | none =>
          rw [methodStep, Option.bind_some, hcall] at hafter
          rw [hnone rest] at hafter
          cases hafter
      | some answer =>
          obtain ⟨result, next⟩ := answer
          rw [methodStep, Option.bind_some, hcall] at hafter
          exact ih (h.perform arithmetic (hcalls call List.mem_cons_self) hcall)
            (fun other hmem => hcalls other (List.mem_cons_of_mem _ hmem)) hafter

/-- In every state that a script reaches without `seek`, indexing peeks at a byte
as described just when the index meets its condition. -/
theorem index_peeks_iff (arithmetic : Arithmetic Double) (heap : Heap) (argument : NewArgument)
    (buffer : ByteBuffer) (hnew : mumbleBufferNew heap argument = some buffer)
    (calls : List (MethodCall Double))
    (hcalls : ∀ call ∈ calls, ∀ mode whence offset, call.method ≠ .seek mode whence offset)
    (after : ByteBuffer)
    (hafter : Machine.final (methodStep arithmetic) (some buffer) calls = some after) (i : Int64) :
    Peeks after i ↔ PeeksWhen after i :=
  peeks_iff (headsInOrder_run arithmetic (headsInOrder_new hnew) calls hcalls hafter)

/-- Two bytes written and one of them read. -/
def readInPart : List (MethodCall Int) :=
  let heap : Heap := fun _ => some fun _ => 0
  [⟨heap, .write [65, 66]⟩, ⟨heap, .readByte⟩]

def partlyRead : ByteBuffer := ⟨⟨[65, 66, 0], by decide⟩, 1, 2⟩

theorem readInPart_final :
    Machine.final (methodStep integerArithmetic) (some ⟨⟨[], by decide⟩, 0, 0⟩) readInPart =
      some partlyRead := rfl

theorem index_peeks_iff_partlyRead : Peeks partlyRead 1 ↔ PeeksWhen partlyRead 1 := by
  refine index_peeks_iff integerArithmetic (fun _ => some fun _ => 0) (.number 0) _ rfl readInPart
    ?_ partlyRead readInPart_final 1
  intro call hcall mode whence offset
  simp only [readInPart, List.mem_cons, List.not_mem_nil, or_false] at hcall
  rcases hcall with rfl | rfl <;> exact nofun

/-- The second byte is still to be read, and indexing does not show it. -/
theorem index_hides_unread_byte :
    ¬ ∀ (heap : Heap) (argument : NewArgument) (buffer : ByteBuffer),
      mumbleBufferNew heap argument = some buffer → ∀ calls : List (MethodCall Int),
      (∀ call ∈ calls, ∀ mode whence offset, call.method ≠ .seek mode whence offset) →
      ∀ after, Machine.final (methodStep integerArithmetic) (some buffer) calls = some after →
      ∀ i, Peeks after i := by
  intro h
  have hpeeks : Peeks partlyRead 1 := by
    refine h (fun _ => some fun _ => 0) (.number 0) _ rfl readInPart ?_ partlyRead
      readInPart_final 1
    intro call hcall mode whence offset
    simp only [readInPart, List.mem_cons, List.not_mem_nil, or_false] at hcall
    rcases hcall with rfl | rfl <;> exact nofun
  have hheads : HeadsInOrder (some partlyRead) := ⟨_, rfl, by decide, by decide⟩
  have hwhen := (peeks_iff hheads).mp hpeeks
  rw [PeeksWhen, if_pos (by decide)] at hwhen
  exact hwhen ⟨by decide, by decide⟩

end LuaMumble.Buffer
