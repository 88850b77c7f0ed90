import LuaMumble.Lib.RingBuffer

/-!
The ring of samples between the buffer thread, which writes it, and the mixer,
which reads it.
-/

namespace LuaMumble.Audio

open Lib

/-- The members of an `AudioStream` that make up its ring. -/
structure Ring (α : Type) where
  buffer : Nat → α
  bufferSize : Nat
  used : Nat
  head : Nat
  tail : Nat
  used_le : used ≤ bufferSize
  tail_lt : tail < bufferSize
  head_eq : head = (tail + used) % bufferSize

variable {α : Type}

/-- `ring_count` -/
def ringCount (s : Ring α) : Nat := s.used

/-- `ring_space` -/
def ringSpace (s : Ring α) : Nat :=
  if s.bufferSize ≤ ringCount s then 0 else s.bufferSize - ringCount s

theorem ringSpace_eq (s : Ring α) : ringSpace s = s.bufferSize - s.used := by
  rw [ringSpace, ringCount]
  split <;> omega

/-- `ring_write`: as many samples as there is space for, in two copies. The second
one is empty where the C function makes none. -/
def ringWrite (s : Ring α) (src : List α) : Ring α :=
  let chunk := src.take (ringSpace s)
  if chunk.length = 0 then s
  else
    let first := RingBuffer.upToEnd s.bufferSize s.head chunk.length
    { s with
      buffer := RingBuffer.copyIn (RingBuffer.copyIn s.buffer s.head (chunk.take first)) 0
        (chunk.drop first)
      head := (s.head + chunk.length) % s.bufferSize
      used := s.used + chunk.length
      used_le := by
        have hchunk : chunk.length ≤ ringSpace s := List.length_take_le _ _
        have hused := s.used_le
        rw [ringSpace_eq] at hchunk
        omega
      head_eq := by rw [s.head_eq, Nat.mod_add_mod, Nat.add_assoc] }

/-- `ring_read`: what it copies to `dst`, and the ring. -/
def ringRead (s : Ring α) (count : Nat) : List α × Ring α :=
  let count := min count (ringCount s)
  if hcount : count = 0 then ([], s)
  else
    let first := RingBuffer.upToEnd s.bufferSize s.tail count
    (RingBuffer.copyOut s.buffer s.tail first ++ RingBuffer.copyOut s.buffer 0 (count - first),
      { s with
        tail := (s.tail + count) % s.bufferSize
        used := s.used - count
        used_le := Nat.le_trans (Nat.sub_le _ _) s.used_le
        tail_lt := Nat.mod_lt _ (Nat.zero_lt_of_lt s.tail_lt)
        head_eq := by
          have hle : count ≤ s.used := Nat.min_le_right _ _
          rw [Nat.mod_add_mod, s.head_eq]
          congr 1
          omega })

/-- The ring as `audiostream_reset_playback_state` leaves it. -/
def ringReset (s : Ring α) : Ring α :=
  { s with
    used := 0
    head := 0
    tail := 0
    used_le := Nat.zero_le _
    tail_lt := Nat.zero_lt_of_lt s.tail_lt
    head_eq := (Nat.zero_mod _).symm }

/-- The samples that are queued. -/
def Ring.contents (s : Ring α) : List α :=
  RingBuffer.contents s.buffer s.bufferSize s.tail s.used

@[simp] theorem Ring.contents_length (s : Ring α) : s.contents.length = s.used :=
  RingBuffer.contents_length

@[simp] theorem ringReset_contents (s : Ring α) : (ringReset s).contents = [] := rfl

@[simp] theorem ringWrite_bufferSize (s : Ring α) (src : List α) :
    (ringWrite s src).bufferSize = s.bufferSize := by
  simp only [ringWrite]
  split <;> rfl

@[simp] theorem ringRead_bufferSize (s : Ring α) (count : Nat) :
    (ringRead s count).2.bufferSize = s.bufferSize := by
  simp only [ringRead]
  split <;> rfl

/-- Writing appends to what is queued. -/
theorem ringWrite_contents (s : Ring α) {src : List α}
    (hroom : s.used + src.length ≤ s.bufferSize) :
    (ringWrite s src).contents = s.contents ++ src := by
  have hchunk : src.take (ringSpace s) = src := by
    apply List.take_of_length_le
    rw [ringSpace_eq]
    omega
  simp only [ringWrite, hchunk]
  split
  · rename_i hempty
    rw [List.length_eq_zero_iff.mp hempty, List.append_nil]
  · exact RingBuffer.contents_copyIn s.tail_lt hroom s.head_eq

/-- Reading takes from the front of what is queued. -/
theorem ringRead_eq (s : Ring α) (count : Nat) :
    (ringRead s count).1 = s.contents.take count ∧
      (ringRead s count).2.contents = s.contents.drop count := by
  obtain ⟨n, hn⟩ : ∃ n, n = min count s.used := ⟨_, rfl⟩
  have hle : n ≤ s.used := by omega
  have hsplit : s.contents = RingBuffer.contents s.buffer s.bufferSize s.tail n ++
      RingBuffer.contents s.buffer s.bufferSize ((s.tail + n) % s.bufferSize) (s.used - n) := by
    rw [← RingBuffer.contents_add, Nat.add_sub_cancel' hle]
    rfl
  have htake : s.contents.take count = s.contents.take n := by
    rw [hn, ← s.contents_length]
    exact List.take_eq_take_min
  have hdrop : s.contents.drop count = s.contents.drop n := by
    rw [hn, ← s.contents_length]
    exact List.drop_eq_drop_min
  rw [htake, hdrop, hsplit, List.take_left' (by simp), List.drop_left' (by simp)]
  simp only [ringRead, ringCount, ← hn]
  split
  · rename_i hzero
    rw [hzero, Nat.add_zero, Nat.mod_eq_of_lt s.tail_lt]
    exact ⟨rfl, rfl⟩
  · exact ⟨RingBuffer.copyOut_append s.tail_lt (Nat.le_trans hle s.used_le), rfl⟩

end LuaMumble.Audio
