import Mathlib.Data.List.Basic

/-!
Computations that read a memory of bytes and leave a log of what they did. The
memory is that behind a pointer into a buffer; a computation sees bytes past the
end of the buffer as it sees those inside, and only its log tells the two apart.
The composition lemmas reduce a property of every entry of a log to the parts of
the computation, and the lemmas on `bytesAt` relate the memory to the bytes known
to lie in it.
-/

namespace LuaMumble.Lib.TracedRead

/-- The bytes behind a pointer. -/
abbrev Memory := Nat → UInt8

/-- An entry of a log: one byte read, a range handed to other code, or something
else of the caller's choice. -/
inductive Entry (E : Type) where
  | read (index : Nat)
  | slice (start length : Nat)
  | emit (e : E)

def Traced (E A : Type) : Type := Memory → A × List (Entry E)

namespace Traced

variable {E A B : Type}

instance : Monad (Traced E) where
  pure a := fun _ => (a, [])
  bind x f := fun mem =>
    let (a, log) := x mem
    let (b, rest) := f a mem
    (b, log ++ rest)

def value (x : Traced E A) (mem : Memory) : A := (x mem).1

def log (x : Traced E A) (mem : Memory) : List (Entry E) := (x mem).2

end Traced

open Traced

/-- The `length` bytes from `start` on. -/
def bytesAt (mem : Memory) : Nat → Nat → List UInt8
  | _, 0 => []
  | start, length + 1 => mem start :: bytesAt mem (start + 1) length

variable {E A B : Type}

def load (index : Nat) : Traced E UInt8 := fun mem => (mem index, [.read index])

def slice (start length : Nat) : Traced E (List UInt8) := fun mem =>
  (bytesAt mem start length, [.slice start length])

/-- The memory behind another pointer, for code that is only given the pointer. -/
def pointer (start : Nat) : Traced E Memory := fun mem => (fun i => mem (start + i), [])

def emit (e : E) : Traced E Unit := fun _ => ((), [.emit e])

/-- `p` holds of every entry of the log. -/
def Always (p : Entry E → Prop) (x : Traced E A) (mem : Memory) : Prop :=
  ∀ entry ∈ x.log mem, p entry

variable {p : Entry E → Prop} {mem : Memory}

@[simp] theorem value_pure (a : A) : value (pure a : Traced E A) mem = a := rfl

@[simp] theorem value_bind (x : Traced E A) (f : A → Traced E B) :
    value (x >>= f) mem = value (f (x.value mem)) mem := rfl

theorem log_bind (x : Traced E A) (f : A → Traced E B) :
    log (x >>= f) mem = x.log mem ++ log (f (x.value mem)) mem := rfl

@[simp] theorem always_pure (a : A) : Always p (pure a : Traced E A) mem := by
  simp [Always, log, pure]

/-- The rule of sequencing: a computation keeps to `p` when its first part does
and its second part does on the value of the first. -/
@[simp] theorem always_bind (x : Traced E A) (f : A → Traced E B) :
    Always p (x >>= f) mem ↔ Always p x mem ∧ Always p (f (x.value mem)) mem := by
  simp only [Always, log_bind, List.mem_append]
  constructor
  · intro h
    exact ⟨fun entry hentry => h entry (Or.inl hentry),
      fun entry hentry => h entry (Or.inr hentry)⟩
  · rintro ⟨hfirst, hsecond⟩ entry (hentry | hentry)
    · exact hfirst entry hentry
    · exact hsecond entry hentry

theorem value_ite (c : Prop) [Decidable c] (x y : Traced E A) :
    value (if c then x else y) mem = if c then value x mem else value y mem := by
  split <;> rfl

theorem always_ite (c : Prop) [Decidable c] (x y : Traced E A) :
    Always p (if c then x else y) mem ↔ if c then Always p x mem else Always p y mem := by
  split <;> rfl

@[simp] theorem value_load (index : Nat) :
    value (load index : Traced E UInt8) mem = mem index := rfl

@[simp] theorem always_load (index : Nat) :
    Always p (load index : Traced E UInt8) mem ↔ p (.read index) := by
  simp [Always, log, load]

@[simp] theorem value_slice (start length : Nat) :
    value (slice start length : Traced E (List UInt8)) mem = bytesAt mem start length := rfl

@[simp] theorem always_slice (start length : Nat) :
    Always p (slice start length : Traced E (List UInt8)) mem ↔ p (.slice start length) := by
  simp [Always, log, slice]

@[simp] theorem value_pointer (start : Nat) :
    value (pointer start : Traced E Memory) mem = fun i => mem (start + i) := rfl

@[simp] theorem always_pointer (start : Nat) :
    Always p (pointer start : Traced E Memory) mem := by
  simp [Always, log, pointer]

@[simp] theorem always_emit (e : E) : Always p (emit e) mem ↔ p (.emit e) := by
  simp [Always, log, emit]

section Stretches

@[simp] theorem bytesAt_zero (start : Nat) : bytesAt mem start 0 = [] := rfl

theorem bytesAt_succ (start length : Nat) :
    bytesAt mem start (length + 1) = mem start :: bytesAt mem (start + 1) length := rfl

@[simp] theorem bytesAt_length (start length : Nat) :
    (bytesAt mem start length).length = length := by
  induction length generalizing start with
  | zero => rfl
  | succ length ih => exact congrArg Nat.succ (ih (start + 1))

/-- The memory holds these bytes from `start` on. -/
def Holds (mem : Memory) (start : Nat) (bytes : List UInt8) : Prop :=
  bytesAt mem start bytes.length = bytes

@[simp] theorem holds_nil (start : Nat) : Holds mem start [] := rfl

@[simp] theorem holds_cons (start : Nat) (b : UInt8) (bytes : List UInt8) :
    Holds mem start (b :: bytes) ↔ mem start = b ∧ Holds mem (start + 1) bytes := by
  simp [Holds, bytesAt_succ]

theorem holds_append (start : Nat) (xs ys : List UInt8) :
    Holds mem start (xs ++ ys) ↔ Holds mem start xs ∧ Holds mem (start + xs.length) ys := by
  induction xs generalizing start with
  | nil => simp
  | cons x rest ih =>
      rw [List.cons_append, holds_cons, holds_cons, ih, and_assoc, List.length_cons]
      rw [Nat.add_right_comm start 1 rest.length, Nat.add_assoc]

theorem holds_iff (start : Nat) (bytes : List UInt8) :
    Holds mem start bytes ↔ ∀ (i : Nat) (hi : i < bytes.length), mem (start + i) = bytes[i] := by
  induction bytes generalizing start with
  | nil => simp
  | cons b rest ih =>
      rw [holds_cons, ih]
      constructor
      · rintro ⟨hb, hrest⟩ i hi
        cases i with
        | zero => exact hb
        | succ i =>
            have hi' := hrest i (by simpa using hi)
            rwa [Nat.add_assoc, Nat.add_comm 1 i] at hi'
      · intro h
        refine ⟨h 0 (Nat.succ_pos _), fun i hi => ?_⟩
        rw [Nat.add_assoc, Nat.add_comm 1 i]
        exact h (i + 1) (Nat.succ_lt_succ hi)

/-- Bytes that memory holds begin with every stretch that lies inside them. -/
theorem holds_split (start length : Nat) (bytes : List UInt8) (hbytes : Holds mem start bytes)
    (hlength : length ≤ bytes.length) :
    bytes = bytesAt mem start length ++ bytes.drop length ∧
      Holds mem (start + length) (bytes.drop length) := by
  have htake : (bytes.take length).length = length := List.length_take_of_le hlength
  have hsplit := hbytes
  rw [← List.take_append_drop length bytes, holds_append, htake] at hsplit
  obtain ⟨hfirst, hrest⟩ := hsplit
  rw [Holds, htake] at hfirst
  exact ⟨by rw [hfirst, List.take_append_drop], hrest⟩

/-- Some memory holds the bytes from its start on. -/
theorem exists_holds (bytes : List UInt8) : ∃ mem : Memory, Holds mem 0 bytes := by
  suffices h : ∀ (past : List UInt8),
      Holds (fun i => (past ++ bytes).getD i 0) past.length bytes from
    ⟨_, h []⟩
  induction bytes with
  | nil => intro past; rfl
  | cons b rest ih =>
      intro past
      have hrest := ih (past ++ [b])
      rw [List.append_assoc, List.singleton_append] at hrest
      rw [holds_cons]
      refine ⟨by simp, ?_⟩
      simpa using hrest

end Stretches

end LuaMumble.Lib.TracedRead
