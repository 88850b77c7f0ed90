import LuaMumble.Lib.RingBuffer
import LuaMumble.Lib.Machine
import Mathlib.Logic.Function.Basic

/-!
`ring_write` and `ring_read` in single steps, as two threads interleave them. A step is one
load, one store, the addition to or subtraction from `used`, or the copy of one sample; the
accesses are sequentially consistent, and nothing resets the ring.
-/

namespace LuaMumble.Audio.RingSteps

open Lib

variable {α : Type}

/-- A call of `ring_write` with `count` the length of `src`. `room` is the free space when
it began, which the function does not see. -/
structure WriteCall (α : Type) where
  src : List α
  room : Nat

/-- A call of `ring_read`. `available` is what was queued when it began. -/
structure ReadCall where
  count : Nat
  available : Nat

/-- What is next in `ring_write`, with its local variables. `copied` samples are in the ring. -/
inductive Producer (α : Type) where
  | idle
  | loadingHead (call : WriteCall α)
  | loadingUsed (call : WriteCall α) (head : Nat)
  | copying (call : WriteCall α) (head count copied : Nat)
  | adding (call : WriteCall α) (head count : Nat)

/-- What is next in `ring_read`. `dst` is what it has copied. -/
inductive Consumer (α : Type) where
  | idle
  | loadingTail (call : ReadCall)
  | loadingUsed (call : ReadCall) (tail : Nat)
  | copying (call : ReadCall) (tail count : Nat) (dst : List α)
  | subtracting (call : ReadCall) (tail count : Nat) (dst : List α)

/-- The ring of an `AudioStream` and where its two threads are. -/
structure State (α : Type) where
  buffer : Nat → α
  bufferSize : Nat
  used : Nat
  head : Nat
  tail : Nat
  producer : Producer α
  consumer : Consumer α

inductive Input (α : Type) where
  | write (src : List α)
  | read (count : Nat)
  | producer
  | consumer

/-- What a step shows: the cell that it stores a sample in, or the value that a call returns. -/
inductive Output (α : Type) where
  | silent
  | stored (cell : Nat)
  | wrote (call : WriteCall α) (count : Nat)
  | read (call : ReadCall) (count : Nat) (dst : List α)

/-- The empty ring. -/
def opened (bufferSize : Nat) (buffer : Nat → α) : State α :=
  { buffer := buffer
    bufferSize := bufferSize
    used := 0
    head := 0
    tail := 0
    producer := .idle
    consumer := .idle }

/-- `ring_space` -/
def ringSpace (s : State α) : Nat := if s.bufferSize ≤ s.used then 0 else s.bufferSize - s.used

/-- Where the two calls of `memcpy` have the sample number `i` of `count`. -/
def cell (bufferSize pos count i : Nat) : Nat :=
  let first := RingBuffer.upToEnd bufferSize pos count
  if i < first then pos + i else i - first

/-- The next step of `ring_write`. -/
def producerStep (s : State α) : Output α × State α :=
  match s.producer with
  | .idle => (.silent, s)
  | .loadingHead call => (.silent, { s with producer := .loadingUsed call s.head })
  | .loadingUsed call head =>
      let count := min call.src.length (ringSpace s)
      if count = 0 then (.wrote call 0, { s with producer := .idle })
      else (.silent, { s with producer := .copying call head count 0 })
  | .copying call head count copied =>
      match (call.src.take count)[copied]? with
      | some sample =>
          (.stored (cell s.bufferSize head count copied), { s with
            buffer := Function.update s.buffer (cell s.bufferSize head count copied) sample
            producer := .copying call head count (copied + 1) })
      | none =>
          (.silent, { s with
            head := (head + count) % s.bufferSize
            producer := .adding call head count })
  | .adding call _ count =>
      (.wrote call count, { s with used := s.used + count, producer := .idle })

/-- The next step of `ring_read`. -/
def consumerStep (s : State α) : Output α × State α :=
  match s.consumer with
  | .idle => (.silent, s)
  | .loadingTail call => (.silent, { s with consumer := .loadingUsed call s.tail })
  | .loadingUsed call tail =>
      let count := min call.count s.used
      if count = 0 then (.read call 0 [], { s with consumer := .idle })
      else (.silent, { s with consumer := .copying call tail count [] })
  | .copying call tail count dst =>
      if dst.length < count then
        let sample := s.buffer (cell s.bufferSize tail count dst.length)
        (.silent, { s with consumer := .copying call tail count (dst ++ [sample]) })
      else
        (.silent, { s with
          tail := (tail + count) % s.bufferSize
          consumer := .subtracting call tail count dst })
  | .subtracting call _ count dst =>
      (.read call count dst, { s with used := s.used - count, consumer := .idle })

/-- A thread makes one call at a time. -/
def step (s : State α) : Input α → Output α × State α
  | .write src =>
      match s.producer with
      | .idle => (.silent, { s with producer := .loadingHead ⟨src, ringSpace s⟩ })
      | _ => (.silent, s)
  | .read count =>
      match s.consumer with
      | .idle => (.silent, { s with consumer := .loadingTail ⟨count, s.used⟩ })
      | _ => (.silent, s)
  | .producer => producerStep s
  | .consumer => consumerStep s

/-- The samples that a step accepts. -/
def Output.accepted : Output α → List α
  | .wrote call count => call.src.take count
  | _ => []

/-- The samples that a step returns. -/
def Output.returned : Output α → List α
  | .read _ _ dst => dst
  | _ => []

/-- A call returns the number of samples it transferred, which is as many as it was asked for
and as there was space for, or samples, when it began. -/
def Output.Exact : Output α → Prop
  | .wrote call count => count ≤ call.src.length ∧ min call.src.length call.room ≤ count
  | .read call count dst =>
      dst.length = count ∧ count ≤ call.count ∧ min call.count call.available ≤ count
  | _ => True

/-- The first cell that was not read: the tail, or what it was before the reader moved it. -/
def State.front (s : State α) : Nat :=
  match s.consumer with
  | .subtracting _ tail _ _ => tail
  | _ => s.tail

/-- The first cell behind what was written: the head, or what it was before the writer
moved it. -/
def State.rear (s : State α) : Nat :=
  match s.producer with
  | .adding _ head _ => head
  | _ => s.head

/-- The cells with the samples that were written and not yet read. -/
def State.unread (s : State α) : List Nat :=
  (List.range s.used).map fun i => (s.front + i) % s.bufferSize

end LuaMumble.Audio.RingSteps
