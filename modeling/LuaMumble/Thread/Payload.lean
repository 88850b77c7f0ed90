import LuaMumble.Lib.TracedRead
import LuaMumble.Buffer.State

/-!
The payload of a message between a controller and its worker. The sender queues a copy made by
`strndup` with the size of the original; the receiver builds a string of that size from the
copy, with `lua_pushlstring`. A byte behind the copy may be anything.
-/

namespace LuaMumble.Thread

open Lib.TracedRead

/-- `strndup`: the bytes up to the size or to the first NUL, and a NUL. It has no result where
it reads behind the source. -/
def strndup : List UInt8 → Nat → Option (List UInt8)
  | _, 0 => some [0]
  | [], _ + 1 => none
  | b :: rest, size + 1 =>
      if b = 0 then some [0] else (strndup rest size).map fun copy => b :: copy

/-- `QueueNode`, with the block behind `data`. -/
structure QueueMessage where
  data : List UInt8
  size : Nat
  deriving DecidableEq

/-- The argument of `send`: a string, a buffer, or a userdata or another value by the name of
its type. -/
inductive Argument where
  | string (bytes : List UInt8)
  | byteBuffer (buffer : Buffer.ByteBuffer)
  | userdata (typename : String)
  | other (typename : String)

/-- An error that is raised: the number of the argument that it blames, if any, and its text. -/
structure Refusal where
  argument : Option Nat
  message : String

/-- The bytes that are sent: those of the string, or the unread ones of the buffer. -/
def Argument.payload : Argument → Option (List UInt8)
  | .string bytes => some bytes
  | .byteBuffer buffer => buffer.data.load buffer.readHead (Buffer.bufferLength buffer)
  | _ => none

/-- The common end of the two `send` functions: what is queued, or the error. A string of Lua
ends in a NUL that is not part of it. -/
def queuedMessage : Argument → Option (Except Refusal QueueMessage)
  | .string bytes =>
      (strndup (bytes ++ [0]) bytes.length).map fun copy => .ok ⟨copy, bytes.length⟩
  | .byteBuffer buffer =>
      let length := Buffer.bufferLength buffer
      (strndup (buffer.data.bytes.drop buffer.readHead) length).map fun copy => .ok ⟨copy, length⟩
  | .userdata typename => some (.error ⟨some 2, "mumble.buffer expected, got " ++ typename⟩)
  | .other typename =>
      some (.error ⟨some 1, "string or mumble.buffer expected, got " ++ typename⟩)

/-- `thread_controller_send`, where `worker` tells if there is a worker. -/
def threadControllerSend (worker : Bool) (argument : Argument) :
    Option (Except Refusal QueueMessage) :=
  if worker then queuedMessage argument
  else some (.error ⟨none, "thread worker failed to start"⟩)

/-- `thread_worker_send` -/
def threadWorkerSend (argument : Argument) : Option (Except Refusal QueueMessage) :=
  queuedMessage argument

/-- The string that `mumble_thread_worker_message` calls back with. -/
def mumbleThreadWorkerMessage (message : QueueMessage) : Traced Empty (List UInt8) :=
  slice 0 message.size

/-- The string that `mumble_thread_controller_message` calls back with. -/
def mumbleThreadControllerMessage (message : QueueMessage) : Traced Empty (List UInt8) :=
  slice 0 message.size

/-- Who sends. -/
inductive Sender where
  | controller
  | worker

def Sender.send : Sender → Argument → Option (Except Refusal QueueMessage)
  | .controller => threadControllerSend true
  | .worker => threadWorkerSend

def Sender.receive : Sender → QueueMessage → Traced Empty (List UInt8)
  | .controller => mumbleThreadWorkerMessage
  | .worker => mumbleThreadControllerMessage

/-- The entry of the log keeps to the bytes of the copy. -/
def InCopy (message : QueueMessage) : Entry Empty → Prop
  | .read index => index < message.data.length
  | .slice start length => start + length ≤ message.data.length
  | .emit _ => True

/-- The argument is sent, and whatever stands behind the copy, the receiver gets the bytes and
reads only the copy. -/
def Delivers (sender : Sender) (argument : Argument) (bytes : List UInt8) : Prop :=
  ∃ message, sender.send argument = some (.ok message) ∧
    ∀ mem, Holds mem 0 message.data →
      (sender.receive message).value mem = bytes ∧
        Always (InCopy message) (sender.receive message) mem

/-- The copy of `strndup` in terms of the first bytes that are not NUL. -/
theorem strndup_append (bytes behind : List UInt8) :
    strndup (bytes ++ behind) bytes.length = some (bytes.takeWhile (· != 0) ++ [0]) := by
  induction bytes with
  | nil => cases behind <;> rfl
  | cons b rest ih =>
      rw [List.cons_append, List.length_cons, strndup, ih, List.takeWhile_cons]
      by_cases hb : b = 0
      · simp [hb]
      · simp [hb]

/-- The bytes that a message carries are copied up to their first NUL. -/
theorem send_payload (sender : Sender) {argument : Argument} {bytes : List UInt8}
    (hpayload : argument.payload = some bytes) :
    sender.send argument =
      some (.ok ⟨bytes.takeWhile (· != 0) ++ [0], bytes.length⟩) := by
  have hqueued : queuedMessage argument =
      some (.ok ⟨bytes.takeWhile (· != 0) ++ [0], bytes.length⟩) := by
    cases argument with
    | string string =>
        cases hpayload
        rw [queuedMessage, strndup_append]
        rfl
    | byteBuffer buffer =>
        simp only [Argument.payload, Buffer.Block.load] at hpayload
        split at hpayload
        · rename_i hinside
          cases hpayload
          have hlength : ((buffer.data.bytes.drop buffer.readHead).take
              (Buffer.bufferLength buffer)).length = Buffer.bufferLength buffer := by
            rw [List.length_take, List.length_drop]
            omega
          have hcopy := strndup_append
            ((buffer.data.bytes.drop buffer.readHead).take (Buffer.bufferLength buffer))
            ((buffer.data.bytes.drop buffer.readHead).drop (Buffer.bufferLength buffer))
          rw [List.take_append_drop, hlength] at hcopy
          rw [queuedMessage, hcopy, hlength]
          rfl
        · cases hpayload
    | userdata typename => cases hpayload
    | other typename => cases hpayload
  cases sender with
  | controller => exact hqueued
  | worker => exact hqueued

/-- The copy is as long as what is read of it when only the last byte may be a NUL. -/
theorem length_le_copy_iff (bytes : List UInt8) :
    bytes.length ≤ (bytes.takeWhile (· != 0) ++ [0]).length ↔ 0 ∉ bytes.dropLast := by
  induction bytes with
  | nil => simp
  | cons b rest ih =>
      cases rest with
      | nil => simp
      | cons c rest =>
          rw [List.dropLast_cons_of_ne_nil (List.cons_ne_nil c rest), List.takeWhile_cons]
          by_cases hb : b = 0
          · simp [hb]
          · rw [if_pos (by simpa using hb), List.cons_append, List.length_cons,
              List.length_cons (a := b), Nat.succ_le_succ_iff, ih, List.mem_cons, not_or]
            exact (and_iff_right (Ne.symm hb)).symm

/-- The copy then begins with all of the bytes. -/
theorem prefix_copy {bytes : List UInt8} (h : 0 ∉ bytes.dropLast) :
    bytes <+: bytes.takeWhile (· != 0) ++ [0] := by
  induction bytes with
  | nil => exact List.nil_prefix
  | cons b rest ih =>
      cases rest with
      | nil =>
          by_cases hb : b = 0
          · simp [hb]
          · simp [hb]
      | cons c rest =>
          rw [List.dropLast_cons_of_ne_nil (List.cons_ne_nil c rest), List.mem_cons, not_or] at h
          obtain ⟨hb, hrest⟩ := h
          rw [List.takeWhile_cons, if_pos (by simpa using Ne.symm hb), List.cons_append]
          exact List.cons_prefix_cons.mpr ⟨rfl, ih hrest⟩

theorem value_receive (sender : Sender) (message : QueueMessage) (mem : Memory) :
    (sender.receive message).value mem = bytesAt mem 0 message.size := by
  cases sender <;> rfl

theorem always_receive_iff (sender : Sender) (message : QueueMessage) (mem : Memory) :
    Always (InCopy message) (sender.receive message) mem ↔
      message.size ≤ message.data.length := by
  cases sender with
  | controller => simp [Sender.receive, mumbleThreadWorkerMessage, InCopy]
  | worker => simp [Sender.receive, mumbleThreadControllerMessage, InCopy]

/-- For every sender and payload: the receiver gets the payload, and from the copy alone, just
when there is no NUL in it but at its end. -/
theorem payload_delivered_iff (sender : Sender) (argument : Argument) (bytes : List UInt8)
    (hpayload : argument.payload = some bytes) :
    Delivers sender argument bytes ↔ 0 ∉ bytes.dropLast := by
  have hsend := send_payload sender hpayload
  rw [← length_le_copy_iff]
  constructor
  · rintro ⟨message, hmessage, hdelivered⟩
    rw [hsend] at hmessage
    cases hmessage
    obtain ⟨mem, hmem⟩ := exists_holds (bytes.takeWhile (· != 0) ++ [0])
    have hinside := (hdelivered mem hmem).2
    rwa [always_receive_iff] at hinside
  · intro hinside
    refine ⟨_, hsend, ?_⟩
    intro mem hmem
    rw [value_receive, always_receive_iff]
    refine ⟨?_, hinside⟩
    obtain ⟨behind, hbehind⟩ := prefix_copy ((length_le_copy_iff bytes).mp hinside)
    change Holds mem 0 (bytes.takeWhile (· != 0) ++ [0]) at hmem
    rw [← hbehind, holds_append] at hmem
    exact hmem.1

/-- A string without a NUL arrives. -/
theorem delivers_text : Delivers .worker (.string [0x68, 0x69]) [0x68, 0x69] :=
  (payload_delivered_iff .worker (.string [0x68, 0x69]) [0x68, 0x69] rfl).mpr (by decide)

/-- A string with a NUL in the middle is cut off in the copy, and the receiver reads on behind
the copy. -/
theorem nul_cuts_payload :
    ¬ ∀ (sender : Sender) (argument : Argument) (bytes : List UInt8),
      argument.payload = some bytes → Delivers sender argument bytes := by
  intro h
  obtain ⟨message, hmessage, hdelivered⟩ := h .worker (.string [0x61, 0, 0x62]) _ rfl
  cases hmessage
  obtain ⟨mem, hmem⟩ := exists_holds [0x61, 0]
  have hinside : 0 + 3 ≤ 2 := (hdelivered mem hmem).2 (.slice 0 3) (List.mem_singleton_self _)
  omega

end LuaMumble.Thread
