import LuaMumble.Audio.Ring
import LuaMumble.Audio.RingSteps

/-!
Every interleaving of a writer and a reader of the ring. What is accepted and not yet
returned lies in the cells from the front on. A copy into the ring goes to the cells behind
these, which stay free until the call is over, because only the writer adds to `used`; a copy
out of it takes from the first of these, which stay filled, because only the reader subtracts.
-/

namespace LuaMumble.Audio.RingSteps

open Lib

variable {α : Type}

/-- What the call of `ring_write` that is under way knows. -/
def ProducerOk (s : State α) : Prop :=
  match s.producer with
  | .idle => True
  | .loadingHead call => call.room ≤ s.bufferSize - s.used
  | .loadingUsed call head => head = s.head ∧ call.room ≤ s.bufferSize - s.used
  | .copying call head count copied =>
      head = s.head ∧ s.used + count ≤ s.bufferSize ∧ (Output.wrote call count).Exact ∧
        copied ≤ count ∧
        RingBuffer.contents s.buffer s.bufferSize head copied = call.src.take copied
  | .adding call head count =>
      s.head = (head + count) % s.bufferSize ∧ s.used + count ≤ s.bufferSize ∧
        (Output.wrote call count).Exact ∧
        RingBuffer.contents s.buffer s.bufferSize head count = call.src.take count

/-- What the call of `ring_read` that is under way knows. -/
def ConsumerOk (s : State α) : Prop :=
  match s.consumer with
  | .idle => True
  | .loadingTail call => call.available ≤ s.used
  | .loadingUsed call tail => tail = s.tail ∧ call.available ≤ s.used
  | .copying call tail count dst =>
      tail = s.tail ∧ count ≤ s.used ∧ count ≤ call.count ∧ min call.count call.available ≤ count ∧
        dst.length ≤ count ∧
        dst = RingBuffer.contents s.buffer s.bufferSize tail dst.length
  | .subtracting call tail count dst =>
      s.tail = (tail + count) % s.bufferSize ∧ count ≤ s.used ∧ (Output.read call count dst).Exact ∧
        dst = RingBuffer.contents s.buffer s.bufferSize tail count

/-- The samples accepted, the samples returned, and what lies in the ring. -/
structure Inv (s : State α) (accepted returned : List α) : Prop where
  front_lt : s.front < s.bufferSize
  used_le : s.used ≤ s.bufferSize
  rear_eq : s.rear = (s.front + s.used) % s.bufferSize
  samples : accepted = returned ++ RingBuffer.contents s.buffer s.bufferSize s.front s.used
  producer : ProducerOk s
  consumer : ConsumerOk s

theorem ringSpace_eq (s : State α) : ringSpace s = s.bufferSize - s.used := by
  rw [ringSpace]
  split <;> omega

/-- The two copies go around the end of the ring. -/
theorem cell_eq {size pos count i : Nat} (hpos : pos < size) (hi : i < count)
    (hcount : count ≤ size) : cell size pos count i = (pos + i) % size := by
  rw [cell, RingBuffer.upToEnd, RingBuffer.wrapped hpos (by omega)]
  split_ifs <;> omega

section Frame

variable {s s' : State α}

/-- The writer does not mind that `used` shrinks. -/
theorem ProducerOk.of_used_le (h : ProducerOk s) (hproducer : s'.producer = s.producer)
    (hbuffer : s'.buffer = s.buffer) (hsize : s'.bufferSize = s.bufferSize)
    (hhead : s'.head = s.head) (hused : s'.used ≤ s.used) : ProducerOk s' := by
  simp only [ProducerOk, hproducer, hbuffer, hsize, hhead] at h ⊢
  cases hat : s.producer with
  | idle => trivial
  | loadingHead call =>
      simp only [hat] at h ⊢
      omega
  | loadingUsed call head =>
      simp only [hat] at h ⊢
      exact ⟨h.1, by omega⟩
  | copying call head count copied =>
      simp only [hat] at h ⊢
      exact ⟨h.1, by omega, h.2.2⟩
  | adding call head count =>
      simp only [hat] at h ⊢
      exact ⟨h.1, by omega, h.2.2⟩

/-- The reader does not mind that `used` grows, as long as what is queued stays. -/
theorem ConsumerOk.of_used_ge (h : ConsumerOk s) (hconsumer : s'.consumer = s.consumer)
    (hsize : s'.bufferSize = s.bufferSize) (htail : s'.tail = s.tail) (hused : s.used ≤ s'.used)
    (hcontents : RingBuffer.contents s'.buffer s.bufferSize s.front s.used =
      RingBuffer.contents s.buffer s.bufferSize s.front s.used) : ConsumerOk s' := by
  have hfirst {n : Nat} (hn : n ≤ s.used) :
      RingBuffer.contents s'.buffer s.bufferSize s.front n =
        RingBuffer.contents s.buffer s.bufferSize s.front n := by
    rw [← RingBuffer.contents_take hn, hcontents, RingBuffer.contents_take hn]
  simp only [ConsumerOk, hconsumer, hsize, htail] at h ⊢
  cases hat : s.consumer with
  | idle => trivial
  | loadingTail call =>
      simp only [hat] at h ⊢
      omega
  | loadingUsed call tail =>
      simp only [hat] at h ⊢
      exact ⟨h.1, by omega⟩
  | copying call tail count dst =>
      simp only [hat] at h ⊢
      obtain ⟨rfl, hcount, hmost, hleast, hdst, hcopied⟩ := h
      simp only [State.front, hat] at hfirst
      refine ⟨rfl, by omega, hmost, hleast, hdst, ?_⟩
      rw [hfirst (by omega)]
      exact hcopied
  | subtracting call tail count dst =>
      simp only [hat] at h ⊢
      obtain ⟨hmoved, hcount, hexact, hcopied⟩ := h
      simp only [State.front, hat] at hfirst
      refine ⟨hmoved, by omega, hexact, ?_⟩
      rw [hfirst hcount]
      exact hcopied

end Frame

section Steps

variable {s : State α} {accepted returned : List α}

theorem Inv.rear_lt (h : Inv s accepted returned) : s.rear < s.bufferSize := by
  rw [h.rear_eq]
  exact Nat.mod_lt _ (Nat.zero_lt_of_lt h.front_lt)

/-- The cell of the next sample, behind all that is not read. -/
theorem Inv.cell_behind (h : Inv s accepted returned) {call : WriteCall α}
    {head count copied : Nat} (hproducer : s.producer = .copying call head count copied)
    (hcopied : copied < count) :
    cell s.bufferSize head count copied = (s.front + (s.used + copied)) % s.bufferSize := by
  have hok := h.producer
  simp only [ProducerOk, hproducer] at hok
  obtain ⟨rfl, hroom, -⟩ := hok
  have hrear : s.rear = s.head := by simp [State.rear, hproducer]
  have hlt := h.rear_lt
  have heq := h.rear_eq
  rw [hrear] at hlt heq
  rw [cell_eq hlt hcopied (by omega), heq, Nat.mod_add_mod, Nat.add_assoc]

theorem Inv.copySample (h : Inv s accepted returned) {call : WriteCall α}
    {head count copied : Nat} (hproducer : s.producer = .copying call head count copied)
    {sample : α} (hsample : (call.src.take count)[copied]? = some sample) :
    Inv { s with
      buffer := Function.update s.buffer (cell s.bufferSize head count copied) sample
      producer := .copying call head count (copied + 1) } accepted returned := by
  obtain ⟨hlength, hget⟩ := List.getElem?_eq_some_iff.mp hsample
  rw [List.length_take] at hlength
  have hcopied : copied < count := by omega
  have hok := h.producer
  simp only [ProducerOk, hproducer] at hok
  obtain ⟨rfl, hroom, hexact, -, hdone⟩ := hok
  have hcell := h.cell_behind hproducer hcopied
  have hcontents : RingBuffer.contents
      (Function.update s.buffer ((s.front + (s.used + copied)) % s.bufferSize) sample)
        s.bufferSize s.front s.used =
      RingBuffer.contents s.buffer s.bufferSize s.front s.used :=
    RingBuffer.contents_update_behind (by omega) (by omega) sample
  rw [← hcell] at hcontents
  have hrear : s.rear = s.head := by simp [State.rear, hproducer]
  have hlt := h.rear_lt
  rw [hrear] at hlt
  refine ⟨h.front_lt, h.used_le, ?_, ?_, ?_, ?_⟩
  · simpa [State.rear, State.front, hproducer] using h.rear_eq
  · rw [h.samples]
    exact congrArg _ hcontents.symm
  · refine ⟨rfl, hroom, hexact, hcopied, ?_⟩
    rw [cell_eq hlt hcopied (by omega), RingBuffer.contents_update_next (by omega), hdone]
    rw [List.getElem_take] at hget
    rw [← hget, List.take_succ_eq_append_getElem]
  · exact h.consumer.of_used_ge rfl rfl rfl (Nat.le_refl _) hcontents

/-- A step of the writer that leaves the rear and `used` alone. -/
theorem Inv.writing (h : Inv s accepted returned) {producer : Producer α} {head : Nat}
    (hrear : ({ s with head := head, producer := producer } : State α).rear = s.rear)
    (hok : ProducerOk { s with head := head, producer := producer }) :
    Inv { s with head := head, producer := producer } accepted returned := by
  refine ⟨h.front_lt, h.used_le, ?_, h.samples, hok, h.consumer⟩
  rw [hrear]
  exact h.rear_eq

theorem Inv.producerStep (h : Inv s accepted returned) :
    Inv (producerStep s).2 (accepted ++ (producerStep s).1.accepted) returned ∧
      (producerStep s).1.Exact := by
  have hok := h.producer
  cases hproducer : s.producer with
  | idle =>
      simp only [RingSteps.producerStep, hproducer]
      exact ⟨by simpa [Output.accepted] using h, trivial⟩
  | loadingHead call =>
      simp only [ProducerOk, hproducer] at hok
      simp only [RingSteps.producerStep, hproducer, Output.accepted, List.append_nil]
      exact ⟨h.writing (by simp [State.rear, hproducer]) ⟨rfl, hok⟩, trivial⟩
  | loadingUsed call head =>
      simp only [ProducerOk, hproducer] at hok
      obtain ⟨hhead, hroom⟩ := hok
      have hspace := ringSpace_eq s
      simp only [RingSteps.producerStep, hproducer]
      split
      · rename_i hzero
        refine ⟨?_, Nat.zero_le _, by omega⟩
        simp only [Output.accepted, List.take_zero, List.append_nil]
        exact h.writing (by simp [State.rear, hproducer]) trivial
      · simp only [Output.accepted, List.append_nil]
        refine ⟨h.writing (by simp [State.rear, hproducer]) ?_, trivial⟩
        have hused := h.used_le
        exact ⟨hhead, by simp only; omega, ⟨by omega, by omega⟩, Nat.zero_le _, rfl⟩
  | copying call head count copied =>
      simp only [RingSteps.producerStep, hproducer]
      split
      · rename_i sample hsample
        simp only [Output.accepted, List.append_nil]
        exact ⟨h.copySample hproducer hsample, trivial⟩
      · rename_i hnone
        simp only [ProducerOk, hproducer] at hok
        obtain ⟨rfl, hroom, hexact, hcopied, hdone⟩ := hok
        have hall : copied = count := by
          have hmost := hexact.1
          rw [List.getElem?_eq_none_iff, List.length_take] at hnone
          omega
        subst hall
        simp only [Output.accepted, List.append_nil]
        exact ⟨h.writing (by simp [State.rear, hproducer]) ⟨rfl, hroom, hexact, hdone⟩, trivial⟩
  | adding call head count =>
      simp only [ProducerOk, hproducer] at hok
      obtain ⟨hhead, hroom, hexact, hdone⟩ := hok
      have hrear : head = (s.front + s.used) % s.bufferSize := by
        simpa [State.rear, hproducer] using h.rear_eq
      simp only [RingSteps.producerStep, hproducer]
      refine ⟨⟨h.front_lt, hroom, ?_, ?_, trivial, ?_⟩, hexact⟩
      · change s.head = (s.front + (s.used + count)) % s.bufferSize
        rw [hhead, hrear, Nat.mod_add_mod, Nat.add_assoc]
      · change accepted ++ call.src.take count =
          returned ++ RingBuffer.contents s.buffer s.bufferSize s.front (s.used + count)
        rw [RingBuffer.contents_add, ← hrear, hdone, h.samples, List.append_assoc]
      · exact h.consumer.of_used_ge rfl rfl rfl (Nat.le_add_right _ _) rfl

/-- A step of the reader that leaves the front and `used` alone. -/
theorem Inv.reading (h : Inv s accepted returned) {consumer : Consumer α} {tail : Nat}
    (hfront : ({ s with tail := tail, consumer := consumer } : State α).front = s.front)
    (hok : ConsumerOk { s with tail := tail, consumer := consumer }) :
    Inv { s with tail := tail, consumer := consumer } accepted returned := by
  refine ⟨?_, h.used_le, ?_, ?_, ?_, hok⟩
  · rw [hfront]
    exact h.front_lt
  · rw [hfront]
    exact h.rear_eq
  · rw [hfront]
    exact h.samples
  · exact h.producer.of_used_le rfl rfl rfl rfl (Nat.le_refl _)

theorem Inv.consumerStep (h : Inv s accepted returned) :
    Inv (consumerStep s).2 accepted (returned ++ (consumerStep s).1.returned) ∧
      (consumerStep s).1.Exact := by
  have hok := h.consumer
  cases hconsumer : s.consumer with
  | idle =>
      simp only [RingSteps.consumerStep, hconsumer]
      exact ⟨by simpa [Output.returned] using h, trivial⟩
  | loadingTail call =>
      simp only [ConsumerOk, hconsumer] at hok
      simp only [RingSteps.consumerStep, hconsumer, Output.returned, List.append_nil]
      exact ⟨h.reading (by simp [State.front, hconsumer]) ⟨rfl, hok⟩, trivial⟩
  | loadingUsed call tail =>
      simp only [ConsumerOk, hconsumer] at hok
      obtain ⟨htail, havailable⟩ := hok
      simp only [RingSteps.consumerStep, hconsumer]
      split
      · rename_i hzero
        simp only [Output.returned, List.append_nil]
        refine ⟨h.reading (by simp [State.front, hconsumer]) trivial, rfl, Nat.zero_le _, by omega⟩
      · simp only [Output.returned, List.append_nil]
        refine ⟨h.reading (by simp [State.front, hconsumer]) ?_, trivial⟩
        exact ⟨htail, Nat.min_le_right _ _, Nat.min_le_left _ _, by omega, Nat.zero_le _, rfl⟩
  | copying call tail count dst =>
      simp only [ConsumerOk, hconsumer] at hok
      obtain ⟨rfl, hcount, hmost, hleast, hdst, hcopied⟩ := hok
      have hfront : s.front = s.tail := by simp [State.front, hconsumer]
      have hlt := h.front_lt
      have hused := h.used_le
      rw [hfront] at hlt
      simp only [RingSteps.consumerStep, hconsumer]
      split
      · rename_i hmore
        simp only [Output.returned, List.append_nil]
        refine ⟨h.reading (by simp [State.front, hconsumer]) ?_, trivial⟩
        refine ⟨rfl, hcount, hmost, hleast, ?_, ?_⟩
        · rw [List.length_append, List.length_singleton]
          omega
        · rw [List.length_append, List.length_singleton, RingBuffer.contents_succ, ← hcopied,
            cell_eq hlt hmore (by omega)]
      · rename_i hdone
        have hall : dst.length = count := by omega
        simp only [Output.returned, List.append_nil]
        refine ⟨h.reading (by simp [State.front, hconsumer]) ?_, trivial⟩
        rw [hall] at hcopied
        exact ⟨rfl, hcount, ⟨hall, hmost, hleast⟩, hcopied⟩
  | subtracting call tail count dst =>
      simp only [ConsumerOk, hconsumer] at hok
      obtain ⟨hmoved, hcount, hexact, hcopied⟩ := hok
      have hfront : s.front = tail := by simp [State.front, hconsumer]
      have hsplit : s.used = count + (s.used - count) := by omega
      simp only [RingSteps.consumerStep, hconsumer]
      refine ⟨⟨?_, ?_, ?_, ?_, ?_, trivial⟩, hexact⟩
      · change s.tail < s.bufferSize
        rw [hmoved]
        exact Nat.mod_lt _ (Nat.zero_lt_of_lt h.front_lt)
      · exact Nat.le_trans (Nat.sub_le _ _) h.used_le
      · change s.rear = (s.tail + (s.used - count)) % s.bufferSize
        rw [h.rear_eq, hfront, hmoved, Nat.mod_add_mod, Nat.add_assoc, ← hsplit]
      · change accepted = returned ++ dst ++
          RingBuffer.contents s.buffer s.bufferSize s.tail (s.used - count)
        rw [hcopied, hmoved, List.append_assoc, ← RingBuffer.contents_add, ← hsplit, h.samples,
          hfront]
      · exact h.producer.of_used_le rfl rfl rfl rfl (Nat.sub_le _ _)

theorem producerStep_returned : (RingSteps.producerStep s).1.returned = [] := by
  unfold RingSteps.producerStep
  split
  · rfl
  · rfl
  · simp only
    split <;> rfl
  · split <;> rfl
  · rfl

theorem consumerStep_accepted : (RingSteps.consumerStep s).1.accepted = [] := by
  unfold RingSteps.consumerStep
  split
  · rfl
  · rfl
  · simp only
    split <;> rfl
  · split <;> rfl
  · rfl

/-- One step of either thread, or the beginning of a call. -/
theorem Inv.step (h : Inv s accepted returned) (i : Input α) :
    Inv (step s i).2 (accepted ++ (step s i).1.accepted) (returned ++ (step s i).1.returned) ∧
      (step s i).1.Exact := by
  cases i with
  | write src =>
      simp only [RingSteps.step]
      split
      · rename_i hidle
        simp only [Output.accepted, Output.returned, List.append_nil]
        refine ⟨⟨h.front_lt, h.used_le, ?_, h.samples, ?_, h.consumer⟩, trivial⟩
        · simpa [State.rear, State.front, hidle] using h.rear_eq
        · exact Nat.le_of_eq (ringSpace_eq s)
      · exact ⟨by simpa [Output.accepted, Output.returned] using h, trivial⟩
  | read count =>
      simp only [RingSteps.step]
      split
      · rename_i hidle
        simp only [Output.accepted, Output.returned, List.append_nil]
        exact ⟨h.reading (by simp [State.front, hidle]) (Nat.le_refl _), trivial⟩
      · exact ⟨by simpa [Output.accepted, Output.returned] using h, trivial⟩
  | producer =>
      have hstep := h.producerStep
      rw [RingSteps.step, producerStep_returned, List.append_nil]
      exact hstep
  | consumer =>
      have hstep := h.consumerStep
      rw [RingSteps.step, consumerStep_accepted, List.append_nil]
      exact hstep

/-- A sample is only stored in a cell that holds nothing unread. -/
theorem Inv.stored_free (h : Inv s accepted returned) {i : Input α} {c : Nat}
    (hstored : (RingSteps.step s i).1 = .stored c) : c ∉ s.unread := by
  cases i with
  | write src =>
      simp only [RingSteps.step] at hstored
      split at hstored <;> cases hstored
  | read count =>
      simp only [RingSteps.step] at hstored
      split at hstored <;> cases hstored
  | consumer =>
      simp only [RingSteps.step, RingSteps.consumerStep] at hstored
      split at hstored
      · cases hstored
      · cases hstored
      · split at hstored <;> cases hstored
      · split at hstored <;> cases hstored
      · cases hstored
  | producer =>
      cases hproducer : s.producer with
      | copying call head count copied =>
          simp only [RingSteps.step, RingSteps.producerStep, hproducer] at hstored
          split at hstored
          · rename_i sample hsample
            obtain ⟨hlength, -⟩ := List.getElem?_eq_some_iff.mp hsample
            rw [List.length_take] at hlength
            have hcopied : copied < count := by omega
            have hok := h.producer
            simp only [ProducerOk, hproducer] at hok
            obtain ⟨-, hroom, -⟩ := hok
            have hcell := h.cell_behind hproducer hcopied
            cases hstored
            rw [hcell]
            intro hmem
            obtain ⟨i, hi, heq⟩ := List.mem_map.mp hmem
            have hlt := List.mem_range.mp hi
            exact RingBuffer.wrapped_ne (by omega) (by omega) heq
          · cases hstored
      | loadingUsed call head =>
          simp only [RingSteps.step, RingSteps.producerStep, hproducer] at hstored
          split at hstored <;> cases hstored
      | _ => simp [RingSteps.step, RingSteps.producerStep, hproducer] at hstored

theorem step_bufferSize (s : State α) (i : Input α) :
    (RingSteps.step s i).2.bufferSize = s.bufferSize := by
  cases i with
  | write src =>
      simp only [RingSteps.step]
      split <;> rfl
  | read count =>
      simp only [RingSteps.step]
      split <;> rfl
  | producer =>
      simp only [RingSteps.step, RingSteps.producerStep]
      split
      · rfl
      · rfl
      · split <;> rfl
      · split <;> rfl
      · rfl
  | consumer =>
      simp only [RingSteps.step, RingSteps.consumerStep]
      split
      · rfl
      · rfl
      · split <;> rfl
      · split <;> rfl
      · rfl

end Steps

/-- What the ring is for: what is accepted is returned in order and without loss, nothing
unread is overwritten, and each call returns what it transferred. -/
structure Faithful (s : State α) (log : List (Output α)) : Prop where
  in_order : log.flatMap Output.returned <+: log.flatMap Output.accepted
  kept : log.flatMap Output.accepted = log.flatMap Output.returned ++ s.unread.map s.buffer
  untouched : ∀ i c, (step s i).1 = .stored c → c ∉ s.unread
  used_le : s.used ≤ s.bufferSize
  exact : ∀ o ∈ log, o.Exact

theorem Inv.faithful {s : State α} {log : List (Output α)}
    (h : Inv s (log.flatMap Output.accepted) (log.flatMap Output.returned))
    (hexact : ∀ o ∈ log, o.Exact) : Faithful s log := by
  have hunread : s.unread.map s.buffer =
      RingBuffer.contents s.buffer s.bufferSize s.front s.used := by
    simp [State.unread, RingBuffer.contents]
  refine ⟨⟨_, h.samples.symm⟩, ?_, fun i c => h.stored_free, h.used_le, hexact⟩
  rw [hunread]
  exact h.samples

/-- Where no call is under way, the cells are a ring as the calls that are not interleaved
know it, with the samples accepted and not yet returned. -/
theorem Inv.ring {s : State α} {accepted returned : List α} (h : Inv s accepted returned)
    (hproducer : s.producer = .idle) (hconsumer : s.consumer = .idle) :
    ∃ ring : Ring α, ring.buffer = s.buffer ∧ ring.bufferSize = s.bufferSize ∧
      ring.used = s.used ∧ ring.head = s.head ∧ ring.tail = s.tail ∧
      accepted = returned ++ ring.contents := by
  have hfront : s.front = s.tail := by simp [State.front, hconsumer]
  have hrear : s.rear = s.head := by simp [State.rear, hproducer]
  let ring : Ring α :=
    { buffer := s.buffer
      bufferSize := s.bufferSize
      used := s.used
      head := s.head
      tail := s.tail
      used_le := h.used_le
      tail_lt := hfront ▸ h.front_lt
      head_eq := by rw [← hrear, ← hfront, h.rear_eq] }
  have hsamples := h.samples
  rw [hfront] at hsamples
  exact ⟨ring, rfl, rfl, rfl, rfl, rfl, hsamples⟩

theorem inv_opened {bufferSize : Nat} (hsize : 0 < bufferSize) (buffer : Nat → α) :
    Inv (opened bufferSize buffer) [] [] :=
  ⟨hsize, Nat.zero_le _, by simp [opened, State.rear, State.front], rfl, trivial, trivial⟩

/-- The run lemma. -/
theorem inv_run {bufferSize : Nat} (hsize : 0 < bufferSize) (buffer : Nat → α)
    (inputs : List (Input α)) :
    let s := Machine.final step (opened bufferSize buffer) inputs
    let log := Machine.outputs step (opened bufferSize buffer) inputs
    Inv s (log.flatMap Output.accepted) (log.flatMap Output.returned) ∧
      (∀ o ∈ log, o.Exact) ∧ s.bufferSize = bufferSize := by
  refine Machine.outputs_invariant (p := fun _ _ => True)
    (fun s log => Inv s (log.flatMap Output.accepted) (log.flatMap Output.returned) ∧
      (∀ o ∈ log, o.Exact) ∧ s.bufferSize = bufferSize) ?_ (opened bufferSize buffer) [] inputs ?_
    (Machine.along_of_forall (fun _ _ => trivial) _ _)
  · rintro s log i ⟨h, hexact, hkept⟩ -
    obtain ⟨hstep, hlast⟩ := h.step i
    refine ⟨by simpa using hstep, ?_, (step_bufferSize s i).trans hkept⟩
    intro o ho
    rcases List.mem_append.mp ho with ho | ho
    · exact hexact o ho
    · exact List.mem_singleton.mp ho ▸ hlast
  · exact ⟨inv_opened hsize buffer, List.forall_mem_nil _, rfl⟩

/-- For every size of the ring and every interleaving of the steps of the two threads. -/
theorem faithful_run {bufferSize : Nat} (hsize : 0 < bufferSize) (buffer : Nat → α)
    (inputs : List (Input α)) :
    Faithful (Machine.final step (opened bufferSize buffer) inputs)
        (Machine.outputs step (opened bufferSize buffer) inputs) ∧
      (Machine.final step (opened bufferSize buffer) inputs).bufferSize = bufferSize := by
  obtain ⟨h, hexact, hkept⟩ := inv_run hsize buffer inputs
  exact ⟨h.faithful hexact, hkept⟩

/-- Two cells, and a second call of `ring_write` that goes around their end while the reader
is in a call. -/
def wrapped : List (Input Nat) :=
  [.write [1, 2], .producer, .producer, .producer, .producer, .producer, .producer,
    .read 1, .consumer, .consumer, .consumer, .consumer, .consumer,
    .write [3, 4], .producer, .read 2, .consumer, .producer, .consumer, .producer, .consumer,
    .producer, .consumer, .producer, .consumer,
    .read 1, .consumer, .consumer, .consumer, .consumer, .consumer]

theorem faithful_run_wrapped :
    (Machine.outputs step (opened 2 fun _ => 0) wrapped).flatMap Output.returned = [1, 2, 3] ∧
      Faithful (Machine.final step (opened 2 fun _ => 0) wrapped)
        (Machine.outputs step (opened 2 fun _ => 0) wrapped) ∧
      (Machine.final step (opened 2 fun _ => 0) wrapped).bufferSize = 2 :=
  ⟨by decide, faithful_run (by decide) _ wrapped⟩

end LuaMumble.Audio.RingSteps
