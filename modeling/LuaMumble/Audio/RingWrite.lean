import LuaMumble.Audio.RingInterleaving

/-!
Calls of `ring_write` with room for all of their samples. Only the mixer reads, and that
makes room; so there is still room when the call takes its steps, whatever the mixer does
between them.
-/

namespace LuaMumble.Audio.RingSteps

open Lib

variable {α : Type}

/-- A step of the mixer in `ring_read`. -/
def ofConsumer : Input α → Bool
  | .read _ => true
  | .consumer => true
  | _ => false

/-- The mixer only frees space, and leaves the call of the buffer thread as it is. -/
theorem consumer_frees {s : State α} {i : Input α} (hi : ofConsumer i = true) :
    (step s i).2.producer = s.producer ∧
      ringSpace s ≤ ringSpace (step s i).2 := by
  cases i with
  | write src => cases hi
  | producer => cases hi
  | read count =>
      simp only [step]
      split <;> exact ⟨rfl, Nat.le_refl _⟩
  | consumer =>
      simp only [step, consumerStep]
      split
      · exact ⟨rfl, Nat.le_refl _⟩
      · exact ⟨rfl, Nat.le_refl _⟩
      · split <;> exact ⟨rfl, Nat.le_refl _⟩
      · split <;> exact ⟨rfl, Nat.le_refl _⟩
      · refine ⟨rfl, ?_⟩
        rw [ringSpace_eq, ringSpace_eq]
        dsimp only
        omega

theorem consumers_free {s : State α} (during : List (Input α))
    (hduring : ∀ i ∈ during, ofConsumer i = true) :
    (Machine.final step s during).producer = s.producer ∧
      ringSpace s ≤ ringSpace (Machine.final step s during) := by
  induction during generalizing s with
  | nil => exact ⟨rfl, Nat.le_refl _⟩
  | cons i rest ih =>
      obtain ⟨hproducer, hspace⟩ := consumer_frees (s := s) (hduring i List.mem_cons_self)
      obtain ⟨hproducer', hspace'⟩ := ih (s := (step s i).2)
        fun j hj => hduring j (List.mem_cons_of_mem _ hj)
      exact ⟨hproducer'.trans hproducer, Nat.le_trans hspace hspace'⟩

/-- A call of `ring_write` that began with room for all of its samples accepts them,
however the mixer is interleaved with it. -/
theorem wrote_all {bufferSize : Nat} (hsize : 0 < bufferSize) (cells : Nat → α)
    (inputs : List (Input α)) {call : WriteCall α} {count : Nat}
    (hroom : call.src.length ≤ call.room)
    (hwrote : Output.wrote call count ∈ Machine.outputs step (opened bufferSize cells) inputs) :
    count = call.src.length := by
  obtain ⟨-, hexact, -⟩ := inv_run hsize cells inputs
  obtain ⟨hle, hmin⟩ := hexact _ hwrote
  rw [Nat.min_eq_left hroom] at hmin
  omega

/-- A step of the buffer thread in `ring_write`. -/
def ofProducer : Input α → Bool
  | .producer => true
  | _ => false

/-- The call of `ring_write` that is under way, and the most steps that it still takes. -/
def callUnderWay : Producer α → Option (WriteCall α × Nat)
  | .idle => none
  | .loadingHead call => some (call, call.src.length + 4)
  | .loadingUsed call _ => some (call, call.src.length + 3)
  | .copying call _ _ copied => some (call, call.src.length - copied + 2)
  | .adding call _ _ => some (call, 1)

theorem producerStep_advances {s : State α} {call : WriteCall α} {n : Nat}
    (h : callUnderWay s.producer = some (call, n)) :
    (∃ count, (producerStep s).1 = .wrote call count) ∨
      ∃ m, m < n ∧ callUnderWay (producerStep s).2.producer = some (call, m) := by
  cases hproducer : s.producer with
  | idle =>
      rw [hproducer] at h
      cases h
  | loadingHead other =>
      rw [hproducer] at h
      cases h
      simp only [producerStep, hproducer]
      exact Or.inr ⟨_, Nat.lt_succ_self _, rfl⟩
  | loadingUsed other head =>
      rw [hproducer] at h
      cases h
      simp only [producerStep, hproducer]
      split
      · exact Or.inl ⟨0, rfl⟩
      · exact Or.inr ⟨_, Nat.lt_succ_self _, rfl⟩
  | copying other head count copied =>
      rw [hproducer] at h
      cases h
      simp only [producerStep, hproducer]
      split
      · rename_i sample hsample
        have hcopied : copied < call.src.length := by
          have hlt := (List.getElem?_eq_some_iff.mp hsample).1
          rw [List.length_take] at hlt
          exact Nat.lt_of_lt_of_le hlt (Nat.min_le_right _ _)
        exact Or.inr ⟨call.src.length - (copied + 1) + 2, by omega, rfl⟩
      · exact Or.inr ⟨1, by omega, rfl⟩
  | adding other head count =>
      rw [hproducer] at h
      cases h
      simp only [producerStep, hproducer]
      exact Or.inl ⟨count, rfl⟩

theorem others_keep {s : State α} {i : Input α} {call : WriteCall α} {n : Nat}
    (h : callUnderWay s.producer = some (call, n)) (hi : ofProducer i = false) :
    callUnderWay (step s i).2.producer = some (call, n) := by
  cases i with
  | producer => cases hi
  | write src =>
      simp only [step]
      split
      · rename_i hidle
        rw [hidle] at h
        cases h
      · exact h
  | read count =>
      rw [(consumer_frees rfl).1]
      exact h
  | consumer =>
      rw [(consumer_frees rfl).1]
      exact h

/-- A call of `ring_write` returns, if the buffer thread goes on. -/
theorem write_returns {call : WriteCall α} {inputs : List (Input α)} :
    ∀ {s : State α} {n : Nat}, callUnderWay s.producer = some (call, n) →
      n ≤ inputs.countP ofProducer →
        ∃ count, .wrote call count ∈ Machine.outputs step s inputs := by
  induction inputs with
  | nil =>
      intro s n hcall hsteps
      cases hproducer : s.producer <;> rw [hproducer] at hcall <;> cases hcall <;> simp at hsteps
  | cons i rest ih =>
      intro s n hcall hsteps
      rw [Machine.outputs]
      cases hi : ofProducer i with
      | false =>
          rw [List.countP_cons_of_neg (by simp [hi])] at hsteps
          obtain ⟨count, hcount⟩ := ih (others_keep hcall hi) hsteps
          exact ⟨count, List.mem_cons_of_mem _ hcount⟩
      | true =>
          rw [List.countP_cons_of_pos hi] at hsteps
          have hstep : step s i = producerStep s := by
            cases i <;> first | rfl | cases hi
          rw [hstep]
          rcases producerStep_advances hcall with ⟨count, hwrote⟩ | ⟨m, hm, hcall'⟩
          · exact ⟨count, by rw [hwrote]; exact List.mem_cons_self⟩
          · obtain ⟨count, hcount⟩ := ih hcall' (by omega)
            exact ⟨count, List.mem_cons_of_mem _ hcount⟩

end LuaMumble.Audio.RingSteps
