import Mathlib.Algebra.Order.BigOperators.Group.List
import Mathlib.Algebra.Order.Group.Nat
import Mathlib.Tactic.Ring

/-!
A deadline that is moved on in whole intervals. Whoever waits for it takes a turn when it is over,
and moves it past the present; the interval may be another one at each turn. The turns are listed
from the last one back.
-/

namespace LuaMumble.Lib.Ticker

structure Turn where
  now : Nat
  interval : Nat

/-- The interval is added until the deadline is not over any more. There is no result without
enough fuel. -/
def catchUp (interval now : Nat) : Nat → Nat → Option Nat
  | 0, _ => none
  | fuel + 1, next =>
      if next ≤ now then catchUp interval now fuel (next + interval) else some next

/-- One turn moves the deadline from `before` to `next`. -/
structure Turn.Moves (turn : Turn) (before next : Nat) : Prop where
  due : before ≤ turn.now
  ahead : turn.now < next
  whole : ∃ steps, next = before + (steps + 1) * turn.interval
  least : next ≤ turn.now + turn.interval

/-- The turns moved the deadline from `start` to `next`. -/
def Moved (start : Nat) : List Turn → Nat → Prop
  | [], next => next = start
  | turn :: earlier, next => ∃ before, Moved start earlier before ∧ turn.Moves before next

/-- The time that the turns stand for. -/
def total (turns : List Turn) : Nat := (turns.map Turn.interval).sum

/-- Every turn was taken before the next one was due. -/
def InTime (start : Nat) : List Turn → Prop
  | [] => True
  | turn :: earlier =>
      InTime start earlier ∧ turn.now < start + total earlier + turn.interval

variable {start next : Nat} {turn : Turn} {turns : List Turn}

@[simp] theorem total_nil : total [] = 0 := rfl

@[simp] theorem total_cons : total (turn :: turns) = turn.interval + total turns := by
  simp [total]

@[simp] theorem total_append (front : List Turn) :
    total (front ++ turns) = total front + total turns := by
  simp [total]

/-- With an interval that is not zero the loop ends, and it makes a turn. -/
theorem catchUp_moves {interval now fuel : Nat} (hinterval : 0 < interval) (hdue : next ≤ now)
    (hfuel : now - next + 2 ≤ fuel) :
    ∃ next', catchUp interval now fuel next = some next' ∧
      Turn.Moves ⟨now, interval⟩ next next' := by
  induction fuel generalizing next with
  | zero => omega
  | succ fuel ih =>
      rw [catchUp, if_pos hdue]
      by_cases hagain : next + interval ≤ now
      · obtain ⟨next', hrun, -, hahead, ⟨steps, hwhole⟩, hleast⟩ := ih hagain (by omega)
        refine ⟨next', hrun, hdue, hahead, ⟨steps + 1, ?_⟩, hleast⟩
        rw [hwhole]
        simp only
        ring
      · obtain ⟨fuel, rfl⟩ : ∃ fuel', fuel = fuel' + 1 := ⟨fuel - 1, by omega⟩
        rw [catchUp, if_neg hagain]
        exact ⟨_, rfl, hdue, by simp only; omega, ⟨0, by simp⟩, by simp only; omega⟩

/-- The deadline has been moved on by at least the time that the turns stand for. -/
theorem Moved.total_le (h : Moved start turns next) : start + total turns ≤ next := by
  induction turns generalizing next with
  | nil => exact h.symm.le
  | cons turn earlier ih =>
      obtain ⟨before, hearlier, -, -, ⟨steps, hwhole⟩, -⟩ := h
      have hbefore := ih hearlier
      have hstep : turn.interval ≤ (steps + 1) * turn.interval :=
        Nat.le_mul_of_pos_left _ (Nat.succ_pos _)
      rw [total_cons]
      omega

/-- The turns behind a turn moved the deadline on from there. -/
theorem Moved.split {later earlier : List Turn} (h : Moved start (later ++ earlier) next) :
    ∃ before, Moved start earlier before ∧ Moved before later next := by
  induction later generalizing next with
  | nil => exact ⟨next, h, rfl⟩
  | cons turn later ih =>
      obtain ⟨mid, hmid, hturn⟩ := h
      obtain ⟨before, hearlier, hlater⟩ := ih hmid
      exact ⟨before, hearlier, mid, hlater, hturn⟩

/-- Between two turns lies more than the time that the turns between them stand for. -/
theorem Moved.spaced {later between earlier : List Turn} {last first : Turn}
    (h : Moved start (later ++ last :: (between ++ first :: earlier)) next) :
    first.now + total between < last.now := by
  obtain ⟨_, ⟨before, hbetween, hlast⟩, -⟩ := h.split
  obtain ⟨mid, ⟨_, -, hfirst⟩, hmoved⟩ := hbetween.split
  have htotal := hmoved.total_le
  have hahead := hfirst.ahead
  have hdue := hlast.due
  omega

/-- Turns that are taken in time do not make the deadline drift. -/
theorem Moved.no_drift (h : Moved start turns next) (hintime : InTime start turns) :
    next = start + total turns := by
  induction turns generalizing next with
  | nil => exact h
  | cons turn earlier ih =>
      obtain ⟨before, hearlier, -, hahead, ⟨steps, hwhole⟩, hleast⟩ := h
      obtain ⟨hrest, hnow⟩ := hintime
      have hbefore := ih hearlier hrest
      have hsteps : steps = 0 := by
        by_contra hne
        have htwo : 2 * turn.interval ≤ (steps + 1) * turn.interval :=
          Nat.mul_le_mul_right _ (by omega)
        omega
      rw [hwhole, hsteps, hbefore, total_cons]
      ring

/-- Intervals that are not shorter than `c` bound the number of turns. -/
theorem length_mul_le {c : Nat} (hshort : ∀ turn ∈ turns, c ≤ turn.interval) :
    turns.length * c ≤ total turns := by
  have hsum := List.card_nsmul_le_sum (turns.map Turn.interval) c (by simpa using hshort)
  simpa [total] using hsum

/-- All turns but the last one are over. -/
theorem Moved.length_pred_mul_le (h : Moved start turns next) {c clock : Nat}
    (hshort : ∀ turn ∈ turns, c ≤ turn.interval) (hpast : ∀ turn ∈ turns, turn.now ≤ clock) :
    (turns.length - 1) * c ≤ clock - start := by
  cases turns with
  | nil => simp
  | cons last earlier =>
      obtain ⟨before, hearlier, hlast⟩ := h
      have hbefore := hearlier.total_le
      have hdue := hlast.due
      have hnow := hpast last List.mem_cons_self
      have hlength : earlier.length * c ≤ total earlier :=
        length_mul_le fun turn hturn => hshort turn (List.mem_cons_of_mem _ hturn)
      rw [List.length_cons, Nat.add_sub_cancel]
      omega

end LuaMumble.Lib.Ticker
