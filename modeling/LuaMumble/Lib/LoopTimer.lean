/-!
The timers of an event loop, as far as a program that embeds their handles relies on them. A
handle that is closed stays with the loop until a later phase, in which the loop calls back;
from the call of `close` on it is closing, and it never becomes active again. What else a
handle holds, and when a timer is due, is left to the loop.
-/

namespace LuaMumble.Lib

/-- The operations on a handle and what is promised of them. `again` returns false for a timer
that was never started. `expire` is what the loop does to an active timer that is due before it
calls the callback, and `finish` what it does to a closing handle before the close callback. -/
structure LoopTimer (H : Type) where
  init : H
  start : H → UInt64 → UInt64 → H
  stop : H → H
  again : H → Bool × H
  setRepeat : H → UInt64 → H
  getRepeat : H → UInt64
  close : H → H
  expire : H → H
  finish : H → H
  isActive : H → Bool
  isClosing : H → Bool
  hasCallback : H → Bool
  init_active : isActive init = false
  init_closing : isClosing init = false
  init_callback : hasCallback init = false
  start_active : ∀ h timeout rep, isActive (start h timeout rep) = true → isClosing h = false
  start_closing : ∀ h timeout rep, isClosing (start h timeout rep) = isClosing h
  stop_active : ∀ h, isActive (stop h) = false
  stop_closing : ∀ h, isClosing (stop h) = isClosing h
  stop_callback : ∀ h, hasCallback (stop h) = hasCallback h
  again_active : ∀ h, isActive (again h).2 = true → hasCallback h = true ∧ isClosing h = false
  again_closing : ∀ h, isClosing (again h).2 = isClosing h
  again_callback : ∀ h, hasCallback (again h).2 = hasCallback h
  setRepeat_active : ∀ h rep, isActive (setRepeat h rep) = isActive h
  setRepeat_closing : ∀ h rep, isClosing (setRepeat h rep) = isClosing h
  setRepeat_callback : ∀ h rep, hasCallback (setRepeat h rep) = hasCallback h
  close_active : ∀ h, isActive (close h) = false
  close_closing : ∀ h, isClosing (close h) = true
  close_callback : ∀ h, hasCallback (close h) = hasCallback h
  expire_active : ∀ h, isActive (expire h) = true → isActive h = true
  expire_closing : ∀ h, isClosing (expire h) = isClosing h
  expire_callback : ∀ h, hasCallback (expire h) = hasCallback h
  finish_active : ∀ h, isActive (finish h) = false
  finish_closing : ∀ h, isClosing (finish h) = isClosing h
  finish_callback : ∀ h, hasCallback (finish h) = hasCallback h

namespace LoopTimer

attribute [simp] init_active init_closing init_callback start_closing stop_active stop_closing
  stop_callback again_closing again_callback setRepeat_active setRepeat_closing
  setRepeat_callback close_active close_closing close_callback expire_closing expire_callback
  finish_active finish_closing finish_callback

/-- A handle with nothing but what the promises speak of, and the repeat value. -/
structure Handle where
  active : Bool
  closing : Bool
  callback : Bool
  rep : UInt64
  deriving DecidableEq

/-- The plainest timers that keep the promises. -/
def plain : LoopTimer Handle where
  init := ⟨false, false, false, 0⟩
  start h _ rep := if h.closing then h else ⟨true, false, true, rep⟩
  stop h := { h with active := false }
  again h :=
    if h.callback then
      (true, if h.rep = 0 ∨ h.closing = true then h else { h with active := true })
    else (false, h)
  setRepeat h rep := { h with rep := rep }
  getRepeat := Handle.rep
  close h := { h with active := false, closing := true }
  expire h := { h with active := h.active && h.rep != 0 }
  finish h := { h with active := false }
  isActive h := h.active && h.callback && !h.closing
  isClosing := Handle.closing
  hasCallback := Handle.callback
  init_active := rfl
  init_closing := rfl
  init_callback := rfl
  start_active := by
    intro h _ _ hactive
    cases hclosing : h.closing <;> simp_all
  start_closing := by
    intro h _ _
    cases hclosing : h.closing <;> simp [hclosing]
  stop_active := by simp
  stop_closing := by simp
  stop_callback := by simp
  again_active := by
    intro h hactive
    cases hcallback : h.callback <;> cases hclosing : h.closing <;> simp_all
  again_closing := by
    intro h
    split
    · dsimp only
      split <;> rfl
    · rfl
  again_callback := by
    intro h
    split
    · dsimp only
      split <;> rfl
    · rfl
  setRepeat_active := by simp
  setRepeat_closing := by simp
  setRepeat_callback := by simp
  close_active := by simp
  close_closing := by simp
  close_callback := by simp
  expire_active := by
    intro h hactive
    simp only [Bool.and_eq_true] at hactive ⊢
    exact ⟨⟨hactive.1.1.1, hactive.1.2⟩, hactive.2⟩
  expire_closing := by simp
  expire_callback := by simp
  finish_active := by simp
  finish_closing := by simp
  finish_callback := by simp

end LoopTimer

end LuaMumble.Lib
