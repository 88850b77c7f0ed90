import Mathlib.Logic.Basic

/-!
Loops over 0, 1, ..., n - 1 whose body may fail, which ends the loop. A rule says of
the body which iterations succeed and what they keep; from it follows whether the
whole loop succeeds, and what it keeps.
-/

namespace LuaMumble.Lib.CheckedLoop

variable {S E : Type*}

/-- Where a sequence of two computations succeeds, both do. -/
theorem bind_eq_ok {T : Type*} {x : Except E S} {f : S → Except E T} {result : T}
    (h : x.bind f = .ok result) : ∃ s, x = .ok s ∧ f s = .ok result := by
  cases x with
  | error e => cases h
  | ok s => exact ⟨s, rfl, h⟩

/-- The loop with `n` iterations. -/
def loop (body : Nat → S → Except E S) : Nat → S → Except E S
  | 0, s => .ok s
  | n + 1, s => (loop body n s).bind (body n)

/-- Where the invariant holds, an iteration succeeds and keeps it exactly if it is good. -/
structure Rule (body : Nat → S → Except E S) (n : Nat) (good : Nat → Prop)
    (Inv : Nat → S → Prop) : Prop where
  succeeds : ∀ i s, i < n → Inv i s → good i → ∃ s', body i s = .ok s' ∧ Inv (i + 1) s'
  fails : ∀ i s, i < n → Inv i s → ¬good i → ∃ e, body i s = .error e

namespace Rule

variable {body : Nat → S → Except E S} {n : Nat} {good : Nat → Prop} {Inv : Nat → S → Prop}

theorem of_succ (h : Rule body (n + 1) good Inv) : Rule body n good Inv :=
  ⟨fun i s hi => h.succeeds i s (Nat.lt_succ_of_lt hi),
    fun i s hi => h.fails i s (Nat.lt_succ_of_lt hi)⟩

theorem loop_succeeds (h : Rule body n good Inv) {s : S} (hinit : Inv 0 s)
    (hgood : ∀ i < n, good i) : ∃ s', loop body n s = .ok s' ∧ Inv n s' := by
  induction n with
  | zero => exact ⟨s, rfl, hinit⟩
  | succ n ih =>
      obtain ⟨s', hloop, hinv⟩ := ih h.of_succ fun i hi => hgood i (Nat.lt_succ_of_lt hi)
      obtain ⟨s'', hbody, hinv'⟩ := h.succeeds n s' (Nat.lt_succ_self n) hinv
        (hgood n (Nat.lt_succ_self n))
      refine ⟨s'', ?_, hinv'⟩
      rw [loop, hloop]
      exact hbody

theorem loop_fails (h : Rule body n good Inv) {s : S} (hinit : Inv 0 s)
    (hbad : ¬∀ i < n, good i) : ∃ e, loop body n s = .error e := by
  induction n with
  | zero => exact absurd (fun i hi => absurd hi (Nat.not_lt_zero i)) hbad
  | succ n ih =>
      rw [loop]
      rcases Classical.em (∀ i < n, good i) with hfirst | hfirst
      · obtain ⟨s', hloop, hinv⟩ := h.of_succ.loop_succeeds hinit hfirst
        have hlast : ¬good n := by
          intro hgood
          apply hbad
          intro i hi
          rcases Nat.lt_succ_iff_lt_or_eq.mp hi with hlt | rfl
          · exact hfirst i hlt
          · exact hgood
        rw [hloop]
        exact h.fails n s' (Nat.lt_succ_self n) hinv hlast
      · obtain ⟨e, hloop⟩ := ih h.of_succ hfirst
        exact ⟨e, by rw [hloop]; rfl⟩

end Rule

end LuaMumble.Lib.CheckedLoop
