import LuaMumble.Lib.Machine

/-!
Programs of one thread that lock and unlock mutexes. The mutexes are not recursive: a thread
that locks one that it holds waits for itself, and the program has no result. The rules say of a
program that it goes through, holding in the end what it held in the beginning, or that it
blocks.
-/

namespace LuaMumble.Lib.Locking

/-- A state, with the mutexes that the thread holds. -/
structure Held (M S : Type) where
  held : List M
  state : S

abbrev Program (M S : Type) := StateT (Held M S) Option

variable {M S X : Type} [DecidableEq M]

def lock (m : M) : Program M S Unit := fun h =>
  if m ∈ h.held then none else some ((), { h with held := m :: h.held })

def unlock (m : M) : Program M S Unit := fun h =>
  some ((), { h with held := h.held.erase m })

omit [DecidableEq M] in
def read : Program M S S := fun h => some (h.state, h)

omit [DecidableEq M] in
def write (f : S → S) : Program M S Unit := fun h => some ((), { h with state := f h.state })

/-- What happens between a lock and the unlock. -/
def critical (m : M) (p : Program M S Unit) : Program M S Unit := do
  lock m
  p
  unlock m

/-- What happens between an unlock and the next lock. -/
def outside (m : M) (p : Program M S Unit) : Program M S Unit := do
  unlock m
  p
  lock m

omit [DecidableEq M] in
def when (c : Prop) [Decidable c] (p : Program M S Unit) : Program M S Unit :=
  if c then p else pure ()

/-- The program goes through to a state that satisfies `Q`. -/
def Goes (p : Program M S Unit) (held : List M) (s : S) (Q : S → Prop) : Prop :=
  ∃ s', p ⟨held, s⟩ = some ((), ⟨held, s'⟩) ∧ Q s'

/-- The program locks a mutex that the thread holds. -/
def Blocks (p : Program M S Unit) (held : List M) (s : S) : Prop :=
  p ⟨held, s⟩ = none

section Rules

variable {p q : Program M S Unit} {held : List M} {s : S} {Q R : S → Prop} {m : M}

omit [DecidableEq M] in
theorem Goes.imp (h : Goes p held s Q) (himp : ∀ s', Q s' → R s') : Goes p held s R := by
  obtain ⟨s', hrun, hs'⟩ := h
  exact ⟨s', hrun, himp s' hs'⟩

omit [DecidableEq M] in
theorem Goes.pure (h : Q s) : Goes (Pure.pure ()) held s Q := ⟨s, rfl, h⟩

omit [DecidableEq M] in
theorem Goes.write {f : S → S} (h : Q (f s)) : Goes (Locking.write f) held s Q := ⟨f s, rfl, h⟩

omit [DecidableEq M] in
theorem Goes.read {p : S → Program M S Unit} (h : Goes (p s) held s Q) :
    Goes (Locking.read >>= p) held s Q := h

omit [DecidableEq M] in
theorem Goes.when {c : Prop} [Decidable c] (hpos : c → Goes p held s Q) (hneg : ¬ c → Q s) :
    Goes (when c p) held s Q := by
  unfold Locking.when
  split
  · rename_i hc
    exact hpos hc
  · rename_i hc
    exact Goes.pure (hneg hc)

omit [DecidableEq M] in
theorem bind_eq {h h' : Held M S} (hrun : p h = some ((), h')) :
    (p >>= fun _ => q) h = q h' := by
  change (p h).bind _ = _
  rw [hrun]
  rfl

omit [DecidableEq M] in
theorem Goes.seq (h : Goes p held s fun s' => Goes q held s' Q) :
    Goes (p >>= fun _ => q) held s Q := by
  obtain ⟨s', hrun, last, hlast, hQ⟩ := h
  exact ⟨last, (bind_eq hrun).trans hlast, hQ⟩

theorem lock_of_free (hfree : m ∉ held) : lock m ⟨held, s⟩ = some ((), ⟨m :: held, s⟩) :=
  if_neg hfree

theorem unlock_cons : unlock m ⟨m :: held, s⟩ = some ((), ⟨held, s⟩) := by
  simp [unlock]

theorem Goes.critical (hfree : m ∉ held) (h : Goes p (m :: held) s Q) :
    Goes (critical m p) held s Q := by
  obtain ⟨s', hrun, hs'⟩ := h
  refine ⟨s', ?_, hs'⟩
  rw [Locking.critical, bind_eq (lock_of_free hfree), bind_eq hrun]
  exact unlock_cons

theorem Goes.outside (hfree : m ∉ held) (h : Goes p held s Q) :
    Goes (outside m p) (m :: held) s Q := by
  obtain ⟨s', hrun, hs'⟩ := h
  refine ⟨s', ?_, hs'⟩
  rw [Locking.outside, bind_eq unlock_cons, bind_eq hrun]
  exact lock_of_free hfree

omit [DecidableEq M] in
theorem Blocks.read {p : S → Program M S Unit} (h : Blocks (p s) held s) :
    Blocks (Locking.read >>= p) held s := h

omit [DecidableEq M] in
theorem Blocks.when {c : Prop} [Decidable c] (hc : c) (h : Blocks p held s) :
    Blocks (when c p) held s := by
  rw [Locking.when, if_pos hc]
  exact h

omit [DecidableEq M] in
theorem Blocks.first (h : Blocks p held s) : Blocks (p >>= fun _ => q) held s := by
  change (p ⟨held, s⟩).bind _ = _
  rw [h]
  rfl

omit [DecidableEq M] in
theorem Blocks.second (hp : Goes p held s fun s' => Blocks q held s') :
    Blocks (p >>= fun _ => q) held s := by
  obtain ⟨s', hrun, hq⟩ := hp
  exact (bind_eq hrun).trans hq

/-- The thread waits for itself. -/
theorem Blocks.critical_held (hheld : m ∈ held) : Blocks (critical m p) held s :=
  Blocks.first (if_pos hheld)

theorem Blocks.critical (hfree : m ∉ held) (h : Blocks p (m :: held) s) :
    Blocks (critical m p) held s := by
  have hinside : Blocks (p >>= fun _ => unlock m) (m :: held) s := h.first
  rw [Blocks, Locking.critical, bind_eq (lock_of_free hfree)]
  exact hinside

theorem Blocks.outside (h : Blocks p held s) : Blocks (outside m p) (m :: held) s := by
  have hinside : Blocks (p >>= fun _ => lock m) held s := h.first
  rw [Blocks, Locking.outside, bind_eq unlock_cons]
  exact hinside

end Rules

section Loops

variable {T O : Type} {f : X → Program M S Unit} {held : List M} {s : S}

omit [DecidableEq M] in
/-- A loop whose turns go through and keep an invariant. -/
theorem Goes.forM_of_inv (Inv : S → Prop) (hgoes : ∀ s x, Inv s → Goes (f x) held s Inv)
    (xs : List X) (h : Inv s) : Goes (xs.forM f) held s Inv := by
  induction xs generalizing s with
  | nil => exact Goes.pure h
  | cons x rest ih => exact Goes.seq ((hgoes s x h).imp fun s' hs' => ih hs')

variable {t : T} (step : T → X → O × T) (ok : T → X → Prop) (R : S → T → Prop)

omit [DecidableEq M] in
/-- A loop whose turns go through and follow the steps of a machine, as long as these meet a
condition. -/
theorem Goes.forM
    (hgoes : ∀ s t x, R s t → ok t x → Goes (f x) held s fun s' => R s' (step t x).2)
    (xs : List X) (h : R s t) (hok : Machine.Along step ok t xs) :
    Goes (xs.forM f) held s fun s' => R s' (Machine.final step t xs) := by
  induction xs generalizing s t with
  | nil => exact Goes.pure h
  | cons x rest ih =>
      exact Goes.seq ((hgoes s t x h hok.1).imp fun s' hs' => ih hs' hok.2)

omit [DecidableEq M] in
/-- The loop blocks in the first turn that does not meet it. -/
theorem Blocks.forM
    (hgoes : ∀ s t x, R s t → ok t x → Goes (f x) held s fun s' => R s' (step t x).2)
    (hblocks : ∀ s t x, R s t → ¬ ok t x → Blocks (f x) held s)
    (xs : List X) (h : R s t) (hnot : ¬ Machine.Along step ok t xs) :
    Blocks (xs.forM f) held s := by
  induction xs generalizing s t with
  | nil => exact absurd trivial hnot
  | cons x rest ih =>
      by_cases hx : ok t x
      · refine Blocks.second ((hgoes s t x h hx).imp fun s' hs' => ih hs' ?_)
        exact fun hrest => hnot ⟨hx, hrest⟩
      · exact Blocks.first (hblocks s t x h hx)

end Loops

end LuaMumble.Lib.Locking
