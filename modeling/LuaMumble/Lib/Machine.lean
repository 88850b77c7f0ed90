import Mathlib.Data.List.Basic

/-!
Deterministic machines that answer every input. A step takes a state and an
input to an answer and a next state; a run feeds a list of inputs to the
machine one after another. The lemmas package the inductions that proofs about
such runs need: an invariant that also speaks of the inputs served so far, a
condition on each step that decides a property of the whole run, and two runs
that answer alike because their states stay related.
-/

namespace LuaMumble.Lib.Machine

variable {S T I O : Type*}

/-- The state after the machine has been fed every input of the list. -/
def final (step : S → I → O × S) : S → List I → S
  | s, [] => s
  | s, i :: rest => final step (step s i).2 rest

/-- The answers of the machine, one for each input, in order. -/
def outputs (step : S → I → O × S) : S → List I → List O
  | _, [] => []
  | s, i :: rest => (step s i).1 :: outputs step (step s i).2 rest

/-- The inputs whose answer satisfies `good`, in the order they were fed. -/
def served (good : O → Bool) (step : S → I → O × S) : S → List I → List I
  | _, [] => []
  | s, i :: rest =>
      if good (step s i).1 then i :: served good step (step s i).2 rest
      else served good step (step s i).2 rest

/-- `p` holds of the state and the input at every step of the run. -/
def Along (step : S → I → O × S) (p : S → I → Prop) : S → List I → Prop
  | _, [] => True
  | s, i :: rest => p s i ∧ Along step p (step s i).2 rest

variable {step : S → I → O × S} {p : S → I → Prop}

instance decidableAlong [∀ s i, Decidable (p s i)] :
    ∀ (s : S) (xs : List I), Decidable (Along step p s xs)
  | _, [] => .isTrue trivial
  | s, i :: rest =>
      have := decidableAlong (step s i).2 rest
      inferInstanceAs (Decidable (p s i ∧ Along step p (step s i).2 rest))

theorem final_append (s : S) (xs ys : List I) :
    final step s (xs ++ ys) = final step (final step s xs) ys := by
  induction xs generalizing s with
  | nil => rfl
  | cons i rest ih => exact ih _

theorem outputs_append (s : S) (xs ys : List I) :
    outputs step s (xs ++ ys) = outputs step s xs ++ outputs step (final step s xs) ys := by
  induction xs generalizing s with
  | nil => rfl
  | cons i rest ih => simp [outputs, final, ih]

theorem outputs_length (s : S) (xs : List I) : (outputs step s xs).length = xs.length := by
  induction xs generalizing s with
  | nil => rfl
  | cons i rest ih => simp [outputs, ih]

/-- The answer to an input comes from the state behind the inputs before it. -/
theorem outputs_getElem? (s : S) (xs : List I) (n : Nat) :
    (outputs step s xs)[n]? = xs[n]?.map fun i => (step (final step s (xs.take n)) i).1 := by
  induction xs generalizing s n with
  | nil => rfl
  | cons i rest ih =>
      cases n with
      | zero => rfl
      | succ n => exact ih (step s i).2 n

theorem final_take_succ (s : S) {xs : List I} {n : Nat} {i : I} (hi : xs[n]? = some i) :
    final step s (xs.take (n + 1)) = (step (final step s (xs.take n)) i).2 := by
  rw [List.take_add_one, hi, final_append]
  rfl

theorem along_append (s : S) (xs ys : List I) :
    Along step p s (xs ++ ys) ↔ Along step p s xs ∧ Along step p (final step s xs) ys := by
  induction xs generalizing s with
  | nil => simp [Along, final]
  | cons i rest ih => simp [Along, final, ih, and_assoc]

/-- A condition met along a run is met along every initial part of it. -/
theorem along_take (s : S) (xs : List I) (n : Nat) (h : Along step p s xs) :
    Along step p s (xs.take n) := by
  rw [← List.take_append_drop n xs, along_append] at h
  exact h.1

theorem along_of_forall (h : ∀ s i, p s i) (s : S) (xs : List I) : Along step p s xs := by
  induction xs generalizing s with
  | nil => trivial
  | cons i rest ih => exact ⟨h s i, ih _⟩

theorem along_of_mem (s : S) (xs : List I) (h : ∀ i ∈ xs, ∀ s, p s i) : Along step p s xs := by
  induction xs generalizing s with
  | nil => trivial
  | cons i rest ih =>
      exact ⟨h i (List.mem_cons_self ..) s, ih _ fun j hj => h j (List.mem_cons_of_mem _ hj)⟩

theorem along_and {q : S → I → Prop} {s : S} {xs : List I} (hp : Along step p s xs)
    (hq : Along step q s xs) : Along step (fun s i => p s i ∧ q s i) s xs := by
  induction xs generalizing s with
  | nil => trivial
  | cons i rest ih => exact ⟨⟨hp.1, hq.1⟩, ih hp.2 hq.2⟩

theorem along_and_of_mem {q : I → Prop} (s : S) (xs : List I) (h : ∀ i ∈ xs, q i)
    (halong : Along step p s xs) : Along step (fun s i => q i ∧ p s i) s xs := by
  induction xs generalizing s with
  | nil => trivial
  | cons i rest ih =>
      exact ⟨⟨h i List.mem_cons_self, halong.1⟩,
        ih _ (fun j hj => h j (List.mem_cons_of_mem _ hj)) halong.2⟩

/-- What every step keeps holds at the end of a run. -/
theorem invariant_final (Inv : S → Prop) (hinv : ∀ s i, Inv s → Inv (step s i).2) (s : S)
    (xs : List I) (hinit : Inv s) : Inv (final step s xs) := by
  induction xs generalizing s with
  | nil => exact hinit
  | cons i rest ih => exact ih _ (hinv s i hinit)

/-- The same for a run whose steps all meet a condition. -/
theorem invariant_final_of_along (Inv : S → Prop)
    (hstep : ∀ s i, Inv s → p s i → Inv (step s i).2)
    (s : S) (xs : List I) (hinit : Inv s) (halong : Along step p s xs) :
    Inv (final step s xs) := by
  induction xs generalizing s with
  | nil => exact hinit
  | cons i rest ih => exact ih _ (hstep s i hinit halong.1) halong.2

/-- Along a run that keeps an invariant, the invariant may be used at each step. -/
theorem along_and_invariant (Inv : S → Prop)
    (hstep : ∀ s i, Inv s → p s i → Inv (step s i).2)
    (s : S) (xs : List I) (hinit : Inv s) (halong : Along step p s xs) :
    Along step (fun s i => Inv s ∧ p s i) s xs := by
  induction xs generalizing s with
  | nil => trivial
  | cons i rest ih =>
      exact ⟨⟨hinit, halong.1⟩, ih _ (hstep s i hinit halong.1) halong.2⟩

/-- A condition that keeps an invariant gives every condition that follows from the two. -/
theorem along_of_invariant {q : S → I → Prop} (Inv : S → Prop)
    (hstep : ∀ s i, Inv s → p s i → Inv (step s i).2) (himp : ∀ s i, Inv s → p s i → q s i)
    (s : S) (xs : List I) (hinit : Inv s) (halong : Along step p s xs) : Along step q s xs := by
  induction xs generalizing s with
  | nil => trivial
  | cons i rest ih =>
      exact ⟨himp s i hinit halong.1, ih _ (hstep s i hinit halong.1) halong.2⟩

/-- Conditions that come to the same at every step that keeps the invariant come to the same
along a run. -/
theorem along_congr {q : S → I → Prop} (Inv : S → Prop) (hinv : ∀ s i, Inv s → Inv (step s i).2)
    (hiff : ∀ s i, Inv s → (p s i ↔ q s i)) (s : S) (xs : List I) (hinit : Inv s) :
    Along step p s xs ↔ Along step q s xs := by
  induction xs generalizing s with
  | nil => exact Iff.rfl
  | cons i rest ih => exact and_congr (hiff s i hinit) (ih _ (hinv s i hinit))

/-- The run lemma behind the safety results: `Inv` relates the state to the
inputs served so far, and each step keeps it, where a step extends the record
exactly when its answer is good. -/
theorem served_invariant (good : O → Bool) (Inv : S → List I → Prop)
    (hstep : ∀ s done i, Inv s done → p s i →
      Inv (step s i).2 (if good (step s i).1 then done ++ [i] else done))
    (s : S) (done xs : List I) (hinit : Inv s done) (halong : Along step p s xs) :
    Inv (final step s xs) (done ++ served good step s xs) := by
  induction xs generalizing s done with
  | nil => simpa [final, served] using hinit
  | cons i rest ih =>
      have hnext := ih _ _ (hstep s done i hinit halong.1) halong.2
      cases hgood : good (step s i).1 with
      | true => simpa [final, served, hgood] using hnext
      | false => simpa [final, served, hgood] using hnext

/-- The run lemma for results about the answers: `Inv` relates the state to the
answers given so far, and each step keeps it. -/
theorem outputs_invariant (Inv : S → List O → Prop)
    (hstep : ∀ s log i, Inv s log → p s i → Inv (step s i).2 (log ++ [(step s i).1]))
    (s : S) (log : List O) (xs : List I) (hinit : Inv s log) (halong : Along step p s xs) :
    Inv (final step s xs) (log ++ outputs step s xs) := by
  induction xs generalizing s log with
  | nil => simpa [final, outputs] using hinit
  | cons i rest ih =>
      have hnext := ih _ _ (hstep s log i hinit halong.1) halong.2
      simpa [final, outputs] using hnext

/-- A run either meets the condition throughout and keeps `Inv`, or fails it at some step and
is `Lost` from there on. -/
theorem outputs_kept_or_lost (Inv Lost : S → List O → Prop)
    (hkept : ∀ s log i, Inv s log → p s i → Inv (step s i).2 (log ++ [(step s i).1]))
    (hlost : ∀ s log i, Inv s log → ¬ p s i → Lost (step s i).2 (log ++ [(step s i).1]))
    (hstays : ∀ s log i, Lost s log → Lost (step s i).2 (log ++ [(step s i).1]))
    (s : S) (log : List O) (xs : List I) (hinit : Inv s log) :
    (Along step p s xs ∧ Inv (final step s xs) (log ++ outputs step s xs)) ∨
      (¬ Along step p s xs ∧ Lost (final step s xs) (log ++ outputs step s xs)) := by
  induction xs generalizing s log with
  | nil => exact Or.inl ⟨trivial, by simpa [final, outputs] using hinit⟩
  | cons i rest ih =>
      by_cases hp : p s i
      · have hnext := ih _ _ (hkept s log i hinit hp)
        simpa [Along, final, outputs, hp] using hnext
      · have hrest := outputs_invariant Lost (fun s log i h _ => hstays s log i h) _ _ rest
          (hlost s log i hinit hp) (along_of_forall (fun _ _ => trivial) _ _)
        refine Or.inr ⟨fun halong => hp halong.1, ?_⟩
        simpa [final, outputs] using hrest

/-- Where `p` decides at each step whether a property of the state survives, it
decides for the whole run whether the property holds after every step of it. The
step may use an invariant, which is kept as long as the property holds. -/
theorem holds_along_iff_of_invariant (step : S → I → O × S) (Inv Good : S → Prop)
    (hinv : ∀ s i, Inv s → Good s → Inv (step s i).2)
    (hstep : ∀ s i, Inv s → Good s → (Good (step s i).2 ↔ p s i))
    (s : S) (xs : List I) (hinit : Inv s) (hgood : Good s) :
    (∀ n ≤ xs.length, Good (final step s (xs.take n))) ↔ Along step p s xs := by
  induction xs generalizing s with
  | nil =>
      refine iff_of_true ?_ trivial
      intro n _
      simpa [final] using hgood
  | cons i rest ih =>
      have hkept := hinv s i hinit hgood
      constructor
      · intro h
        have hnext : Good (step s i).2 := by simpa [final] using h 1 (by simp)
        refine ⟨(hstep s i hinit hgood).mp hnext, (ih _ hkept hnext).mp ?_⟩
        intro n hn
        exact h (n + 1) (Nat.succ_le_succ hn)
      · rintro ⟨hp, halong⟩ n hn
        have hnext := (hstep s i hinit hgood).mpr hp
        cases n with
        | zero => exact hgood
        | succ n => exact (ih _ hkept hnext).mpr halong n (Nat.le_of_succ_le_succ hn)

/-- The same without an invariant. -/
theorem holds_along_iff (step : S → I → O × S) (Good : S → Prop)
    (hstep : ∀ s i, Good s → (Good (step s i).2 ↔ p s i))
    (s : S) (xs : List I) (hinit : Good s) :
    (∀ n ≤ xs.length, Good (final step s (xs.take n))) ↔ Along step p s xs :=
  holds_along_iff_of_invariant step (fun _ => True) Good (fun _ _ _ _ => trivial)
    (fun s i _ => hstep s i) s xs trivial hinit

/-- Where `p` decides at each step whether the answer is good, it decides for
the whole run whether all answers are. -/
theorem outputs_good_iff (good : O → Bool) {pre : S → I → Prop}
    (hstep : ∀ s i, pre s i → (good (step s i).1 = true ↔ p s i))
    (s : S) (xs : List I) (hpre : Along step pre s xs) :
    (∀ o ∈ outputs step s xs, good o = true) ↔ Along step p s xs := by
  induction xs generalizing s with
  | nil => simp [outputs, Along]
  | cons i rest ih =>
      simp only [outputs, List.mem_cons, forall_eq_or_imp, Along]
      exact and_congr (hstep s i hpre.1) (ih _ hpre.2)

/-- Two machines whose related states answer alike and step to related states
give the same answers on every list of inputs. -/
theorem outputs_eq_of_related {other : T → I → O × T} (R : S → T → Prop)
    (hanswer : ∀ s t i, R s t → (step s i).1 = (other t i).1)
    (hstep : ∀ s t i, R s t → R (step s i).2 (other t i).2)
    (s : S) (t : T) (xs : List I) (hinit : R s t) :
    outputs step s xs = outputs other t xs := by
  induction xs generalizing s t with
  | nil => rfl
  | cons i rest ih =>
      simp only [outputs]
      rw [hanswer s t i hinit, ih _ _ (hstep s t i hinit)]

/-- Machines with one state that differ in something they read, such as what lay in the
memory when they were started. Where `reads` says of each step if it looks at that, and a
step that does can be told apart, the answers are always the same if and only if no step
of the run looks at it. -/
theorem outputs_same_iff {W : Type*} (step : W → S → I → O × S) (reads : S → I → Prop)
    (hsame : ∀ s i, ¬ reads s i → ∀ w w', step w s i = step w' s i)
    (hdiff : ∀ s i, reads s i → ∃ w w', (step w s i).1 ≠ (step w' s i).1)
    (s : S) (xs : List I) :
    (∀ w w', outputs (step w) s xs = outputs (step w') s xs) ↔
      ∀ w, Along (step w) (fun s i => ¬ reads s i) s xs := by
  induction xs generalizing s with
  | nil => exact iff_of_true (fun _ _ => rfl) (fun _ => trivial)
  | cons i rest ih =>
      constructor
      · intro heq w
        have hreads : ¬ reads s i := by
          intro hreads
          obtain ⟨v, v', hne⟩ := hdiff s i hreads
          exact hne (List.cons.inj (heq v v')).1
        refine ⟨hreads, (ih (step w s i).2).mp ?_ w⟩
        intro v v'
        have htail := (List.cons.inj (heq v v')).2
        rwa [hsame s i hreads v w, hsame s i hreads v' w] at htail
      · intro halong w w'
        have hreads := (halong w).1
        have hrest : ∀ v, Along (step v) (fun s i => ¬ reads s i) (step w s i).2 rest := by
          intro v
          have htail := (halong v).2
          rwa [hsame s i hreads v w] at htail
        simp only [outputs]
        rw [hsame s i hreads w' w, (ih _).mpr hrest w w']

/-- The variant rule: where every state that keeps the invariant, and is not yet at the
goal, has an input that brings it nearer, some inputs lead to the goal. -/
theorem exists_final_of_variant {V : Type*} {r : V → V → Prop} (hr : WellFounded r)
    (variant : S → V) (Inv Goal : S → Prop) (ok : I → Prop)
    (hstep : ∀ s, Inv s → ¬ Goal s → ∃ i, ok i ∧ Inv (step s i).2 ∧
      (Goal (step s i).2 ∨ r (variant (step s i).2) (variant s)))
    (s : S) (hinit : Inv s) : ∃ xs, (∀ i ∈ xs, ok i) ∧ Goal (final step s xs) := by
  suffices h : ∀ v s, v = variant s → Inv s → ∃ xs, (∀ i ∈ xs, ok i) ∧ Goal (final step s xs) from
    h _ s rfl hinit
  intro v
  induction v using hr.induction with
  | _ v ih =>
      rintro s rfl hs
      by_cases hgoal : Goal s
      · exact ⟨[], by simp, hgoal⟩
      · obtain ⟨i, hok, hnext, hnear⟩ := hstep s hs hgoal
        rcases hnear with hgoal | hless
        · exact ⟨[i], by simpa using hok, hgoal⟩
        · obtain ⟨xs, hxs, hfinal⟩ := ih _ hless _ rfl hnext
          refine ⟨i :: xs, ?_, hfinal⟩
          intro j hj
          rcases List.mem_cons.mp hj with rfl | hj
          · exact hok
          · exact hxs j hj

section Fallible

/-! A step that can go wrong has no next state, and no run goes on after it. -/

variable {attempt : S → I → Option S}

theorem foldlM_invariant (Inv : S → Prop)
    (hstep : ∀ s i s', Inv s → attempt s i = some s' → Inv s') {s s' : S} {xs : List I}
    (hinit : Inv s) (hrun : xs.foldlM attempt s = some s') : Inv s' := by
  induction xs generalizing s with
  | nil =>
      cases hrun
      exact hinit
  | cons i rest ih =>
      rw [List.foldlM_cons, Option.bind_eq_bind, Option.bind_eq_some_iff] at hrun
      obtain ⟨next, hnext, hrest⟩ := hrun
      exact ih (hstep s i next hinit hnext) hrest

/-- Where `Bad` decides at each step whether it goes wrong, a run goes wrong exactly at a
step that is bad where the steps before it have led. -/
theorem foldlM_eq_none_iff {Bad : S → I → Prop} (Inv : S → Prop)
    (hstep : ∀ s i s', Inv s → attempt s i = some s' → Inv s')
    (hbad : ∀ s i, Inv s → (attempt s i = none ↔ Bad s i)) {s : S} (xs : List I)
    (hinit : Inv s) :
    xs.foldlM attempt s = none ↔
      ∃ before i after s', xs = before ++ i :: after ∧
        before.foldlM attempt s = some s' ∧ Bad s' i := by
  induction xs generalizing s with
  | nil => simp
  | cons i rest ih =>
      rw [List.foldlM_cons, Option.bind_eq_bind]
      cases hnext : attempt s i with
      | none =>
          refine iff_of_true rfl ⟨[], i, rest, s, rfl, rfl, (hbad s i hinit).mp hnext⟩
      | some next =>
          rw [Option.bind_some, ih (hstep s i next hinit hnext)]
          constructor
          · rintro ⟨before, j, after, s', rfl, hbefore, hj⟩
            refine ⟨i :: before, j, after, s', rfl, ?_, hj⟩
            rw [List.foldlM_cons, Option.bind_eq_bind, hnext, Option.bind_some, hbefore]
          · rintro ⟨before, j, after, s', hxs, hbefore, hj⟩
            cases before with
            | nil =>
                obtain ⟨rfl, rfl⟩ := List.cons.inj hxs
                cases hbefore
                rw [(hbad s i hinit).mpr hj] at hnext
                cases hnext
            | cons k before =>
                obtain ⟨rfl, rfl⟩ := List.cons.inj hxs
                rw [List.foldlM_cons, Option.bind_eq_bind, hnext, Option.bind_some] at hbefore
                exact ⟨before, j, after, s', rfl, hbefore, hj⟩

end Fallible

end LuaMumble.Lib.Machine
