import LuaMumble.Registry.Handles

/-!
How long the tables of the registry get. A variable that gives its reference back before it takes
another one leaves a free reference behind, and no table grows while there is one.
-/

namespace LuaMumble.Registry

open Lib

variable {V K : Type} [DecidableEq K]
variable (objlen : RefTable.Objlen (Object V)) {home : K → Option (Name K)}

/-- The names of a place that hold an object. -/
def Held.holders (home : K → Option (Name K)) (h : Held V K) (p : Option Nat) : Set (Name K) :=
  {x | x ∈ h.namesAt home p ∧ (h.object x).isSome}

/-- There are never more than so many holders in each place. -/
def Held.Within (home : K → Option (Name K)) (most : Option Nat → Nat) (h : Held V K) : Prop :=
  ∀ p, (h.holders home p).encard ≤ most p

/-- The event may put an object in the variable. -/
def Event.Fills (e : Event V K) (k : K) : Prop :=
  match e with
  | .ref k' _ => k' = k
  | .move _ k' => k' = k
  | _ => False

/-- Nothing stands in a table of the variable. -/
def Held.Vacant (home : K → Option (Name K)) (h : Held V K) (k : K) : Prop :=
  ∀ t, home t = some (.own k) → h.holds t = none

/-- A variable takes a reference only if it holds none, its own table is empty when it is set, and
there are not too many holders afterwards. -/
def ReleasedFirst (home : K → Option (Name K)) (most : Option Nat → Nat) (h : Held V K)
    (e : Event V K) : Prop :=
  SetBefore home h e ∧ (∀ k, e.Fills k → h.holds k = none) ∧
    (∀ k, e.Sets k → h.Vacant home k) ∧ (h.step home e).2.Within home most

/-- The tables are as short as the numbers of holders allow. -/
structure Thrifty (home : K → Option (Name K)) (most : Option Nat → Nat) (s : State V K)
    (h : Held V K) : Prop extends Sound home s h where
  thrifty : ∀ p, (s.tableAt p).Thrifty (h.namesAt home p) s.reference h.object (most p)

section Places

variable {h : Held V K} {k : K} {x : Name K} {p : Option Nat} {v : Object V}

omit [DecidableEq K] in
/-- No variable is in its own table. -/
theorem home_ne_own (hhome : h.HasHome home k) : home k ≠ some (.own k) := by
  intro heq
  have hsome := hhome _ heq
  simp [Held.table?, heq] at hsome

/-- Behind an assignment to a variable whose table is empty, the others hold what they did. -/
theorem mem_namesAt_put_iff (hself : home k ≠ some (.own k)) (hvacant : h.Vacant home k)
    (value : Option (Object V)) :
    x ∈ (h.put home k value).namesAt home p ∧ (h.put home k value).object x = some v ↔
      x ∈ h.namesAt home p ∧ Function.update h.object (.own k) value x = some v := by
  constructor
  · rintro ⟨hx, hv⟩
    exact mem_namesAt_put hx hv
  · rintro ⟨hx, hv⟩
    have htable : x.table home ≠ some (.own k) := by
      cases x with
      | global g => exact nofun
      | own t =>
          by_cases ht : t = k
          · rw [ht]
            exact hself
          · intro hhome
            have hne : Name.own t ≠ .own k := by simpa using ht
            rw [Function.update_of_ne hne] at hv
            exact absurd ((hvacant t hhome).symm.trans hv) nofun
    constructor
    · have hplace : h.place home x = some p := hx
      rw [← place_put htable] at hplace
      exact hplace
    · rw [object_put htable]
      exact hv

/-- Behind a move, too. -/
theorem mem_namesAt_move_iff {k' : K} (hself : home k ≠ some (.own k)) (hsame : home k = home k')
    (hself' : home k' ≠ some (.own k')) (hvacant : h.Vacant home k)
    (hvacant' : h.Vacant home k') :
    x ∈ (h.step home (.move k k')).2.namesAt home p ∧
        (h.step home (.move k k')).2.object x = some v ↔
      x ∈ h.namesAt home p ∧
        Function.update (Function.update h.object (.own k') (h.object (.own k))) (.own k) none x =
          some v := by
  have hvacantPut : (h.put home k' (h.holds k)).Vacant home k := by
    intro t ht
    have htk : t ≠ k' := by
      rintro rfl
      exact hself (hsame.trans ht)
    simp only [Held.put]
    split
    · rfl
    · rw [Function.update_of_ne htk]
      exact hvacant t ht
  apply (mem_namesAt_put_iff hself hvacantPut none).trans
  by_cases hxk : x = .own k
  · simp [hxk]
  · rw [Function.update_of_ne hxk, Function.update_of_ne hxk]
    exact mem_namesAt_put_iff hself' hvacant' (h.holds k)

end Places

section Steps

variable {most : Option Nat → Nat} {s : State V K} {h : Held V K} {k : K} {p : Option Nat}

/-- A variable is assigned, and the table that it belongs to stays short. -/
theorem Thrifty.assign (ht : Thrifty home most s h) {lua : Lua V} {ref : Int}
    {value : Option (Object V)} (hself : home k ≠ some (.own k)) (hvacant : h.Vacant home k)
    (hplace : h.place home (.own k) = some p)
    (hsound : Sound home { s with lua := lua, vars := Function.update s.vars k ref }
      (h.put home k value))
    (htable : (State.tableAt { s with lua := lua } p).Thrifty (h.namesAt home p)
      (Function.update s.reference (.own k) ref) (Function.update h.object (.own k) value)
      (most p))
    (hother : ∀ q, q ≠ p → State.tableAt { s with lua := lua } q = s.tableAt q) :
    Thrifty home most { s with lua := lua, vars := Function.update s.vars k ref }
      (h.put home k value) := by
  refine ⟨hsound, ?_⟩
  intro q
  rw [reference_assign]
  by_cases hq : q = p
  · subst hq
    apply htable.congr
    · intro x v
      exact mem_namesAt_put_iff hself hvacant value
    · exact fun _ _ _ => rfl
  · have hthrifty := ht.thrifty q
    rw [← hother q hq] at hthrifty
    apply hthrifty.congr
    · intro x v
      rw [mem_namesAt_put_iff hself hvacant value]
      apply and_congr_right
      intro hx
      rw [Function.update_of_ne (ne_own_of_mem hplace hq hx)]
    · intro x hx hsome
      obtain ⟨v, hv⟩ := Option.isSome_iff_exists.mp hsome
      have hmem := (mem_namesAt_put hx hv).1
      exact Function.update_of_ne (ne_own_of_mem hplace hq hmem) _ _

theorem Thrifty.step_ref (ht : Thrifty home most s h) {value : Option (Object V)}
    (hreleased : ReleasedFirst home most h (.ref k value)) :
    Thrifty home most (Registry.step objlen home s (.ref k value)).2
      (h.step home (.ref k value)).2 := by
  obtain ⟨hset, hfills, hvacant, hwithin⟩ := hreleased
  obtain ⟨p, hplace⟩ := exists_place hset
  have hsound := (ht.toSound.step objlen _ hset).2
  obtain ⟨-, lua, heq, htable, hother⟩ := ht.assigned_ref objlen hplace value
  have hholds : h.object (.own k) = none := hfills k rfl
  rw [heq] at hsound ⊢
  refine ht.assign (home_ne_own hset) (hvacant k rfl) hplace hsound ?_ hother
  rw [htable]
  cases value with
  | none => exact (ht.thrifty p).drop hholds _
  | some v =>
      refine (ht.thrifty p).ref objlen (x := .own k) hplace hholds v ?_
      have hcount := hwithin p
      have hsame : (h.step home (.ref k (some v))).2.holders home p =
          {x | x ∈ h.namesAt home p ∧
            (Function.update h.object (.own k) (some v) x).isSome} := by
        ext x
        simp only [Held.holders, Set.mem_ofPred_eq, Option.isSome_iff_exists, ← exists_and_left]
        exact exists_congr fun w =>
          mem_namesAt_put_iff (home_ne_own hset) (hvacant k rfl) (some v)
      rwa [hsame] at hcount

theorem Thrifty.step_unref (ht : Thrifty home most s h)
    (hreleased : ReleasedFirst home most h (.unref k)) :
    Thrifty home most (Registry.step objlen home s (.unref k)).2 (h.step home (.unref k)).2 := by
  obtain ⟨hset, -, hvacant, -⟩ := hreleased
  obtain ⟨p, hplace⟩ := exists_place hset.2
  have hsound := (ht.toSound.step objlen _ hset).2
  obtain ⟨-, lua, heq, htable, hother⟩ := ht.assigned_unref objlen hplace
  rw [heq] at hsound ⊢
  refine ht.assign (home_ne_own hset.2) (hvacant k rfl) hplace hsound ?_ hother
  rw [htable]
  cases hholds : h.holds k with
  | none =>
      rw [RefTable.unref_of_neg _ (ht.unheld k hset.1 hholds)]
      exact (ht.thrifty p).drop (x := .own k) hholds _
  | some object => exact (ht.thrifty p).unref (x := .own k) hplace hholds noRef

theorem Thrifty.step_move (ht : Thrifty home most s h) {k' : K}
    (hreleased : ReleasedFirst home most h (.move k k')) :
    Thrifty home most (Registry.step objlen home s (.move k k')).2
      (h.step home (.move k k')).2 := by
  obtain ⟨hset, hfills, hvacant, -⟩ := hreleased
  have hhome := hset.2.1
  have hsame := hset.2.2
  obtain ⟨p, hplace⟩ := exists_place hhome
  have hplace' : h.place home (.own k') = some p := by
    rw [← hplace]
    simp only [Held.place, Name.table, hsame]
  have hhome' : h.HasHome home k' := by
    intro t heq
    exact hhome t (hsame.trans heq)
  have hiff (q : Option Nat) (x : Name K) (v : Object V) := mem_namesAt_move_iff
    (x := x) (p := q) (v := v) (home_ne_own hhome) hsame (home_ne_own hhome')
    (hvacant k (.inl rfl)) (hvacant k' (.inr rfl))
  refine ⟨(ht.toSound.step objlen _ hset).2, ?_⟩
  intro q
  have htable : (Registry.step objlen home s (.move k k')).2.tableAt q = s.tableAt q := by
    cases q <;> rfl
  rw [htable, reference_move]
  by_cases hq : q = p
  · subst hq
    apply ((ht.thrifty q).move hplace hplace' (hfills k' rfl) noRef).congr
    · exact hiff q
    · exact fun _ _ _ => rfl
  · apply (ht.thrifty q).congr
    · intro x v
      rw [hiff q x v]
      apply and_congr_right
      intro hx
      rw [Function.update_of_ne (ne_own_of_mem hplace hq hx),
        Function.update_of_ne (ne_own_of_mem hplace' hq hx)]
    · intro x hx hsome
      obtain ⟨v, hv⟩ := Option.isSome_iff_exists.mp hsome
      have hmem := (mem_namesAt_move hx hv).1
      rw [Function.update_of_ne (ne_own_of_mem hplace hq hmem),
        Function.update_of_ne (ne_own_of_mem hplace' hq hmem)]

theorem Thrifty.step (ht : Thrifty home most s h) (e : Event V K)
    (hreleased : ReleasedFirst home most h e) :
    Thrifty home most (Registry.step objlen home s e).2 (h.step home e).2 := by
  cases e with
  | ref k value => exact ht.step_ref objlen hreleased
  | unref k => exact ht.step_unref objlen hreleased
  | pushref k =>
      rw [(ht.step_pushref objlen hreleased.1.1 hreleased.1.2).2]
      exact ht
  | move k k' => exact ht.step_move objlen hreleased

end Steps

section Start

variable {most : Option Nat → Nat}

omit [DecidableEq K] in
theorem thrifty_empty (names : Set (Name K)) (r : Name K → Int) (m : Nat) :
    (RefTable.empty : RefTable (Object V)).Thrifty names r (fun _ => none) m where
  kept := ⟨[], 0, RefTable.kept_empty⟩
  reads := by simp
  apart := by simp
  bounded := ⟨[], 0, ∅, RefTable.kept_empty, by simp, by simp, Nat.zero_le _⟩

/-- The tables of the module are the first five objects of the registry. -/
theorem luaopenMumble_thrifty (initial : K → Int)
    (hwithin : (Held.start (V := V) initial).Within home most) :
    (luaopenMumble objlen initial).lua.registry.Thrifty
      ((Held.start (V := V) initial).namesAt home none) (luaopenMumble objlen initial).reference
      (Held.start (V := V) initial).object (most none) := by
  let mk (g : Global) : Object V := .table g.id
  -- At each of the five steps the holders are among those at the end.
  have hcount : ∀ o : Name K → Option (Object V),
      (∀ x, (o x).isSome → ((Held.start (V := V) initial).object x).isSome) →
      ({y | y ∈ (Held.start (V := V) initial).namesAt home none ∧ (o y).isSome}).encard ≤
        most none := by
    intro o ho
    refine (Set.encard_le_encard ?_).trans (hwithin none)
    rintro x ⟨hx, hsome⟩
    exact ⟨hx, ho x hsome⟩
  have hopen : ∀ o : Name K → Option (Object V), (∀ k, o (.own k) = none) →
      ∀ x, (o x).isSome → ((Held.start (V := V) initial).object x).isSome := by
    intro o ho x hsome
    cases x with
    | global g => rfl
    | own k => simp [ho k] at hsome
  have hthrifty := ((((thrifty_empty (V := V) ((Held.start (V := V) initial).namesAt home none)
    (Name.before initial) (most none)).ref objlen (x := .global .clients) rfl rfl (mk .clients)
      (hcount _ (hopen _ fun k => rfl))).ref objlen (x := .global .timerReg) rfl rfl
      (mk .timerReg) (hcount _ (hopen _ fun k => rfl))).ref objlen (x := .global .threadReg) rfl rfl
      (mk .threadReg) (hcount _ (hopen _ fun k => rfl))).ref objlen (x := .global .pipeReg) rfl rfl
      (mk .pipeReg) (hcount _ (hopen _ fun k => rfl)) |>.ref objlen (x := .global .dataReg) rfl rfl
      (mk .dataReg) (hcount _ (hopen _ fun k => rfl))
  apply hthrifty.congr
  · intro x v
    cases x with
    | global g => cases g <;> exact Iff.rfl
    | own k => exact Iff.rfl
  · intro x _ _
    cases x with
    | global g => cases g <;> rfl
    | own k => rfl

theorem thrifty_start (initial : K → Int)
    (hwithin : (Held.start (V := V) initial).Within home most) :
    Thrifty home most (luaopenMumble objlen initial) (Held.start (V := V) initial) where
  toSound := sound_start objlen home initial
  thrifty := by
    intro p
    cases p with
    | none => exact luaopenMumble_thrifty objlen initial hwithin
    | some id =>
        refine ⟨(sound_start objlen home initial).serves (some id),
          [], 0, ∅, RefTable.kept_empty, ?_, by simp, Nat.zero_le _⟩
        intro x
        constructor
        · intro hx
          simp at hx
        · rintro ⟨hx, hsome⟩
          cases x with
          | global g => cases hx
          | own k => cases hsome

end Start

/-- **The registry does not grow.** Where every variable gives its reference back before it takes
another one, and a place never has more than so many holders at a time, a variable that holds an
object has one of that many references: as few as there can be, however long the program runs
and however often it takes references. -/
theorem references_stay_small (objlen : RefTable.Objlen (Object V)) (home : K → Option (Name K))
    (most : Option Nat → Nat) (initial : K → Int) (events : List (Event V K))
    (hstart : (Held.start (V := V) initial).Within home most)
    (hreleased : Machine.Along (Held.step home) (ReleasedFirst home most)
      (Held.start (V := V) initial) events)
    (k : K) (p : Option Nat)
    (hplace : (Machine.final (Held.step home) (Held.start (V := V) initial) events).place home
      (.own k) = some p)
    (hholds : ((Machine.final (Held.step home) (Held.start (V := V) initial) events).holds
      k).isSome) :
    1 ≤ (Machine.final (step objlen home) (luaopenMumble objlen initial) events).vars k ∧
      (Machine.final (step objlen home) (luaopenMumble objlen initial) events).vars k ≤
        most p := by
  have hthrifty := thrifty_start objlen initial hstart
  generalize luaopenMumble objlen initial = s at hthrifty ⊢
  generalize Held.start initial = h at hreleased hplace hholds hthrifty
  induction events generalizing s h with
  | nil => exact (hthrifty.thrifty p).reference_le (x := .own k) hplace hholds
  | cons e rest ih => exact ih _ _ hreleased.2 hplace hholds (hthrifty.step objlen e hreleased.1)

/-- The five tables, and at most the one variable that there is. -/
theorem within_one (h : Held Nat Unit) :
    h.Within (fun _ => some (.global .timerReg)) fun p => if p = none then 5 else 1 := by
  intro p
  cases p with
  | none =>
      have hsub : h.holders (fun _ => some (.global .timerReg)) none ⊆
          ↑({.global .clients, .global .timerReg, .global .threadReg, .global .pipeReg,
            .global .dataReg} : Finset (Name Unit)) := by
        rintro x ⟨hx, -⟩
        cases x with
        | global g => cases g <;> simp
        | own k => cases hx
      refine (Set.encard_le_encard hsub).trans ?_
      rw [Set.encard_coe_eq_coe_finsetCard]
      exact Nat.cast_le.mpr (by decide)
  | some id =>
      have hsub : h.holders (fun _ => some (.global .timerReg)) (some id) ⊆
          ↑({.own ()} : Finset (Name Unit)) := by
        rintro x ⟨hx, -⟩
        cases x with
        | global g => cases hx
        | own k => simp
      refine (Set.encard_le_encard hsub).trans ?_
      rw [Set.encard_coe_eq_coe_finsetCard]
      exact Nat.cast_le.mpr (by simp)

/-- A timer that is started three times has the first reference each time. -/
theorem restarted_timer_stays_small :
    (Machine.final (step (RefTable.firstBorder (Object Nat))
        fun _ : Unit => some (.global .timerReg))
      (luaopenMumble (RefTable.firstBorder (Object Nat)) fun _ => noRef)
      [.ref () (some (.other 1)), .unref (), .ref () (some (.other 2)), .unref (),
        .ref () (some (.other 3))]).vars () = 1 := by
  have hbounds := references_stay_small (RefTable.firstBorder (Object Nat))
    (fun _ : Unit => some (.global .timerReg)) (fun p => if p = none then 5 else 1) (fun _ => noRef)
    [.ref () (some (.other 1)), .unref (), .ref () (some (.other 2)), .unref (),
      .ref () (some (.other 3))] (within_one _)
    (by simp [Machine.Along, ReleasedFirst, SetBefore, Held.HasHome, Held.table?, Held.step,
      Held.put, Held.start, Held.Vacant, Event.Fills, noRef, within_one])
    () (some Global.timerReg.id) rfl rfl
  simp only [reduceCtorEq, if_false] at hbounds
  omega

end LuaMumble.Registry
