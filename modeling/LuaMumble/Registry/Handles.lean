import LuaMumble.Registry.State

/-!
What the registry is for, and that it does it: a variable reads back the object that was put in
it last, through all taking and giving back of references by other variables, in the table that
it shares with them.
-/

namespace LuaMumble.Registry

open Lib

variable {V K : Type} [DecidableEq K]
variable {objlen : RefTable.Objlen (Object V)} {home : K → Option (Name K)}

/-- The name of the table where the reference of a name stands; `none` is the registry. -/
def Name.table (home : K → Option (Name K)) : Name K → Option (Name K)
  | .global _ => none
  | .own k => home k

/-- Where the reference of a name stands: in the registry, which is `some none`, in a table, or
nowhere. -/
def Held.place (home : K → Option (Name K)) (h : Held V K) (x : Name K) : Option (Option Nat) :=
  match x.table home with
  | none => some none
  | some t => (h.table? home t).map some

/-- The names that share a table. -/
def Held.namesAt (home : K → Option (Name K)) (h : Held V K) (p : Option Nat) : Set (Name K) :=
  {x | h.place home x = some p}

def State.tableAt (s : State V K) : Option Nat → RefTable (Object V)
  | none => s.lua.registry
  | some id => s.lua.tables id

/-- The names of each place keep their objects in its table, and a variable that was set and
holds nothing has no reference. -/
structure Sound (home : K → Option (Name K)) (s : State V K) (h : Held V K) : Prop where
  serves : ∀ p, (s.tableAt p).Serves (h.namesAt home p) s.reference h.object
  unheld : ∀ k, h.ready k → h.holds k = none → s.vars k < 0

section Places

variable {h : Held V K} {k : K} {value : Option (Object V)} {x : Name K}

omit [DecidableEq K] in
theorem exists_place (hhome : h.HasHome home k) : ∃ p, h.place home (.own k) = some p := by
  simp only [Held.place, Name.table]
  cases heq : home k with
  | none => exact ⟨none, rfl⟩
  | some t =>
      obtain ⟨id, hid⟩ := Option.isSome_iff_exists.mp (hhome t heq)
      exact ⟨some id, by simp only [hid, Option.map_some]⟩

omit [DecidableEq K] in
/-- The tables are those that stand in the registry. -/
theorem table?_eq_some {id : Nat} (ht : h.table? home x = some id) :
    h.place home x = some none ∧ h.object x = some (.table id) := by
  cases x with
  | global g =>
      cases ht
      exact ⟨rfl, rfl⟩
  | own k =>
      simp only [Held.table?] at ht
      split at ht
      · rename_i hhome hholds
        cases ht
        exact ⟨by simp only [Held.place, Name.table, hhome], hholds⟩
      · cases ht

omit [DecidableEq K] in
/-- A name of another place is not the variable. -/
theorem ne_own_of_mem {p q : Option Nat} (hplace : h.place home (.own k) = some p) (hq : q ≠ p)
    (hx : x ∈ h.namesAt home q) : x ≠ .own k := by
  rintro rfl
  exact hq (Option.some.inj (hx.symm.trans hplace))

/-- What a name holds behind an assignment, unless it stood in a table of the variable. -/
theorem object_put (hhome : x.table home ≠ some (.own k)) :
    (h.put home k value).object x = Function.update h.object (.own k) value x := by
  cases x with
  | global g => rfl
  | own k' =>
      have hne : home k' ≠ some (.own k) := hhome
      simp only [Held.object, Held.put, if_neg hne, Function.update_apply, Name.own.injEq]

theorem table_ne_of_object_put {v : Object V} (hv : (h.put home k value).object x = some v) :
    x.table home ≠ some (.own k) := by
  intro hhome
  cases x with
  | global g => cases hhome
  | own k' =>
      have heq : home k' = some (.own k) := hhome
      simp [Held.object, Held.put, heq] at hv

/-- An assignment leaves a name where it is, unless it stood in a table of the variable. -/
theorem place_put (hhome : x.table home ≠ some (.own k)) :
    (h.put home k value).place home x = h.place home x := by
  cases ht : x.table home with
  | none => simp only [Held.place, ht]
  | some t =>
      have hsame : (h.put home k value).table? home t = h.table? home t := by
        cases t with
        | global g => rfl
        | own c =>
            have hc : c ≠ k := by
              rintro rfl
              exact hhome ht
            simp only [Held.table?]
            cases hnone : home c with
            | none => simp only [Held.put, hnone, reduceCtorEq, if_false, Function.update_of_ne hc]
            | some t' => rfl
      simp only [Held.place, ht, hsame]

/-- The names of a place behind an assignment that hold something were there before. -/
theorem mem_namesAt_put {p : Option Nat} {v : Object V}
    (hx : x ∈ (h.put home k value).namesAt home p)
    (hv : (h.put home k value).object x = some v) :
    x ∈ h.namesAt home p ∧ Function.update h.object (.own k) value x = some v := by
  have hhome := table_ne_of_object_put hv
  have hplace : (h.put home k value).place home x = some p := hx
  rw [place_put hhome] at hplace
  rw [object_put hhome] at hv
  exact ⟨hplace, hv⟩

/-- The names of a place behind a move, and what they hold. -/
theorem mem_namesAt_move {k' : K} {p : Option Nat} {v : Object V}
    (hx : x ∈ (h.step home (.move k k')).2.namesAt home p)
    (hv : (h.step home (.move k k')).2.object x = some v) :
    x ∈ h.namesAt home p ∧
      Function.update (Function.update h.object (.own k') (h.object (.own k))) (.own k) none x =
        some v := by
  obtain ⟨hmem, hobject⟩ := mem_namesAt_put hx hv
  by_cases hxk : x = .own k
  · simp [hxk] at hobject
  · rw [Function.update_of_ne hxk] at hobject ⊢
    exact mem_namesAt_put hmem hobject

end Places

section Assignment

variable {s : State V K} {h : Held V K} {k : K} {ref : Int} {value : Option (Object V)}

theorem reference_assign (lua : Lua V) :
    State.reference { s with lua := lua, vars := Function.update s.vars k ref } =
      Function.update s.reference (.own k) ref := by
  funext x
  cases x with
  | global g => rfl
  | own k' =>
      by_cases hk : k' = k
      · simp [State.reference, hk]
      · simp [State.reference, hk]

theorem unheld_put {vars : K → Int} (hunheld : ∀ k, h.ready k → h.holds k = none → vars k < 0)
    (href : value = none → ref < 0) (k' : K) (hready : (h.put home k value).ready k')
    (hnone : (h.put home k value).holds k' = none) : Function.update vars k ref k' < 0 := by
  obtain ⟨hhome, hset⟩ := hready
  simp only [Held.put, if_neg hhome] at hnone
  by_cases hk : k' = k
  · subst hk
    rw [Function.update_self] at hnone ⊢
    exact href hnone
  · rw [Function.update_of_ne hk] at hnone ⊢
    exact hunheld k' (hset.resolve_left hk) hnone

/-- A variable is assigned: its own table may change, and every other one stays. -/
theorem Sound.assign (hs : Sound home s h) {lua : Lua V} {p : Option Nat}
    (hplace : h.place home (.own k) = some p)
    (htable : (State.tableAt { s with lua := lua } p).Serves (h.namesAt home p)
      (Function.update s.reference (.own k) ref) (Function.update h.object (.own k) value))
    (hother : ∀ q, q ≠ p → State.tableAt { s with lua := lua } q = s.tableAt q)
    (href : value = none → ref < 0) :
    Sound home { s with lua := lua, vars := Function.update s.vars k ref }
      (h.put home k value) := by
  constructor
  · intro q
    rw [reference_assign]
    by_cases hq : q = p
    · subst hq
      apply htable.mono
      intro x hx v hv
      obtain ⟨hmem, hobject⟩ := mem_namesAt_put hx hv
      exact ⟨hmem, rfl, hobject⟩
    · have hserves := hs.serves q
      rw [← hother q hq] at hserves
      apply hserves.mono
      intro x hx v hv
      obtain ⟨hmem, hobject⟩ := mem_namesAt_put hx hv
      have hxk := ne_own_of_mem hplace hq hmem
      rw [Function.update_of_ne hxk] at hobject
      exact ⟨hmem, Function.update_of_ne hxk _ _, hobject⟩
  · exact unheld_put hs.unheld href

end Assignment

section Steps

variable {s : State V K} {h : Held V K} {k : K} {p : Option Nat}

omit [DecidableEq K] in
/-- The tables that names refer to are found under their references. -/
theorem Sound.table? (hs : Sound home s h) {t : Name K} {id : Nat}
    (ht : h.table? home t = some id) : s.lua.table? (s.reference t) = some id := by
  obtain ⟨hplace, hobject⟩ := table?_eq_some ht
  have hread := (hs.serves none).reads t hplace (.table id) hobject
  simp only [State.tableAt] at hread
  rw [Lua.table?, mumblePushref]
  generalize s.lua.registry (s.reference t) = slot at hread
  cases slot <;> simp_all [Slot.value?]

/-- One operation has put `table` in a place and `ref` in the variable. -/
def Assigned (s : State V K) (p : Option Nat) (k : K) (table : RefTable (Object V)) (ref : Int)
    (s' : State V K) : Prop :=
  ∃ lua, s' = { s with lua := lua, vars := Function.update s.vars k ref } ∧
    State.tableAt { s with lua := lua } p = table ∧
    ∀ q, q ≠ p → State.tableAt { s with lua := lua } q = s.tableAt q

/-- The registry is changed on behalf of a variable. -/
theorem assigned_registry (table : RefTable (Object V)) (ref : Int) :
    Assigned s none k table ref
      { s with lua := { s.lua with registry := table }, vars := Function.update s.vars k ref } := by
  refine ⟨_, rfl, rfl, ?_⟩
  intro q hq
  cases q with
  | none => exact absurd rfl hq
  | some id => rfl

/-- One of the tables is changed. -/
theorem assigned_table (id : Nat) (table : RefTable (Object V)) (ref : Int) :
    Assigned s (some id) k table ref
      { s with
        lua := { s.lua with tables := Function.update s.lua.tables id table }
        vars := Function.update s.vars k ref } := by
  refine ⟨_, rfl, Function.update_self .., ?_⟩
  intro q hq
  cases q with
  | none => rfl
  | some id' =>
      have hid : id' ≠ id := fun hid => hq (congrArg some hid)
      exact Function.update_of_ne hid _ _

variable (objlen)

/-- What `mumble_ref` and `mumble_registry_ref` do, in one. -/
theorem Sound.assigned_ref (hs : Sound home s h) (hplace : h.place home (.own k) = some p)
    (value : Option (Object V)) :
    (step objlen home s (.ref k value)).1 = .nothing ∧
      Assigned s p k (RefTable.ref objlen (s.tableAt p) value).2
        (RefTable.ref objlen (s.tableAt p) value).1
        (step objlen home s (.ref k value)).2 := by
  simp only [Held.place, Name.table] at hplace
  cases hhome : home k with
  | none =>
      rw [hhome] at hplace
      cases hplace
      simp only [step, hhome, State.assign, mumbleRef]
      exact ⟨trivial, assigned_registry _ _⟩
  | some t =>
      rw [hhome] at hplace
      obtain ⟨id, hid, rfl⟩ := Option.map_eq_some_iff.mp hplace
      simp only [step, hhome, State.assign, mumbleRegistryRef, hs.table? hid, Option.map_some]
      exact ⟨trivial, assigned_table _ _ _⟩

/-- What `mumble_unref` and `mumble_registry_unref` do, in one. -/
theorem Sound.assigned_unref (hs : Sound home s h) (hplace : h.place home (.own k) = some p) :
    (step objlen home s (.unref k)).1 = .nothing ∧
      Assigned s p k ((s.tableAt p).unref (s.vars k)) noRef
        (step objlen home s (.unref k)).2 := by
  by_cases hno : s.vars k = noRef
  · -- Both functions return at once.
    have hsame : (s.tableAt p).unref (s.vars k) = s.tableAt p :=
      RefTable.unref_of_neg _ (by rw [hno]; decide)
    have hstep : step objlen home s (.unref k) = s.assign k (some (noRef, s.lua)) := by
      cases hhome : home k with
      | none => simp [step, hhome, mumbleUnref, hno]
      | some t => simp [step, hhome, mumbleRegistryUnref, hno]
    rw [hstep, hsame]
    exact ⟨rfl, s.lua, rfl, rfl, fun _ _ => rfl⟩
  · simp only [Held.place, Name.table] at hplace
    cases hhome : home k with
    | none =>
        rw [hhome] at hplace
        cases hplace
        simp only [step, hhome, mumbleUnref, if_neg hno]
        exact ⟨rfl, assigned_registry _ _⟩
    | some t =>
        rw [hhome] at hplace
        obtain ⟨id, hid, rfl⟩ := Option.map_eq_some_iff.mp hplace
        simp only [step, hhome, mumbleRegistryUnref, if_neg hno, hs.table? hid, Option.map_some]
        exact ⟨rfl, assigned_table _ _ _⟩

theorem Sound.step_ref (hs : Sound home s h) (hhome : h.HasHome home k)
    (value : Option (Object V)) :
    Sound home (step objlen home s (.ref k value)).2 (h.step home (.ref k value)).2 := by
  obtain ⟨p, hplace⟩ := exists_place hhome
  obtain ⟨-, lua, heq, htable, hother⟩ := hs.assigned_ref objlen hplace value
  rw [heq]
  apply hs.assign hplace _ hother
  · rintro rfl
    exact (by decide : refNil < 0)
  · rw [htable]
    cases value with
    | none => exact (hs.serves p).drop _ _
    | some v => exact (hs.serves p).ref objlen _ v

theorem Sound.step_unref (hs : Sound home s h) (hready : h.ready k)
    (hhome : h.HasHome home k) :
    Sound home (step objlen home s (.unref k)).2 (h.step home (.unref k)).2 := by
  obtain ⟨p, hplace⟩ := exists_place hhome
  obtain ⟨-, lua, heq, htable, hother⟩ := hs.assigned_unref objlen hplace
  rw [heq]
  refine hs.assign hplace ?_ hother (fun _ => (by decide : noRef < 0))
  rw [htable]
  cases hholds : h.holds k with
  | none =>
      rw [RefTable.unref_of_neg _ (hs.unheld k hready hholds)]
      exact (hs.serves p).drop _ _
  | some object => exact (hs.serves p).unref (x := .own k) hplace hholds noRef

omit [DecidableEq K] in
/-- What a variable that was set finds under its reference. -/
theorem Sound.read (hs : Sound home s h) (hready : h.ready k)
    (hplace : h.place home (.own k) = some p) :
    s.tableAt p (s.vars k) =
      match h.holds k with
      | some object => .value object
      | none => .absent := by
  cases hholds : h.holds k with
  | none =>
      obtain ⟨free, n, hkept⟩ := (hs.serves p).kept
      exact hkept.outside _ (.inl (hs.unheld k hready hholds))
  | some object =>
      have hread := (hs.serves p).reads (.own k) hplace object hholds
      simp only [State.reference] at hread
      generalize s.tableAt p (s.vars k) = slot at hread
      cases slot <;> simp_all [Slot.value?]

theorem Sound.step_pushref (hs : Sound home s h) (hready : h.ready k)
    (hhome : h.HasHome home k) :
    (step objlen home s (.pushref k)).1 = (h.step home (.pushref k)).1 ∧
      (step objlen home s (.pushref k)).2 = s := by
  obtain ⟨p, hplace⟩ := exists_place hhome
  have hread := hs.read hready hplace
  simp only [Held.place, Name.table] at hplace
  cases heq : home k with
  | none =>
      rw [heq] at hplace
      cases hplace
      simp only [step, heq, mumblePushref, Held.step]
      exact ⟨congrArg Output.pushed hread, trivial⟩
  | some t =>
      rw [heq] at hplace
      obtain ⟨id, hid, rfl⟩ := Option.map_eq_some_iff.mp hplace
      simp only [step, heq, mumbleRegistryPushref, hs.table? hid, Option.map_some, Held.step]
      exact ⟨congrArg Output.pushed hread, trivial⟩

theorem reference_move (s : State V K) (k k' : K) :
    (step objlen home s (.move k k')).2.reference =
      Function.update (Function.update s.reference (.own k') (s.reference (.own k))) (.own k)
        noRef := by
  funext x
  cases x with
  | global g => rfl
  | own k'' => simp only [step, State.reference, Function.update_apply, Name.own.injEq]

theorem Sound.step_move (hs : Sound home s h) {k' : K} (hready : h.ready k)
    (hhome : h.HasHome home k) (hsame : home k = home k') :
    Sound home (step objlen home s (.move k k')).2 (h.step home (.move k k')).2 := by
  obtain ⟨p, hplace⟩ := exists_place hhome
  have hplace' : h.place home (.own k') = some p := by
    rw [← hplace]
    simp only [Held.place, Name.table, hsame]
  constructor
  · intro q
    have htable : (Registry.step objlen home s (.move k k')).2.tableAt q = s.tableAt q := by
      cases q <;> rfl
    rw [htable, reference_move]
    by_cases hq : q = p
    · subst hq
      apply ((hs.serves q).move hplace (.own k') noRef).mono
      intro x hx v hv
      obtain ⟨hmem, hobject⟩ := mem_namesAt_move hx hv
      exact ⟨hmem, rfl, hobject⟩
    · apply (hs.serves q).mono
      intro x hx v hv
      obtain ⟨hmem, hobject⟩ := mem_namesAt_move hx hv
      have hxk := ne_own_of_mem hplace hq hmem
      have hxk' := ne_own_of_mem hplace' hq hmem
      rw [Function.update_of_ne hxk, Function.update_of_ne hxk'] at hobject ⊢
      exact ⟨hmem, rfl, hobject⟩
  · apply unheld_put
    · apply unheld_put hs.unheld
      exact hs.unheld k hready
    · exact fun _ => (by decide : noRef < 0)

/-- One operation: the same answer as the variables give that hold their objects directly. -/
theorem Sound.step (hs : Sound home s h) (e : Event V K) (hset : SetBefore home h e) :
    (Registry.step objlen home s e).1 = (h.step home e).1 ∧
      Sound home (Registry.step objlen home s e).2 (h.step home e).2 := by
  cases e with
  | ref k value =>
      obtain ⟨p, hplace⟩ := exists_place hset
      exact ⟨(hs.assigned_ref objlen hplace value).1, hs.step_ref objlen hset value⟩
  | unref k =>
      obtain ⟨p, hplace⟩ := exists_place hset.2
      exact ⟨(hs.assigned_unref objlen hplace).1, hs.step_unref objlen hset.1 hset.2⟩
  | pushref k =>
      obtain ⟨hanswer, hstate⟩ := hs.step_pushref objlen hset.1 hset.2
      refine ⟨hanswer, ?_⟩
      rw [hstate]
      exact hs
  | move k k' => exact ⟨rfl, hs.step_move objlen hset.1 hset.2.1 hset.2.2⟩

end Steps

section Start

variable (objlen) (home)

omit [DecidableEq K] in
theorem serves_empty (names : Set (Name K)) (r : Name K → Int) :
    (RefTable.empty : RefTable (Object V)).Serves names r fun _ => none where
  kept := ⟨[], 0, RefTable.kept_empty⟩
  reads := by simp
  apart := by simp

/-- What the variables hold before the module is opened. -/
def Name.before (initial : K → Int) : Name K → Int
  | .global _ => noRef
  | .own k => initial k

/-- The start is five times `mumble_ref`, on behalf of the variables of the module. -/
theorem luaopenMumble_registry (initial : K → Int) (names : Set (Name K)) :
    (luaopenMumble objlen initial).lua.registry.Serves names
      (luaopenMumble objlen initial).reference (Held.start (V := V) initial).object := by
  let mk (g : Global) : Object V := .table g.id
  have hserves := ((((serves_empty (V := V) names (Name.before initial)).ref objlen
    (.global .clients) (mk .clients)).ref objlen
    (.global .timerReg) (mk .timerReg)).ref objlen
    (.global .threadReg) (mk .threadReg)).ref objlen
    (.global .pipeReg) (mk .pipeReg) |>.ref objlen
    (.global .dataReg) (mk .dataReg)
  apply hserves.mono
  intro x hx v hv
  refine ⟨hx, ?_, ?_⟩
  · cases x with
    | global g => cases g <;> rfl
    | own k => rfl
  · cases x with
    | global g => cases g <;> exact hv
    | own k => exact hv

theorem sound_start (initial : K → Int) :
    Sound home (luaopenMumble objlen initial) (Held.start (V := V) initial) where
  serves := by
    intro p
    cases p with
    | none => exact luaopenMumble_registry objlen initial _
    | some id =>
        apply (serves_empty (V := V) ((Held.start (V := V) initial).namesAt home (some id))
          (luaopenMumble objlen initial).reference).mono
        intro x hx v hv
        cases x with
        | global g => cases hx
        | own k => cases hv
  unheld := fun _ hready _ => hready

end Start

/-- **References are as good as the objects.** Whatever objects come and go, in whatever order,
each variable finds the object that was last put in it and not taken out, or nil; no two
variables ever get in each other's way, also where a table gives a reference out again. The
variables have to be set before they are used, and those of an object's table only while that
table is there. -/
theorem handles_read_back (objlen : RefTable.Objlen (Object V)) (home : K → Option (Name K))
    (initial : K → Int) (events : List (Event V K))
    (hset : Machine.Along (Held.step home) (SetBefore home) (Held.start (V := V) initial)
      events) :
    Machine.outputs (step objlen home) (luaopenMumble objlen initial) events =
      Machine.outputs (Held.step home) (Held.start initial) events := by
  have hsound := sound_start objlen home initial
  generalize luaopenMumble objlen initial = s at hsound ⊢
  generalize Held.start initial = h at hset hsound ⊢
  induction events generalizing s h with
  | nil => rfl
  | cons e rest ih =>
      obtain ⟨hanswer, hnext⟩ := hsound.step objlen e hset.1
      simp only [Machine.outputs]
      rw [hanswer, ih _ _ hset.2 hnext]

/-- The variables of a client with two streams: `client->audio_streams`, and the `refrence` and
`reclaim_ref` of each stream. -/
inductive StreamVar where
  | audioStreams
  | refrence (sound : Bool)
  | reclaimRef (sound : Bool)
  deriving DecidableEq

def StreamVar.table : StreamVar → Option (Name StreamVar)
  | .audioStreams => none
  | .refrence _ => some (.own .audioStreams)
  | .reclaimRef _ => some (.own .audioStreams)

/-- A stream that has stopped gives its reference back later, and is played again behind that. -/
theorem replayed_stream_reads_back :
    Machine.outputs (step (RefTable.firstBorder (Object Nat)) StreamVar.table)
        (luaopenMumble (RefTable.firstBorder (Object Nat)) fun _ => noRef)
        [.ref .audioStreams (some (.table 5)), .ref (.refrence true) (some (.other 1)),
          .ref (.refrence false) (some (.other 2)), .move (.refrence true) (.reclaimRef true),
          .pushref (.reclaimRef true), .unref (.reclaimRef true),
          .ref (.refrence true) (some (.other 1)), .pushref (.refrence false),
          .pushref (.refrence true)] =
      [.nothing, .nothing, .nothing, .nothing, .pushed (.value (.other 1)), .nothing, .nothing,
        .pushed (.value (.other 2)), .pushed (.value (.other 1))] := by
  apply (handles_read_back _ _ _ _ ?_).trans
  · rfl
  · simp [Machine.Along, SetBefore, Held.HasHome, Held.table?, Held.step, Held.put, Held.start,
      StreamVar.table, noRef]

end LuaMumble.Registry
