import Mathlib.Data.List.Forall2
import Mathlib.Data.List.Induction
import Mathlib.Data.List.Nodup
import Mathlib.Logic.Function.Basic

/-!
Code in C that builds a table on the stack of Lua: it makes one, pushes values, and stores each
under a key in the table below it, so that there are tables in tables. Tables lie in a heap, by
their numbers. A tree says what a value is down to its leaves, whatever the numbers of its tables
are. The rules at the end give the tree for each way to put pieces of such code together, and with
it that the rest of the stack and all older tables are as they were.
-/

namespace LuaMumble.Lib.TableBuilder

/-- The keys that such code uses. -/
inductive FieldKey where
  | name (s : String)
  | index (n : Int)
  deriving DecidableEq

/-- The values that are no tables. -/
inductive Scalar (O : Type) where
  | nil
  | boolean (b : Bool)
  | integer (n : Int)
  | string (bytes : List UInt8)
  | other (o : O)
  deriving DecidableEq

inductive Value (O : Type) where
  | scalar (v : Scalar O)
  | table (id : Nat)
  deriving DecidableEq

/-- A stack from the top down, and a heap whose tables have the numbers below `next`. -/
structure Lua (O : Type) where
  stack : List (Value O)
  tables : Nat → FieldKey → Value O
  next : Nat

/-- It stops where its behaviour is undefined. -/
abbrev LuaM (O : Type) := StateT (Lua O) Option

variable {O α : Type}

def store (tables : Nat → FieldKey → Value O) (id : Nat) (k : FieldKey) (v : Value O) :
    Nat → FieldKey → Value O :=
  Function.update tables id (Function.update (tables id) k v)

def push (v : Scalar O) : LuaM O Unit := fun s =>
  some ((), { s with stack := .scalar v :: s.stack })

/-- `lua_newtable` -/
def newTable : LuaM O Unit := fun s =>
  some ((), {
    stack := .table s.next :: s.stack
    tables := Function.update s.tables s.next fun _ => .scalar .nil
    next := s.next + 1 })

/-- `lua_setfield` with index -2 -/
def setField (name : String) : LuaM O Unit := fun s =>
  match s.stack with
  | v :: .table id :: rest =>
      some ((), { s with
        stack := .table id :: rest
        tables := store s.tables id (.name name) v })
  | _ => none

/-- `lua_settable` with index -3, where the key is an integer -/
def setTable : LuaM O Unit := fun s =>
  match s.stack with
  | v :: .scalar (.integer n) :: .table id :: rest =>
      some ((), { s with
        stack := .table id :: rest
        tables := store s.tables id (.index n) v })
  | _ => none

/-- A loop over an array, from the index `i` on. -/
def forEach (body : Nat → α → LuaM O Unit) : Nat → List α → LuaM O Unit
  | _, [] => pure ()
  | i, x :: xs => do
      body i x
      forEach body (i + 1) xs

def field (name : String) (code : LuaM O Unit) : LuaM O Unit := do
  code
  setField name

/-- A field that is set if there is something to set it to. -/
def optionalField (name : String) (x : Option α) (code : α → LuaM O Unit) : LuaM O Unit :=
  match x with
  | some a => field name (code a)
  | none => pure ()

def fieldIf (c : Prop) [Decidable c] (name : String) (code : LuaM O Unit) : LuaM O Unit :=
  if c then field name code else pure ()

/-- A table with a value for each element of an array, under the numbers from 1 on. -/
def arrayTable (xs : List α) (code : α → LuaM O Unit) : LuaM O Unit := do
  newTable
  forEach (fun i x => do
    push (.integer (i + 1))
    code x
    setTable) 0 xs

section Trees

inductive LuaTree (O : Type) where
  | leaf (v : Scalar O)
  | node (fields : FieldKey → LuaTree O)

/-- The entry that was stored last under a key, or nil. -/
def lookup (entries : List (FieldKey × LuaTree O)) (k : FieldKey) : LuaTree O :=
  ((entries.reverse.find? fun entry => entry.1 = k).map Prod.snd).getD (.leaf .nil)

/-- The table that is left when the entries have been stored one after another. -/
def table (entries : List (FieldKey × LuaTree O)) : LuaTree O := .node (lookup entries)

/-- The entries of a record, some fields of which may not be set. -/
def fields (rows : List (String × Option (LuaTree O))) : List (FieldKey × LuaTree O) :=
  rows.filterMap fun row => row.2.map fun t => (.name row.1, t)

def record (rows : List (String × Option (LuaTree O))) : LuaTree O := table (fields rows)

def array (xs : List α) (t : α → LuaTree O) : LuaTree O :=
  table (xs.zipIdx.map fun x => (.index (x.2 + 1), t x.1))

/-- The value is what the tree says, in tables with numbers from `lo` to before `hi`; those in a
table have larger numbers than the table. -/
def Represents (tables : Nat → FieldKey → Value O) (hi : Nat) : LuaTree O → Nat → Value O → Prop
  | .leaf v, _, x => x = .scalar v
  | .node fields, lo, x =>
      ∃ id, x = .table id ∧ lo ≤ id ∧ id < hi ∧
        ∀ k, Represents tables hi (fields k) (id + 1) (tables id k)

variable {tables tables' : Nat → FieldKey → Value O} {lo lo' hi hi' : Nat} {t t' : LuaTree O}
  {x : Value O}

theorem Represents.frame (h : Represents tables hi t lo x) (hlo : lo' ≤ lo) (hhi : hi ≤ hi')
    (hsame : ∀ id, lo ≤ id → id < hi → tables' id = tables id) :
    Represents tables' hi' t lo' x := by
  induction t generalizing lo lo' x with
  | leaf v => exact h
  | node fields ih =>
      obtain ⟨id, rfl, hle, hlt, hfields⟩ := h
      refine ⟨id, rfl, Nat.le_trans hlo hle, Nat.lt_of_lt_of_le hlt hhi, ?_⟩
      intro k
      rw [hsame id hle hlt]
      refine ih k (hfields k) (Nat.le_refl _) ?_
      intro other hother
      exact hsame other (by omega)

/-- A value is what one tree says, and no other. -/
theorem Represents.unique (h : Represents tables hi t lo x) (h' : Represents tables hi' t' lo' x) :
    t = t' := by
  induction t generalizing t' lo lo' x with
  | leaf v =>
      cases t' with
      | leaf w =>
          cases h
          cases h'
          rfl
      | node fields =>
          obtain ⟨id, hx, -⟩ := h'
          cases h.symm.trans hx
  | node fields ih =>
      obtain ⟨id, rfl, -, -, hfields⟩ := h
      cases t' with
      | leaf w => cases h'
      | node fields' =>
          obtain ⟨id', hid, -, -, hfields'⟩ := h'
          cases hid
          congr 1
          funext k
          exact ih k (hfields k) (hfields' k)

/-- The table with the number has these fields. -/
def Holds (tables : Nat → FieldKey → Value O) (hi id : Nat) (fields : FieldKey → LuaTree O) :
    Prop :=
  ∀ k, Represents tables hi (fields k) (id + 1) (tables id k)

end Trees

section Rules

/-- The code leaves one more value on the stack, which is what the tree says in tables of its
own. -/
def Pushes (code : LuaM O Unit) (t : LuaTree O) : Prop :=
  ∀ s : Lua O, ∃ v s', code s = some ((), s') ∧ s'.stack = v :: s.stack ∧ s.next ≤ s'.next ∧
    (∀ id < s.next, s'.tables id = s.tables id) ∧ Represents s'.tables s'.next t s.next v

/-- The code stores these entries one after another in the table on top of the stack. -/
def Fills (code : LuaM O Unit) (entries : List (FieldKey × LuaTree O)) : Prop :=
  ∀ (s : Lua O) (id : Nat) (rest : List (Value O)) (before : List (FieldKey × LuaTree O)),
    s.stack = .table id :: rest → id < s.next → Holds s.tables s.next id (lookup before) →
    ∃ s', code s = some ((), s') ∧ s'.stack = s.stack ∧ s.next ≤ s'.next ∧
      (∀ other < s.next, other ≠ id → s'.tables other = s.tables other) ∧
      Holds s'.tables s'.next id (lookup (before ++ entries))

variable {code other : LuaM O Unit} {t : LuaTree O} {entries more : List (FieldKey × LuaTree O)}

theorem lookup_append_single (entries : List (FieldKey × LuaTree O)) (k k' : FieldKey)
    (t : LuaTree O) :
    lookup (entries ++ [(k, t)]) k' = if k = k' then t else lookup entries k' := by
  unfold lookup
  rw [List.reverse_append, List.reverse_singleton, List.singleton_append, List.find?_cons]
  by_cases hk : k = k' <;> simp [hk]

theorem pushes_push (v : Scalar O) : Pushes (push v) (.leaf v) := by
  intro s
  exact ⟨.scalar v, _, rfl, rfl, Nat.le_refl _, fun _ _ => rfl, rfl⟩

/-- Storing the pushed value in the table below it. -/
theorem Holds.store {s s' : Lua O} {id : Nat} {before : List (FieldKey × LuaTree O)} {v : Value O}
    (h : Holds s.tables s.next id (lookup before)) (hid : id < s.next) (hnext : s.next ≤ s'.next)
    (hsame : ∀ id < s.next, s'.tables id = s.tables id)
    (hv : Represents s'.tables s'.next t s.next v) (k : FieldKey) :
    Holds (store s'.tables id k v) s'.next id (lookup (before ++ [(k, t)])) := by
  have hother (other : Nat) (hne : other ≠ id) :
      TableBuilder.store s'.tables id k v other = s'.tables other :=
    Function.update_of_ne hne _ _
  have hself : TableBuilder.store s'.tables id k v id = Function.update (s'.tables id) k v :=
    Function.update_self ..
  intro k'
  rw [lookup_append_single, hself]
  by_cases hk : k = k'
  · subst hk
    rw [if_pos rfl, Function.update_self]
    refine hv.frame hid (Nat.le_refl _) ?_
    intro other hle _
    exact hother other (by omega)
  · rw [if_neg hk, Function.update_of_ne (Ne.symm hk), hsame id hid]
    refine (h k').frame (Nat.le_refl _) hnext ?_
    intro other hle hlt
    exact (hother other (by omega)).trans (hsame other hlt)

theorem fills_skip : Fills (pure () : LuaM O Unit) [] := by
  intro s id rest before hstack hid hholds
  refine ⟨s, rfl, rfl, Nat.le_refl _, fun _ _ _ => rfl, ?_⟩
  rwa [List.append_nil]

theorem Fills.seq (h : Fills code entries) (hother : Fills other more) :
    Fills (do code; other) (entries ++ more) := by
  intro s id rest before hstack hid hholds
  obtain ⟨s₁, hrun₁, hstack₁, hnext₁, hsame₁, hholds₁⟩ := h s id rest before hstack hid hholds
  obtain ⟨s₂, hrun₂, hstack₂, hnext₂, hsame₂, hholds₂⟩ :=
    hother s₁ id rest (before ++ entries) (hstack₁.trans hstack) (by omega) hholds₁
  refine ⟨s₂, ?_, hstack₂.trans hstack₁, by omega, ?_, ?_⟩
  · change (code s).bind (fun p => other p.2) = _
    rw [hrun₁]
    exact hrun₂
  · intro b hb hne
    rw [hsame₂ b (by omega) hne, hsame₁ b hb hne]
  · rwa [← List.append_assoc]

theorem Pushes.field (h : Pushes code t) (name : String) :
    Fills (field name code) (fields [(name, some t)]) := by
  intro s id rest before hstack hid hholds
  obtain ⟨v, s', hrun, hstack', hnext, hsame, hv⟩ := h s
  rw [hstack] at hstack'
  refine ⟨{ s' with
      stack := .table id :: rest
      tables := store s'.tables id (.name name) v }, ?_, hstack.symm, hnext, ?_,
    hholds.store hid hnext hsame hv _⟩
  · change (code s).bind (fun p => setField name p.2) = _
    rw [hrun, Option.bind_some, setField, hstack']
  · intro b hb hne
    exact (Function.update_of_ne hne _ _).trans (hsame b hb)

theorem Pushes.entry (h : Pushes code t) (n : Int) :
    Fills (do push (.integer n); code; setTable) [(.index n, t)] := by
  intro s id rest before hstack hid hholds
  obtain ⟨v, s', hrun, hstack', hnext, hsame, hv⟩ :=
    h { s with stack := .scalar (.integer n) :: s.stack }
  simp only [hstack] at hstack'
  refine ⟨{ s' with
      stack := .table id :: rest
      tables := store s'.tables id (.index n) v }, ?_, hstack.symm, hnext, ?_,
    hholds.store hid hnext hsame hv _⟩
  · change (code { s with stack := .scalar (.integer n) :: s.stack }).bind
      (fun p => setTable p.2) = _
    rw [hrun, Option.bind_some, setTable, hstack']
  · intro b hb hne
    exact (Function.update_of_ne hne _ _).trans (hsame b hb)

theorem holds_newTable (tables : Nat → FieldKey → Value O) (next : Nat) :
    Holds (Function.update tables next fun _ => .scalar .nil) (next + 1) next (lookup []) := by
  intro k
  rw [Function.update_self]
  rfl

theorem Fills.newTable (h : Fills code entries) :
    Pushes (do TableBuilder.newTable; code) (table entries) := by
  intro s
  obtain ⟨s', hrun, hstack, hnext, hsame, hholds⟩ :=
    h { stack := .table s.next :: s.stack
        tables := Function.update s.tables s.next fun _ => .scalar .nil
        next := s.next + 1 } s.next s.stack [] rfl (Nat.lt_succ_self _)
      (holds_newTable s.tables s.next)
  have hle : s.next < s'.next := hnext
  refine ⟨.table s.next, s', hrun, hstack, Nat.le_of_lt hle, ?_, s.next, rfl, Nat.le_refl _, hle,
    hholds⟩
  intro id hid
  rw [hsame id (Nat.lt_succ_of_lt hid) (Nat.ne_of_lt hid)]
  exact Function.update_of_ne (Nat.ne_of_lt hid) _ _

theorem fills_forEach_of_mem {body : Nat → α → LuaM O Unit}
    {row : Nat → α → List (FieldKey × LuaTree O)} {xs : List α}
    (h : ∀ x ∈ xs, ∀ i, Fills (body i x) (row i x)) (i : Nat) :
    Fills (forEach body i xs) ((xs.zipIdx i).flatMap fun x => row x.2 x.1) := by
  induction xs generalizing i with
  | nil => exact fills_skip
  | cons x xs ih =>
      rw [List.zipIdx_cons, List.flatMap_cons]
      refine (h x List.mem_cons_self i).seq (ih ?_ (i + 1))
      intro y hy
      exact h y (List.mem_cons_of_mem _ hy)

theorem fills_forEach {body : Nat → α → LuaM O Unit} {row : Nat → α → List (FieldKey × LuaTree O)}
    (h : ∀ i x, Fills (body i x) (row i x)) (i : Nat) (xs : List α) :
    Fills (forEach body i xs) ((xs.zipIdx i).flatMap fun x => row x.2 x.1) :=
  fills_forEach_of_mem (fun x _ i => h i x) i

theorem pushes_arrayTable_of_mem {t : α → LuaTree O} {code : α → LuaM O Unit} {xs : List α}
    (h : ∀ a ∈ xs, Pushes (code a) (t a)) : Pushes (arrayTable xs code) (array xs t) := by
  have hentries : xs.zipIdx.map (fun x => (FieldKey.index (x.2 + 1), t x.1)) =
      xs.zipIdx.flatMap fun x => [(FieldKey.index (x.2 + 1), t x.1)] := by
    rw [List.map_eq_flatMap]
  rw [array, hentries]
  exact (fills_forEach_of_mem (fun x hx i => (h x hx).entry (i + 1)) 0).newTable

theorem pushes_arrayTable {t : α → LuaTree O} {code : α → LuaM O Unit}
    (h : ∀ a, Pushes (code a) (t a)) (xs : List α) :
    Pushes (arrayTable xs code) (array xs t) :=
  pushes_arrayTable_of_mem fun a _ => h a

theorem fills_optionalField_of_mem {t : α → LuaTree O} {code : α → LuaM O Unit} {x : Option α}
    (h : ∀ a ∈ x, Pushes (code a) (t a)) (name : String) :
    Fills (optionalField name x code) (fields [(name, x.map t)]) := by
  cases x with
  | none => exact fills_skip
  | some a => exact (h a rfl).field name

theorem fills_optionalField {t : α → LuaTree O} {code : α → LuaM O Unit} {x : Option α}
    (h : ∀ a, Pushes (code a) (t a)) (name : String) :
    Fills (optionalField name x code) (fields [(name, x.map t)]) :=
  fills_optionalField_of_mem (fun a _ => h a) name

theorem Fills.ite {c : Prop} [Decidable c] (h : Fills code entries) (hother : Fills other more) :
    Fills (if c then code else other) (if c then entries else more) := by
  by_cases hc : c
  · simpa [hc] using h
  · simpa [hc] using hother

theorem fields_append (rows rows' : List (String × Option (LuaTree O))) :
    fields (rows ++ rows') = fields rows ++ fields rows' :=
  List.filterMap_append

/-- The rule for the statements of a record, one after another. -/
theorem Fills.row {row : String × Option (LuaTree O)} {rows : List (String × Option (LuaTree O))}
    (h : Fills code (fields [row])) (hother : Fills other (fields rows)) :
    Fills (do code; other) (fields (row :: rows)) := by
  rw [← List.singleton_append, fields_append]
  exact h.seq hother

theorem fills_fieldIf {c : Prop} {_ : Decidable c} (h : Pushes code t) (name : String) :
    Fills (fieldIf c name code) (fields [(name, if c then some t else none)]) := by
  unfold fieldIf
  by_cases hc : c
  · simpa [hc] using h.field name
  · simpa [hc, fields] using fills_skip

theorem fills_fieldElse {c : Prop} {_ : Decidable c} {u : LuaTree O} (h : Pushes code t)
    (hother : Pushes other u) (name name' : String) :
    Fills (if c then field name code else field name' other)
      (fields [(name, if c then some t else none), (name', if c then none else some u)]) := by
  by_cases hc : c
  · simpa [hc, fields] using h.field name
  · simpa [hc, fields] using hother.field name'

/-- The code stops where there is a table to fill. -/
def Stops (code : LuaM O Unit) : Prop :=
  ∀ (s : Lua O) (id : Nat) (rest : List (Value O)) (before : List (FieldKey × LuaTree O)),
    s.stack = .table id :: rest → id < s.next → Holds s.tables s.next id (lookup before) →
    code s = none

theorem Stops.seq (h : Stops code) (other : LuaM O Unit) : Stops (do code; other) := by
  intro s id rest before hstack hid hholds
  change (code s).bind (fun p => other p.2) = none
  rw [h s id rest before hstack hid hholds]
  rfl

theorem Fills.stops (h : Fills code entries) (hother : Stops other) :
    Stops (do code; other) := by
  intro s id rest before hstack hid hholds
  obtain ⟨s', hrun, hstack', hnext, -, hholds'⟩ := h s id rest before hstack hid hholds
  change (code s).bind (fun p => other p.2) = none
  rw [hrun]
  exact hother s' id rest _ (hstack'.trans hstack) (by omega) hholds'

theorem stops_optionalField {x : Option α} {a : α} {code : α → LuaM O Unit} (hx : x = some a)
    (h : ∀ s, code a s = none) (name : String) : Stops (optionalField name x code) := by
  intro s id rest before hstack hid hholds
  subst hx
  change (code a s).bind (fun p => setField name p.2) = none
  rw [h]
  rfl

theorem stops_field (h : ∀ s, code s = none) (name : String) : Stops (field name code) :=
  @stops_optionalField _ _ _ () (fun _ => code) rfl h name

/-- A loop stops at the first element that cannot be stored, if it has one. -/
theorem stops_forEach {body : Nat → α → LuaM O Unit}
    {row : Nat → α → List (FieldKey × LuaTree O)} {xs : List α}
    (h : ∀ x ∈ xs, ∀ i, Fills (body i x) (row i x) ∨ Stops (body i x))
    (hstops : ∃ x ∈ xs, ∀ i, Stops (body i x)) (i : Nat) : Stops (forEach body i xs) := by
  induction xs generalizing i with
  | nil =>
      obtain ⟨x, hx, -⟩ := hstops
      cases hx
  | cons x xs ih =>
      rcases h x List.mem_cons_self i with hfills | hstop
      · obtain ⟨y, hy, hstop⟩ := hstops
        rcases List.mem_cons.mp hy with rfl | hy
        · exact (hstop i).seq _
        · refine hfills.stops (ih ?_ ⟨y, hy, hstop⟩ (i + 1))
          intro z hz
          exact h z (List.mem_cons_of_mem _ hz)
      · exact hstop.seq _

theorem Stops.newTable (h : Stops code) (s : Lua O) :
    (do TableBuilder.newTable; code : LuaM O Unit) s = none := by
  exact h { stack := .table s.next :: s.stack
            tables := Function.update s.tables s.next fun _ => .scalar .nil
            next := s.next + 1 } s.next s.stack [] rfl (Nat.lt_succ_self _)
    (holds_newTable s.tables s.next)

/-- An array with an element that cannot be pushed. -/
theorem arrayTable_stops {t : α → LuaTree O} {code : α → LuaM O Unit} {xs : List α}
    (h : ∀ a ∈ xs, Pushes (code a) (t a) ∨ ∀ s, code a s = none)
    (hstops : ∃ a ∈ xs, ∀ s, code a s = none) (s : Lua O) : arrayTable xs code s = none := by
  have hentry {a : α} (ha : ∀ s, code a s = none) (i : Nat) :
      Stops (do push (.integer (i + 1)); code a; setTable) := by
    intro s id rest before hstack hid hholds
    change (code a _).bind (fun p => setTable p.2) = none
    rw [ha]
    rfl
  have hrows : ∀ a ∈ xs, ∀ i : Nat,
      Fills (do push (.integer (i + 1)); code a; setTable) [(.index (i + 1), t a)] ∨
        Stops (do push (.integer (i + 1)); code a; setTable) := by
    intro a ha i
    rcases h a ha with hpushes | hstop
    · exact .inl (hpushes.entry (i + 1))
    · exact .inr (hentry hstop i)
  obtain ⟨a, ha, hstop⟩ := hstops
  exact Stops.newTable (stops_forEach hrows ⟨a, ha, hentry hstop⟩ 0) s

end Rules

section Equality

/-! When two tables built alike are the same, field by field. -/

variable {t : α → LuaTree O} {R : α → α → Prop} {rows rows' : List (String × Option (LuaTree O))}

/-- What stands in a field that may not be set. -/
def orNil (t : Option (LuaTree O)) : LuaTree O := t.getD (.leaf .nil)

@[simp] theorem orNil_some (t : LuaTree O) : orNil (some t) = t := rfl

@[simp] theorem orNil_none : orNil (none : Option (LuaTree O)) = .leaf .nil := rfl

theorem lookup_of_mem {entries : List (FieldKey × LuaTree O)}
    (hnodup : (entries.map Prod.fst).Nodup) {k : FieldKey} {t : LuaTree O}
    (h : (k, t) ∈ entries) : lookup entries k = t := by
  have hfound : ∃ entry, entries.reverse.find? (fun entry => entry.1 = k) = some entry := by
    rw [← Option.isSome_iff_exists, List.find?_isSome]
    exact ⟨(k, t), List.mem_reverse.mpr h, by simp⟩
  obtain ⟨entry, hentry⟩ := hfound
  have hmem := List.mem_reverse.mp (List.mem_of_find?_eq_some hentry)
  have hkey : entry.1 = k := by simpa using List.find?_some hentry
  have hsame : entry = (k, t) := List.inj_on_of_nodup_map hnodup hmem h hkey
  rw [lookup, hentry, hsame]
  rfl

theorem lookup_of_not_mem {entries : List (FieldKey × LuaTree O)} {k : FieldKey}
    (h : k ∉ entries.map Prod.fst) : lookup entries k = .leaf .nil := by
  have hnone : entries.reverse.find? (fun entry => entry.1 = k) = none := by
    rw [List.find?_eq_none]
    intro entry hentry
    simp only [decide_eq_true_eq]
    rintro rfl
    exact h (List.mem_map_of_mem (List.mem_reverse.mp hentry))
  rw [lookup, hnone]
  rfl

/-- A field that is not set is as one with nil. -/
theorem lookup_fields (hnodup : (rows.map Prod.fst).Nodup) :
    lookup (fields rows) = lookup (rows.map fun row => (.name row.1, orNil row.2)) := by
  funext k
  induction rows using List.reverseRecOn with
  | nil => rfl
  | append_singleton rows row ih =>
      obtain ⟨name, x⟩ := row
      rw [List.map_append, List.nodup_append] at hnodup
      obtain ⟨hinit, -, hnew⟩ := hnodup
      rw [fields_append, List.map_append, List.map_singleton, lookup_append_single, ← ih hinit]
      cases x with
      | some t => exact lookup_append_single (fields rows) _ _ _
      | none =>
          have hnone :
              fields rows ++ fields [(name, (none : Option (LuaTree O)))] = fields rows := by
            simp [fields]
          rw [hnone]
          split
          · rename_i hk
            subst hk
            apply lookup_of_not_mem
            intro hmem
            simp only [fields, List.mem_map, List.mem_filterMap, Option.map_eq_some_iff] at hmem
            obtain ⟨entry, ⟨row, hrow, t, -, rfl⟩, hname⟩ := hmem
            exact hnew row.1 (List.mem_map_of_mem hrow) name (by simp) (by simpa using hname)
          · rfl

/-- Two records with the same fields are the same if and only if each field is. -/
theorem record_inj (hnames : rows.map Prod.fst = rows'.map Prod.fst)
    (hnodup : (rows.map Prod.fst).Nodup) :
    record rows = record rows' ↔
      rows.map (fun row => orNil row.2) = rows'.map fun row => orNil row.2 := by
  have hnodup' : (rows'.map Prod.fst).Nodup := hnames ▸ hnodup
  rw [record, record, table, table, LuaTree.node.injEq, lookup_fields hnodup,
    lookup_fields hnodup']
  have hkeys {rows : List (String × Option (LuaTree O))} (h : (rows.map Prod.fst).Nodup) :
      ((rows.map fun row => (FieldKey.name row.1, orNil row.2)).map Prod.fst).Nodup := by
    have hmap : (rows.map fun row => (FieldKey.name row.1, orNil row.2)).map Prod.fst =
        (rows.map Prod.fst).map FieldKey.name := by simp
    rw [hmap]
    exact List.Nodup.map (fun _ _ => FieldKey.name.inj) h
  have hlength : rows.length = rows'.length := by simpa using congrArg List.length hnames
  have hname (i : Nat) (hi : i < rows.length) (hi' : i < rows'.length) :
      rows[i].1 = rows'[i].1 := by
    have h := congrArg (fun names => names[i]?) hnames
    simpa [hi, hi'] using h
  constructor
  · intro h
    apply List.ext_getElem (by simpa using hlength)
    intro i hi hi'
    rw [List.length_map] at hi hi'
    have hat := congrFun h (.name rows[i].1)
    rw [lookup_of_mem (hkeys hnodup) (List.mem_map_of_mem (List.getElem_mem hi)), hname i hi hi',
      lookup_of_mem (hkeys hnodup') (List.mem_map_of_mem (List.getElem_mem hi'))] at hat
    simpa using hat
  · intro h
    congr 1
    apply List.ext_getElem (by simpa using hlength)
    intro i hi hi'
    rw [List.length_map] at hi hi'
    have hat := congrArg (fun trees => trees[i]?) h
    simp only [List.getElem?_map, List.getElem?_eq_getElem hi, List.getElem?_eq_getElem hi',
      Option.map_some, Option.some.injEq] at hat
    simp only [List.getElem_map, hname i hi hi', hat]

theorem lookup_array (xs : List α) (i : Nat) :
    lookup (xs.zipIdx.map fun x => (FieldKey.index (x.2 + 1), t x.1)) (.index (i + 1)) =
      orNil (xs[i]?.map t) := by
  cases hi : xs[i]? with
  | some a =>
      refine lookup_of_mem ?_ (List.mem_map.mpr ⟨(a, i), ?_, rfl⟩)
      · have hkeys : (xs.zipIdx.map fun x => (FieldKey.index (x.2 + 1), t x.1)).map Prod.fst =
            (xs.zipIdx.map Prod.snd).map fun i : Nat => FieldKey.index (i + 1) := by
          rw [List.map_map, List.map_map]
          rfl
        rw [hkeys, List.zipIdx_map_snd]
        refine List.Nodup.map ?_ List.nodup_range'
        intro i j hij
        have hsucc := FieldKey.index.inj hij
        omega
      · exact List.mem_zipIdx_iff_getElem?.mpr hi
  | none =>
      apply lookup_of_not_mem
      simp only [List.map_map, List.mem_map, Prod.exists, not_exists, not_and]
      intro a j hj hkey
      have hsucc := FieldKey.index.inj hkey
      obtain rfl : j = i := by omega
      rw [List.mem_zipIdx_iff_getElem?.mp hj] at hi
      cases hi

theorem lookup_array_other (xs : List α) {k : FieldKey} (hk : ∀ i : Nat, k ≠ .index (i + 1)) :
    lookup (xs.zipIdx.map fun x => (FieldKey.index (x.2 + 1), t x.1)) k = .leaf .nil := by
  apply lookup_of_not_mem
  simp only [List.map_map, List.mem_map, Prod.exists, not_exists, not_and]
  intro a j _ hkey
  exact hk j hkey.symm

/-- An array tells each of its elements that is not nil. -/
theorem array_inj {β : Type} {u : β → LuaTree O} {xs : List α} {ys : List β} :
    array xs t = array ys u ↔ ∀ i : Nat, orNil (xs[i]?.map t) = orNil (ys[i]?.map u) := by
  rw [array, array, table, table, LuaTree.node.injEq]
  constructor
  · intro h i
    have hat := congrFun h (.index (i + 1))
    rwa [lookup_array, lookup_array] at hat
  · intro h
    funext k
    by_cases hk : ∃ i : Nat, k = .index (i + 1)
    · obtain ⟨i, rfl⟩ := hk
      rw [lookup_array, lookup_array, h i]
    · push Not at hk
      rw [lookup_array_other xs hk, lookup_array_other ys hk]

theorem option_eq_iff (hnil : ∀ a, t a ≠ .leaf .nil) (hiff : ∀ a b, t a = t b ↔ R a b)
    {x y : Option α} : orNil (x.map t) = orNil (y.map t) ↔ Option.Rel R x y := by
  cases x <;> cases y <;> simp [hnil, hiff, Ne.symm (hnil _)]

/-- The same where a value tells what `f` gives of an element. -/
theorem option_eq_iff_map {β : Type} {f : α → β} (hnil : ∀ a, t a ≠ .leaf .nil)
    (hiff : ∀ a b, t a = t b ↔ f a = f b) {x y : Option α} :
    orNil (x.map t) = orNil (y.map t) ↔ x.map f = y.map f := by
  cases x <;> cases y <;> simp [hnil, hiff, Ne.symm (hnil _)]

theorem option_eq_iff_eq (hnil : ∀ a, t a ≠ .leaf .nil) (hiff : ∀ a b, t a = t b ↔ a = b)
    {x y : Option α} : orNil (x.map t) = orNil (y.map t) ↔ x = y := by
  cases x <;> cases y <;> simp [hnil, hiff, Ne.symm (hnil _)]

theorem array_eq_iff (hnil : ∀ a, t a ≠ .leaf .nil) (hiff : ∀ a b, t a = t b ↔ R a b)
    {xs ys : List α} : array xs t = array ys t ↔ List.Forall₂ R xs ys := by
  rw [array_inj]
  simp only [option_eq_iff hnil hiff]
  induction xs generalizing ys with
  | nil =>
      cases ys with
      | nil => simp
      | cons y ys =>
          refine iff_of_false ?_ (by simp)
          intro h
          cases h 0
  | cons x xs ih =>
      cases ys with
      | nil =>
          refine iff_of_false ?_ (by simp)
          intro h
          cases h 0
      | cons y ys =>
          rw [List.forall₂_cons, ← ih]
          constructor
          · intro h
            refine ⟨?_, fun i => h (i + 1)⟩
            cases h 0 with
            | some hxy => exact hxy
          · rintro ⟨hxy, h⟩ i
            cases i with
            | zero => exact .some hxy
            | succ i => exact h i

theorem array_eq_iff_eq (hnil : ∀ a, t a ≠ .leaf .nil) (hiff : ∀ a b, t a = t b ↔ a = b)
    {xs ys : List α} : array xs t = array ys t ↔ xs = ys := by
  rw [array_eq_iff hnil hiff, List.forall₂_eq_eq_eq]

/-- An array that is only there if it has elements. -/
theorem orNil_array {xs ys : List α} : orNil (if xs ≠ [] then some (array xs t) else none) =
      orNil (if ys ≠ [] then some (array ys t) else none) ↔
    (xs = [] ↔ ys = []) ∧ array xs t = array ys t := by
  by_cases hx : xs = [] <;> by_cases hy : ys = [] <;> simp [hx, hy, array, table]

theorem orNil_array_iff (hnil : ∀ a, t a ≠ .leaf .nil) (hiff : ∀ a b, t a = t b ↔ R a b)
    {xs ys : List α} : orNil (if xs ≠ [] then some (array xs t) else none) =
      orNil (if ys ≠ [] then some (array ys t) else none) ↔ List.Forall₂ R xs ys := by
  rw [orNil_array, array_eq_iff hnil hiff]
  constructor
  · exact fun h => h.2
  · intro h
    refine ⟨?_, h⟩
    rw [← List.length_eq_zero_iff, ← List.length_eq_zero_iff, h.length_eq]

end Equality

end LuaMumble.Lib.TableBuilder
