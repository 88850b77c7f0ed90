import Mathlib.Data.Set.Card
import Mathlib.Order.Lattice.Nat

/-!
Tables that are used through `luaL_ref` and `luaL_unref` alone. A reference is the integer that a
value is stored under. The references that were given back hang together in the table itself:
entry 0 has the first of them, and the entry of each has the next one. The list ends where an
entry is nil, which the first reference that is given back to a new table makes it.
-/

namespace LuaMumble.Lib

/-- An entry: nil, an integer that `luaL_unref` wrote, or a value. -/
inductive Slot (V : Type*) where
  | absent
  | number (n : Int)
  | value (v : V)

/-- `lua_tointeger` -/
def Slot.toInteger {V : Type*} : Slot V → Int
  | .number n => n
  | _ => 0

def Slot.value? {V : Type*} : Slot V → Option V
  | .value v => some v
  | _ => none

/-- The entries under the integers. -/
abbrev RefTable (V : Type*) := Int → Slot V

/-- `LUA_NOREF` and `LUA_REFNIL` -/
def noRef : Int := -2

def refNil : Int := -1

namespace RefTable

variable {V : Type*}

def empty : RefTable V := fun _ => .absent

/-- What the manual promises of `lua_objlen`: some `n` whose entry is not nil, or 0, with the
next entry nil. -/
def IsBorder (t : RefTable V) (n : Nat) : Prop :=
  (n = 0 ∨ t n ≠ .absent) ∧ t (n + 1) = .absent

/-- `lua_objlen`, which may choose among the borders of a table. -/
structure Objlen (V : Type*) where
  length : RefTable V → Nat
  border : ∀ (t : RefTable V) (n : Nat), (∀ r : Int, n < r → t r = .absent) →
    t.IsBorder (length t)

/-- The first free reference is taken off the list and used. -/
def reuse (t : RefTable V) (first : Int) (v : V) : RefTable V :=
  Function.update (Function.update t 0 (t first)) first (.value v)

/-- A new reference behind the last one. -/
def extend (t : RefTable V) (length : Nat) (v : V) : RefTable V :=
  Function.update t (length + 1) (.value v)

/-- `luaL_ref` of a value, or of nil. -/
def ref (objlen : Objlen V) (t : RefTable V) : Option V → Int × RefTable V
  | none => (refNil, t)
  | some v =>
      let first := (t 0).toInteger
      if first ≠ 0 then (first, t.reuse first v)
      else (objlen.length t + 1, t.extend (objlen.length t) v)

/-- `luaL_unref` -/
def unref (t : RefTable V) (r : Int) : RefTable V :=
  if 0 ≤ r then Function.update (Function.update t r (t 0)) 0 (.number r) else t

/-- The list that starts in the entry `i`. -/
def Linked (t : RefTable V) : Int → List Int → Prop
  | i, [] => t i = .absent
  | i, r :: rest => t i = .number r ∧ Linked t r rest

/-- The references up to `n` are in use or on the list of the free ones, and nothing else is in
the table. -/
structure Kept (t : RefTable V) (free : List Int) (n : Nat) : Prop where
  linked : t.Linked 0 free
  nodup : free.Nodup
  range : ∀ r ∈ free, 1 ≤ r ∧ r ≤ n
  used : ∀ r : Int, 1 ≤ r → r ≤ n → r ∉ free → ∃ v, t r = .value v
  outside : ∀ r : Int, r < 0 ∨ n < r → t r = .absent

theorem kept_empty : Kept (empty : RefTable V) [] 0 where
  linked := rfl
  nodup := List.nodup_nil
  range := by simp
  used := by
    intro r hone hzero
    have hnone : ¬ (1 ≤ r ∧ r ≤ ((0 : Nat) : Int)) := by omega
    exact absurd ⟨hone, hzero⟩ hnone
  outside := fun _ _ => rfl

section Lists

variable {t : RefTable V} {free : List Int} {i : Int}

/-- A list is found again where nothing of its entries has changed. -/
theorem Linked.congr {t' : RefTable V} (h : t.Linked i free) (hi : t' i = t i)
    (hsame : ∀ r ∈ free, t' r = t r) : t'.Linked i free := by
  induction free generalizing i with
  | nil => exact hi.trans h
  | cons r rest ih =>
      obtain ⟨hr, hrest⟩ := h
      refine ⟨hi.trans hr, ih hrest (hsame r List.mem_cons_self) ?_⟩
      intro s hs
      exact hsame s (List.mem_cons_of_mem _ hs)

/-- An entry of the list has no value. -/
theorem Linked.value?_eq_none (h : t.Linked i free) : (t i).value? = none := by
  cases free with
  | nil => rw [show t i = .absent from h]; rfl
  | cons r rest => rw [h.1]; rfl

theorem Linked.value?_of_mem (h : t.Linked i free) {r : Int} (hr : r ∈ free) :
    (t r).value? = none := by
  induction free generalizing i with
  | nil => simp at hr
  | cons s rest ih =>
      rcases List.mem_cons.mp hr with rfl | hr
      · exact h.2.value?_eq_none
      · exact ih h.2 hr

end Lists

namespace Kept

variable {t : RefTable V} {free : List Int} {n : Nat}

theorem value?_zero (h : Kept t free n) : (t 0).value? = none := h.linked.value?_eq_none

/-- What has a value is in range and not free. -/
theorem of_value? (h : Kept t free n) {r : Int} {v : V} (hr : (t r).value? = some v) :
    1 ≤ r ∧ r ≤ n ∧ r ∉ free := by
  have hzero : r ≠ 0 := by
    rintro rfl
    rw [h.value?_zero] at hr
    cases hr
  have hinside : ¬ (r < 0 ∨ (n : Int) < r) := by
    intro houtside
    rw [h.outside r houtside] at hr
    cases hr
  refine ⟨by omega, by omega, ?_⟩
  intro hfree
  rw [h.linked.value?_of_mem hfree] at hr
  cases hr

/-- Where no reference is free, the table has one border. -/
theorem length_eq (h : Kept t [] n) (objlen : Objlen V) : objlen.length t = n := by
  obtain ⟨hlast, hnext⟩ := objlen.border t n fun r hr => h.outside r (.inr hr)
  have hle : objlen.length t ≤ n := by
    rcases hlast with hzero | hlast
    · omega
    · by_contra hgt
      exact hlast (h.outside _ (.inr (by omega)))
  by_contra hne
  have hlt : objlen.length t < n := by omega
  obtain ⟨v, hv⟩ := h.used (objlen.length t + 1) (by omega) (by omega) (by simp)
  rw [hv] at hnext
  cases hnext

/-- What `luaL_ref` does where the list has a first reference, and where it has none. -/
theorem ref_cases (h : Kept t free n) (objlen : Objlen V) (v : V) :
    (∃ r rest, free = r :: rest ∧ RefTable.ref objlen t (some v) = (r, t.reuse r v)) ∨
    (free = [] ∧ RefTable.ref objlen t (some v) = ((n : Int) + 1, t.extend n v)) := by
  cases free with
  | nil =>
      refine .inr ⟨rfl, ?_⟩
      have hfirst : t 0 = .absent := h.linked
      simp [RefTable.ref, hfirst, Slot.toInteger, h.length_eq objlen]
  | cons r rest =>
      refine .inl ⟨r, rest, rfl, ?_⟩
      have hfirst : t 0 = .number r := h.linked.1
      have hne : r ≠ 0 := by
        have hrange := h.range r List.mem_cons_self
        omega
      simp [RefTable.ref, hfirst, Slot.toInteger, hne]

theorem reuse {r : Int} {rest : List Int} (h : Kept t (r :: rest) n) (v : V) :
    Kept (t.reuse r v) rest n ∧
      ∀ s, (t.reuse r v s).value? = if s = r then some v else (t s).value? := by
  have hrange := h.range r List.mem_cons_self
  have hzero : (0 : Int) ≠ r := by omega
  have hnotin : r ∉ rest := (List.nodup_cons.mp h.nodup).1
  have hat : t.reuse r v r = .value v := Function.update_self ..
  have hfirst : t.reuse r v 0 = t r := by
    rw [RefTable.reuse, Function.update_of_ne hzero, Function.update_self]
  have hother : ∀ s, s ≠ r → s ≠ 0 → t.reuse r v s = t s := by
    intro s hsr hs0
    rw [RefTable.reuse, Function.update_of_ne hsr, Function.update_of_ne hs0]
  have hrest : ∀ s ∈ rest, t.reuse r v s = t s := by
    intro s hs
    have hsrange := h.range s (List.mem_cons_of_mem _ hs)
    exact hother s (fun hsr => hnotin (hsr ▸ hs)) (by omega)
  constructor
  · constructor
    · have hlinked : Linked t r rest := h.linked.2
      cases rest with
      | nil => exact hfirst.trans hlinked
      | cons s rest =>
          refine ⟨hfirst.trans hlinked.1, hlinked.2.congr (hrest s List.mem_cons_self) ?_⟩
          intro x hx
          exact hrest x (List.mem_cons_of_mem _ hx)
    · exact (List.nodup_cons.mp h.nodup).2
    · intro s hs
      exact h.range s (List.mem_cons_of_mem _ hs)
    · intro s hone hn hs
      by_cases hsr : s = r
      · exact ⟨v, hsr ▸ hat⟩
      · rw [hother s hsr (by omega)]
        exact h.used s hone hn (by simp [hsr, hs])
    · intro s hs
      rw [hother s (by omega) (by omega)]
      exact h.outside s hs
  · intro s
    by_cases hsr : s = r
    · rw [if_pos hsr, hsr, hat]
      rfl
    · rw [if_neg hsr]
      by_cases hs0 : s = 0
      · rw [hs0, hfirst, h.value?_zero, h.linked.value?_of_mem List.mem_cons_self]
      · rw [hother s hsr hs0]

theorem extend (h : Kept t [] n) (v : V) :
    Kept (t.extend n v) [] (n + 1) ∧
      ∀ s, (t.extend n v s).value? = if s = n + 1 then some v else (t s).value? := by
  have hat : t.extend n v (n + 1) = .value v := Function.update_self ..
  have hother : ∀ s, s ≠ (n : Int) + 1 → t.extend n v s = t s :=
    fun s hs => Function.update_of_ne hs _ _
  constructor
  · constructor
    · exact (hother 0 (by omega)).trans h.linked
    · exact List.nodup_nil
    · simp
    · intro s hone hn _
      by_cases hs : s = n + 1
      · exact ⟨v, hs ▸ hat⟩
      · rw [hother s hs]
        exact h.used s hone (by omega) (by simp)
    · intro s hs
      rw [hother s (by omega)]
      exact h.outside s (by omega)
  · intro s
    by_cases hs : s = n + 1
    · rw [if_pos hs, hs, hat]
      rfl
    · rw [if_neg hs, hother s hs]

/-- Where no reference is free, `luaL_ref` takes the next one. -/
theorem ref_next (h : Kept t [] n) (objlen : Objlen V) (v : V) :
    RefTable.ref objlen t (some v) = ((n : Int) + 1, t.extend n v) ∧
      Kept (t.extend n v) [] (n + 1) := by
  rcases h.ref_cases objlen v with ⟨r, rest, hfree, -⟩ | ⟨-, heq⟩
  · cases hfree
  · exact ⟨heq, (h.extend v).1⟩

/-- A new reference was not in use, and every other one keeps what it refers to. The table grows
only where no reference is free. -/
theorem ref (h : Kept t free n) (objlen : Objlen V) (v : V) :
    ∃ r t' n', RefTable.ref objlen t (some v) = (r, t') ∧ Kept t' free.tail n' ∧
      1 ≤ r ∧ (t r).value? = none ∧ (n' = n ∧ free ≠ [] ∨ free = [] ∧ n' = n + 1) ∧
      ∀ s, (t' s).value? = if s = r then some v else (t s).value? := by
  rcases h.ref_cases objlen v with ⟨r, rest, rfl, heq⟩ | ⟨rfl, heq⟩
  · obtain ⟨hkept, hvalues⟩ := h.reuse v
    exact ⟨r, _, n, heq, hkept, (h.range r List.mem_cons_self).1,
      h.linked.value?_of_mem List.mem_cons_self, .inl ⟨rfl, by simp⟩, hvalues⟩
  · obtain ⟨hkept, hvalues⟩ := h.extend v
    have hfresh : (t (n + 1)).value? = none := by
      rw [h.outside _ (.inr (by omega))]
      rfl
    exact ⟨_, _, n + 1, heq, hkept, by omega, hfresh, .inr ⟨rfl, rfl⟩, hvalues⟩

/-- A reference in use that is given back becomes the first of the free ones. -/
theorem unref (h : Kept t free n) {r : Int} {v : V} (hr : (t r).value? = some v) :
    Kept (unref t r) (r :: free) n ∧
      ∀ s, ((unref t r) s).value? = if s = r then none else (t s).value? := by
  obtain ⟨hone, hn, hfree⟩ := h.of_value? hr
  have hnonneg : (0 : Int) ≤ r := by omega
  have hzero : r ≠ 0 := by omega
  have heq : RefTable.unref t r =
      Function.update (Function.update t r (t 0)) 0 (.number r) := by
    rw [RefTable.unref, if_pos hnonneg]
  have hother : ∀ s, s ≠ r → s ≠ 0 → RefTable.unref t r s = t s := by
    intro s hsr hs0
    rw [heq, Function.update_of_ne hs0, Function.update_of_ne hsr]
  have hat : RefTable.unref t r r = t 0 := by
    rw [heq, Function.update_of_ne hzero, Function.update_self]
  constructor
  · constructor
    · refine ⟨by rw [heq, Function.update_self], ?_⟩
      have hsame : ∀ s ∈ free, RefTable.unref t r s = t s := by
        intro s hs
        have hrange := h.range s hs
        exact hother s (fun hsr => hfree (hsr ▸ hs)) (by omega)
      cases free with
      | nil => exact hat.trans h.linked
      | cons s rest =>
          have hlinked := h.linked
          refine ⟨hat.trans hlinked.1, hlinked.2.congr (hsame s List.mem_cons_self) ?_⟩
          intro x hx
          exact hsame x (List.mem_cons_of_mem _ hx)
    · exact List.nodup_cons.mpr ⟨hfree, h.nodup⟩
    · intro s hs
      rcases List.mem_cons.mp hs with rfl | hs
      · exact ⟨hone, hn⟩
      · exact h.range s hs
    · intro s hsone hsn hs
      rw [List.mem_cons, not_or] at hs
      rw [hother s hs.1 (by omega)]
      exact h.used s hsone hsn hs.2
    · intro s hs
      rw [hother s (by omega) (by omega)]
      exact h.outside s hs
  · intro s
    by_cases hsr : s = r
    · rw [if_pos hsr, hsr, hat, h.value?_zero]
    · rw [if_neg hsr]
      by_cases hs0 : s = 0
      · rw [hs0, heq, Function.update_self, h.value?_zero]
        rfl
      · rw [hother s hsr hs0]

end Kept

section Names

variable {X : Type*} {t : RefTable V} {names : Set X} {r : X → Int} {o : X → Option V}

/-- Names keep their objects in the table: each object is found under the reference of its name,
and no two names share a reference. -/
structure Serves (t : RefTable V) (names : Set X) (r : X → Int) (o : X → Option V) : Prop where
  kept : ∃ free n, t.Kept free n
  reads : ∀ x ∈ names, ∀ v, o x = some v → (t (r x)).value? = some v
  apart : ∀ x ∈ names, ∀ y ∈ names, x ≠ y → (o x).isSome → (o y).isSome → r x ≠ r y

/-- Only the names that hold something matter: the table serves any that hold what they did. -/
theorem Serves.mono (h : t.Serves names r o) {names' : Set X} {r' : X → Int} {o' : X → Option V}
    (hkeeps : ∀ x ∈ names', ∀ v, o' x = some v → x ∈ names ∧ r' x = r x ∧ o x = some v) :
    t.Serves names' r' o' where
  kept := h.kept
  reads := by
    intro x hx v hv
    obtain ⟨hmem, href, hold⟩ := hkeeps x hx v hv
    rw [href]
    exact h.reads x hmem v hold
  apart := by
    intro x hx y hy hne hsome hsome'
    obtain ⟨v, hv⟩ := Option.isSome_iff_exists.mp hsome
    obtain ⟨w, hw⟩ := Option.isSome_iff_exists.mp hsome'
    obtain ⟨hmem, href, hold⟩ := hkeeps x hx v hv
    obtain ⟨hmem', href', hold'⟩ := hkeeps y hy w hw
    rw [href, href']
    exact h.apart x hmem y hmem' hne (by simp [hold]) (by simp [hold'])

variable [DecidableEq X]

/-- A name that holds nothing afterwards may have any reference. -/
theorem Serves.drop (h : t.Serves names r o) (x : X) (ref : Int) :
    t.Serves names (Function.update r x ref) (Function.update o x none) := by
  apply h.mono
  intro y hy v hv
  have hyx : y ≠ x := by
    rintro rfl
    simp at hv
  rw [Function.update_of_ne hyx] at hv
  exact ⟨hy, Function.update_of_ne hyx _ _, hv⟩

/-- A name hands what it holds to another one. -/
theorem Serves.move (h : t.Serves names r o) {x : X} (hx : x ∈ names) (y : X) (ref : Int) :
    t.Serves names (Function.update (Function.update r y (r x)) x ref)
      (Function.update (Function.update o y (o x)) x none) := by
  -- Behind the move `y` is the old `x`, and nobody is `x`.
  have hold : ∀ z v, Function.update (Function.update o y (o x)) x none z = some v →
      z ≠ x ∧ o (if z = y then x else z) = some v ∧
        Function.update (Function.update r y (r x)) x ref z = r (if z = y then x else z) := by
    intro z v hv
    have hzx : z ≠ x := by
      rintro rfl
      simp at hv
    rw [Function.update_of_ne hzx] at hv ⊢
    by_cases hzy : z = y
    · subst hzy
      simpa [hzx] using hv
    · simpa [hzx, hzy] using hv
  have hmem : ∀ z ∈ names, (if z = y then x else z) ∈ names := by
    intro z hz
    split
    · exact hx
    · exact hz
  constructor
  · exact h.kept
  · intro z hz v hv
    obtain ⟨-, hv, href⟩ := hold z v hv
    rw [href]
    exact h.reads _ (hmem z hz) v hv
  · intro z hz w hw hne hsome hsome'
    obtain ⟨v, hv⟩ := Option.isSome_iff_exists.mp hsome
    obtain ⟨v', hv'⟩ := Option.isSome_iff_exists.mp hsome'
    obtain ⟨hzx, hv, href⟩ := hold z v hv
    obtain ⟨hwx, hv', href'⟩ := hold w v' hv'
    rw [href, href']
    apply h.apart _ (hmem z hz) _ (hmem w hw)
    · by_cases hzy : z = y
      · have hwy : w ≠ y := fun hwy => hne (hzy.trans hwy.symm)
        rw [if_pos hzy, if_neg hwy]
        exact hwx.symm
      · rw [if_neg hzy]
        split
        · exact hzx
        · exact hne
    · simp [hv]
    · simp [hv']

/-- A name takes a reference to an object, whatever it held before. -/
theorem Serves.ref (h : t.Serves names r o) (objlen : Objlen V) (x : X) (v : V) :
    (ref objlen t (some v)).2.Serves names
      (Function.update r x (ref objlen t (some v)).1) (Function.update o x (some v)) := by
  obtain ⟨free, n, hkept⟩ := h.kept
  obtain ⟨s, t', n', heq, hkept', -, hfresh, -, hvalues⟩ := hkept.ref objlen v
  rw [heq]
  have hother : ∀ y ∈ names, (o y).isSome → r y ≠ s := by
    intro y hy hsome hys
    obtain ⟨w, hw⟩ := Option.isSome_iff_exists.mp hsome
    have hread := h.reads y hy w hw
    rw [hys, hfresh] at hread
    cases hread
  constructor
  · exact ⟨free.tail, n', hkept'⟩
  · intro y hy w hw
    rw [hvalues]
    by_cases hyx : y = x
    · subst hyx
      rw [Function.update_self] at hw ⊢
      rw [if_pos rfl, hw]
    · rw [Function.update_of_ne hyx] at hw ⊢
      rw [if_neg (hother y hy (by simp [hw]))]
      exact h.reads y hy w hw
  · intro y hy z hz hne hsome hsome'
    by_cases hyx : y = x
    · have hzx : z ≠ x := fun hzx => hne (hyx.trans hzx.symm)
      rw [Function.update_of_ne hzx] at hsome' ⊢
      rw [hyx, Function.update_self]
      exact (hother z hz hsome').symm
    · rw [Function.update_of_ne hyx] at hsome ⊢
      by_cases hzx : z = x
      · rw [hzx, Function.update_self]
        exact hother y hy hsome
      · rw [Function.update_of_ne hzx] at hsome' ⊢
        exact h.apart y hy z hz hne hsome hsome'

/-- A name gives its reference back. -/
theorem Serves.unref (h : t.Serves names r o) {x : X} (hx : x ∈ names) {v : V}
    (hv : o x = some v) (ref : Int) :
    (t.unref (r x)).Serves names (Function.update r x ref) (Function.update o x none) := by
  obtain ⟨free, n, hkept⟩ := h.kept
  obtain ⟨hkept', hvalues⟩ := hkept.unref (h.reads x hx v hv)
  have hdrop := h.drop x ref
  refine ⟨⟨_, n, hkept'⟩, ?_, hdrop.apart⟩
  intro y hy w hw
  have hyx : y ≠ x := by
    rintro rfl
    simp at hw
  rw [hvalues, Function.update_of_ne hyx]
  rw [Function.update_of_ne hyx] at hw
  rw [if_neg (h.apart y hy x hx hyx (by simp [hw]) (by simp [hv]))]
  exact h.reads y hy w hw

/-- Giving back a reference that was never taken does nothing. -/
theorem unref_of_neg (t : RefTable V) {ref : Int} (href : ref < 0) : t.unref ref = t := by
  rw [RefTable.unref, if_neg (by omega)]

/-- The table besides is no longer than it has to be: as long as there were names with objects
at the same time, of which there were never more than `m`. -/
structure Thrifty (t : RefTable V) (names : Set X) (r : X → Int) (o : X → Option V) (m : Nat) :
    Prop extends Serves t names r o where
  bounded : ∃ free n, ∃ used : Finset X, t.Kept free n ∧
    (∀ x, x ∈ used ↔ x ∈ names ∧ (o x).isSome) ∧ n = free.length + used.card ∧ n ≤ m

omit [DecidableEq X] in
/-- A reference in use is one of the first `m`. -/
theorem Thrifty.reference_le {m : Nat} (h : t.Thrifty names r o m) {x : X} (hx : x ∈ names)
    (hsome : (o x).isSome) : 1 ≤ r x ∧ r x ≤ m := by
  obtain ⟨free, n, used, hkept, -, -, hm⟩ := h.bounded
  obtain ⟨v, hv⟩ := Option.isSome_iff_exists.mp hsome
  obtain ⟨hone, hn, -⟩ := hkept.of_value? (h.reads x hx v hv)
  omega

omit [DecidableEq X] in
/-- Only the names that hold something matter, as long as they are the same. -/
theorem Thrifty.congr {m : Nat} (h : t.Thrifty names r o m) {names' : Set X} {r' : X → Int}
    {o' : X → Option V}
    (hsame : ∀ x v, x ∈ names' ∧ o' x = some v ↔ x ∈ names ∧ o x = some v)
    (hr : ∀ x ∈ names', (o' x).isSome → r' x = r x) : t.Thrifty names' r' o' m := by
  obtain ⟨free, n, used, hkept, hused, hn, hm⟩ := h.bounded
  refine ⟨h.toServes.mono ?_, free, n, used, hkept, ?_, hn, hm⟩
  · intro x hx v hv
    obtain ⟨hmem, hold⟩ := (hsame x v).mp ⟨hx, hv⟩
    exact ⟨hmem, hr x hx (by simp [hv]), hold⟩
  · intro x
    simp only [hused, Option.isSome_iff_exists, ← exists_and_left, hsame]

/-- A name that holds nothing may be given any reference that is not one. -/
theorem Thrifty.drop {m : Nat} (h : t.Thrifty names r o m) {x : X} (hx : o x = none)
    (ref : Int) : t.Thrifty names (Function.update r x ref) (Function.update o x none) m := by
  refine ⟨h.toServes.drop x ref, ?_⟩
  have hsame : Function.update o x none = o := by
    rw [← hx]
    exact Function.update_eq_self x o
  rw [hsame]
  exact h.bounded

/-- A name that holds nothing is handed what another one holds. -/
theorem Thrifty.move {m : Nat} (h : t.Thrifty names r o m) {x y : X} (hx : x ∈ names)
    (hy : y ∈ names) (hnone : o y = none) (ref : Int) :
    t.Thrifty names (Function.update (Function.update r y (r x)) x ref)
      (Function.update (Function.update o y (o x)) x none) m := by
  cases hv : o x with
  | none =>
      have hsame : Function.update (Function.update o y none) x none = o := by
        funext z
        by_cases hzx : z = x
        · rw [hzx, Function.update_self, hv]
        · rw [Function.update_of_ne hzx]
          by_cases hzy : z = y
          · rw [hzy, Function.update_self, hnone]
          · rw [Function.update_of_ne hzy]
      rw [hsame]
      apply h.congr
      · exact fun _ _ => Iff.rfl
      · intro z hz hsome
        have hzx : z ≠ x := by
          rintro rfl
          simp [hv] at hsome
        have hzy : z ≠ y := by
          rintro rfl
          simp [hnone] at hsome
        rw [Function.update_of_ne hzx, Function.update_of_ne hzy]
  | some v =>
      have hne : x ≠ y := by
        rintro rfl
        rw [hv] at hnone
        cases hnone
      obtain ⟨free, n, used, hkept, hused, hn, hm⟩ := h.bounded
      have hin : x ∈ used := (hused x).mpr ⟨hx, by simp [hv]⟩
      have hout : y ∉ used := by
        rw [hused, hnone]
        simp
      have hmoved := h.toServes.move hx y ref
      rw [hv] at hmoved
      refine ⟨hmoved, free, n, insert y (used.erase x), hkept, ?_, ?_, hm⟩
      · intro z
        rw [Finset.mem_insert, Finset.mem_erase, hused]
        by_cases hzx : z = x
        · simp [hzx, hne]
        · by_cases hzy : z = y
          · simp [hzy, hne.symm, hy]
          · simp [hzx, hzy]
      · have hnotin : y ∉ used.erase x := fun hmem => hout (Finset.mem_of_mem_erase hmem)
        have hcard := Finset.card_erase_add_one hin
        rw [Finset.card_insert_of_notMem hnotin]
        omega

/-- A name that holds nothing takes a reference, and there are not too many names that hold
something then. -/
theorem Thrifty.ref {m : Nat} (h : t.Thrifty names r o m) (objlen : Objlen V) {x : X}
    (hx : x ∈ names) (hnone : o x = none) (v : V)
    (hcount : ({y | y ∈ names ∧ (Function.update o x (some v) y).isSome} : Set X).encard ≤ m) :
    (ref objlen t (some v)).2.Thrifty names
      (Function.update r x (ref objlen t (some v)).1) (Function.update o x (some v)) m := by
  obtain ⟨free, n, used, hkept, hused, hn, hm⟩ := h.bounded
  obtain ⟨s, t', n', heq, hkept', -, -, hgrow, -⟩ := hkept.ref objlen v
  refine ⟨h.toServes.ref objlen x v, ?_⟩
  have hnotin : x ∉ used := by
    rw [hused, hnone]
    simp
  have hinsert : ∀ y, y ∈ insert x used ↔
      y ∈ names ∧ (Function.update o x (some v) y).isSome := by
    intro y
    rw [Finset.mem_insert, hused]
    by_cases hyx : y = x
    · simp [hyx, hx]
    · simp [hyx]
  have hcard : (insert x used).card = used.card + 1 := Finset.card_insert_of_notMem hnotin
  have hle : (insert x used).card ≤ m := by
    have hset : ({y | y ∈ names ∧ (Function.update o x (some v) y).isSome} : Set X) =
        ↑(insert x used) := by
      ext y
      exact (hinsert y).symm
    rw [hset, Set.encard_coe_eq_coe_finsetCard] at hcount
    exact_mod_cast hcount
  rw [heq]
  refine ⟨free.tail, n', insert x used, hkept', hinsert, ?_⟩
  rcases hgrow with ⟨rfl, hfree⟩ | ⟨rfl, rfl⟩
  · cases free with
    | nil => exact absurd rfl hfree
    | cons r rest =>
        simp only [List.length_cons, List.tail_cons] at hn ⊢
        omega
  · simp only [List.length_nil, List.tail_nil] at hn ⊢
    omega

theorem Thrifty.unref {m : Nat} (h : t.Thrifty names r o m) {x : X} (hx : x ∈ names) {v : V}
    (hv : o x = some v) (ref : Int) :
    (t.unref (r x)).Thrifty names (Function.update r x ref) (Function.update o x none) m := by
  obtain ⟨free, n, used, hkept, hused, hn, hm⟩ := h.bounded
  have hin : x ∈ used := (hused x).mpr ⟨hx, by simp [hv]⟩
  obtain ⟨hkept', -⟩ := hkept.unref (h.reads x hx v hv)
  refine ⟨h.toServes.unref hx hv ref, r x :: free, n, used.erase x, hkept', ?_, ?_, hm⟩
  · intro y
    rw [Finset.mem_erase, hused]
    by_cases hyx : y = x
    · simp [hyx]
    · simp [hyx]
  · have hcard := Finset.card_erase_add_one hin
    rw [List.length_cons]
    omega

end Names

/-- A choice among the borders: the first one. -/
noncomputable def firstBorder (V : Type*) : Objlen V where
  length t := sInf {n : Nat | t (n + 1) = .absent}
  border := by
    intro t n houtside
    have hsome : ({n : Nat | t (n + 1) = .absent}).Nonempty := ⟨n, houtside _ (by omega)⟩
    refine ⟨?_, Nat.sInf_mem hsome⟩
    by_contra hnot
    rw [not_or, not_not] at hnot
    obtain ⟨hzero, hlast⟩ := hnot
    obtain ⟨k, hk⟩ := Nat.exists_eq_succ_of_ne_zero hzero
    have hmem : k ∈ {n : Nat | t (n + 1) = .absent} := by
      rw [hk] at hlast
      exact_mod_cast hlast
    have hle := Nat.sInf_le hmem
    omega

end RefTable

end LuaMumble.Lib
