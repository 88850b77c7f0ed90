import LuaMumble.Registry.Handles

/-!
The data that scripts keep with users and channels. A script may assign any field of such an
object; the fields go to a table of the object's own, which stands in `MUMBLE_DATA_REG`. A field
that was not assigned, or was assigned nil, is looked up among the methods.
-/

namespace LuaMumble.Registry

open Lib

/-- The tables of the scripts by number, with their fields, and how many have been made. -/
structure ScriptState (Key Val : Type) where
  registry : State Nat Nat
  created : Nat
  fields : Nat → Key → Option Val

/-- What happens to an object: it is made, a script assigns or reads a field of it, or it is
collected. Objects are users and channels, by number. -/
inductive ScriptEvent (Key Val : Type) where
  | make (object : Nat)
  | newindex (object : Nat) (key : Option Key) (value : Option Val)
  | index (object : Nat) (key : Option Key)
  | gc (object : Nat)

/-- What a script sees. A value is `none` where it is nil. -/
inductive ScriptOutput (Val : Type) where
  | nothing
  | pushed (value : Option Val)
  /-- An error: nil is no key. -/
  | nilKey
  /-- An error: what stands in the registry is not a table. -/
  | notTable
  deriving DecidableEq

def ScriptOutput.of {Val : Type} : Output Nat → ScriptOutput Val
  | .nothing => .nothing
  | _ => .notTable

section Functions

variable {Key Val : Type} [DecidableEq Key] (objlen : RefTable.Objlen (Object Nat))
variable (methods : Nat → Key → Option Val)

/-- `user->data` and `channel->data` are references in `MUMBLE_DATA_REG`. -/
def dataHome : Nat → Option (Name Nat) := fun _ => some (.global .dataReg)

/-- The part of `mumble_user_get` and `mumble_channel_get` that makes the table. -/
def makeData (s : ScriptState Key Val) (object : Nat) :
    ScriptOutput Val × ScriptState Key Val :=
  let (output, registry) :=
    step objlen dataHome s.registry (.ref object (some (.other s.created)))
  (.of output, ⟨registry, s.created + 1, Function.update s.fields s.created fun _ => none⟩)

/-- The table that `mumble_registry_pushref` pushes. -/
def dataTable (s : ScriptState Key Val) (object : Nat) : Option Nat :=
  match (step objlen dataHome s.registry (.pushref object)).1 with
  | .pushed (.value (.other id)) => some id
  | _ => none

/-- `user_newindex` and `channel_newindex` -/
def newindex (s : ScriptState Key Val) (object : Nat) (key : Option Key) (value : Option Val) :
    ScriptOutput Val × ScriptState Key Val :=
  match dataTable objlen s object, key with
  | none, _ => (.notTable, s)
  | some _, none => (.nilKey, s)
  | some id, some key =>
      (.nothing, { s with
        fields := Function.update s.fields id (Function.update (s.fields id) key value) })

/-- `user_index` and `channel_index` -/
def index (s : ScriptState Key Val) (object : Nat) (key : Option Key) : ScriptOutput Val :=
  match dataTable objlen s object with
  | none => .notTable
  | some id => .pushed (key.bind fun key => (s.fields id key).or (methods object key))

/-- The end of `user_gc` and `channel_gc`. -/
def gcData (s : ScriptState Key Val) (object : Nat) : ScriptOutput Val × ScriptState Key Val :=
  let (output, registry) := step objlen dataHome s.registry (.unref object)
  (.of output, { s with registry := registry })

def scriptStep (s : ScriptState Key Val) : ScriptEvent Key Val →
    ScriptOutput Val × ScriptState Key Val
  | .make object => makeData objlen s object
  | .newindex object key value => newindex objlen s object key value
  | .index object key => (index objlen methods s object key, s)
  | .gc object => gcData objlen s object

/-- Nothing has been made. What lies in `data` before does not matter. -/
def scriptStart (initial : Nat → Int) : ScriptState Key Val :=
  { registry := luaopenMumble objlen initial
    created := 0
    fields := fun _ _ => none }

end Functions

section Purpose

variable {Key Val : Type} [DecidableEq Key] (methods : Nat → Key → Option Val)

/-- What a script may think of: each object that is there has its own fields. -/
abbrev Fields (Key Val : Type) := Nat → Option (Key → Option Val)

def Fields.step (fields : Fields Key Val) : ScriptEvent Key Val →
    ScriptOutput Val × Fields Key Val
  | .make object => (.nothing, Function.update fields object (some fun _ => none))
  | .newindex object key value =>
      match fields object, key with
      | none, _ => (.notTable, fields)
      | some _, none => (.nilKey, fields)
      | some own, some key =>
          (.nothing, Function.update fields object (some (Function.update own key value)))
  | .index object key =>
      match fields object with
      | none => (.notTable, fields)
      | some own => (.pushed (key.bind fun key => (own key).or (methods object key)), fields)
  | .gc object => (.nothing, Function.update fields object none)

/-- An object is made once at a time, and a script has no object that is not there. -/
def Fields.There (fields : Fields Key Val) : ScriptEvent Key Val → Prop
  | .make object => fields object = none
  | .newindex object _ _ => fields object ≠ none
  | .index object _ => fields object ≠ none
  | .gc object => fields object ≠ none

end Purpose

section Refinement

variable {Key Val : Type}
variable {s : ScriptState Key Val} {h : Held Nat Nat} {fields : Fields Key Val}

/-- The objects have tables of their own, with the fields that they should have. -/
structure Represents (s : ScriptState Key Val) (h : Held Nat Nat) (fields : Fields Key Val) :
    Prop where
  sound : Sound dataHome s.registry h
  table : ∀ object own, fields object = some own →
    ∃ id < s.created, h.holds object = some (.other id) ∧ s.fields id = own ∧ h.ready object
  apart : ∀ object object' id, fields object ≠ none → fields object' ≠ none →
    h.holds object = some (.other id) → h.holds object' = some (.other id) → object = object'

/-- `MUMBLE_DATA_REG` is always there. -/
theorem hasHome_data (h : Held Nat Nat) (object : Nat) : h.HasHome dataHome object := by
  intro t ht
  cases ht
  rfl

/-- No object has another one in its table. -/
theorem put_data (h : Held Nat Nat) (object : Nat) (value : Option (Object Nat)) :
    h.put dataHome object value =
      ⟨Function.update h.holds object value, fun other => other = object ∨ h.ready other⟩ := by
  simp [Held.put, dataHome]

theorem Represents.dataTable (objlen : RefTable.Objlen (Object Nat))
    (hr : Represents s h fields) {object id : Nat} (hholds : h.holds object = some (.other id))
    (hready : h.ready object) :
    Registry.dataTable objlen s object = some id := by
  obtain ⟨hanswer, -⟩ := hr.sound.step_pushref objlen hready (hasHome_data h object)
  simp only [Held.step, hholds] at hanswer
  rw [Registry.dataTable, hanswer]

variable [DecidableEq Key]
variable (objlen : RefTable.Objlen (Object Nat)) (methods : Nat → Key → Option Val)

omit [DecidableEq Key] in
theorem Represents.make (hr : Represents s h fields) (object : Nat) :
    (makeData objlen s object).1 = .nothing ∧
      Represents (makeData objlen s object).2
        (h.step dataHome (.ref object (some (.other s.created)))).2
        (Function.update fields object (some fun _ => none)) := by
  obtain ⟨hanswer, hsound⟩ := hr.sound.step objlen (.ref object (some (.other s.created)))
    (hasHome_data h object)
  refine ⟨by simp only [makeData, hanswer]; rfl, hsound, ?_, ?_⟩
  · intro other own hown
    by_cases hother : other = object
    · subst hother
      rw [Function.update_self] at hown
      cases hown
      exact ⟨s.created, Nat.lt_succ_self _, by simp [Held.step, put_data], by simp [makeData],
        by simp [Held.step, put_data]⟩
    · rw [Function.update_of_ne hother] at hown
      obtain ⟨id, hid, hholds, hfields, hready⟩ := hr.table other own hown
      refine ⟨id, Nat.lt_succ_of_lt hid, ?_, ?_, ?_⟩
      · simp [Held.step, put_data, hother, hholds]
      · simp [makeData, Function.update_of_ne (Nat.ne_of_lt hid), hfields]
      · simp [Held.step, put_data, hother, hready]
  · -- The number of the new table is larger than those of the others.
    have hsmaller : ∀ other id, other ≠ object →
        Function.update fields object (some fun _ => none) other ≠ none →
        h.holds other = some (.other id) → id < s.created := by
      intro other id hother hthere hid
      rw [Function.update_of_ne hother] at hthere
      obtain ⟨own, hown⟩ := Option.ne_none_iff_exists'.mp hthere
      obtain ⟨id', hlt, hholds, -⟩ := hr.table other own hown
      rw [hid] at hholds
      cases hholds
      exact hlt
    intro other other' id hthere hthere' hid hid'
    simp only [Held.step, put_data] at hid hid'
    by_cases hother : other = object
    · by_cases hother' : other' = object
      · rw [hother, hother']
      · rw [hother, Function.update_self] at hid
        rw [Function.update_of_ne hother'] at hid'
        cases hid
        exact absurd (hsmaller other' _ hother' hthere' hid') (Nat.lt_irrefl _)
    · rw [Function.update_of_ne hother] at hid hthere
      by_cases hother' : other' = object
      · rw [hother', Function.update_self] at hid'
        cases hid'
        have hlt := hsmaller other s.created hother (by rwa [Function.update_of_ne hother]) hid
        exact absurd hlt (Nat.lt_irrefl _)
      · rw [Function.update_of_ne hother'] at hid' hthere'
        exact hr.apart other other' id hthere hthere' hid hid'

theorem Represents.newindex (hr : Represents s h fields) {object : Nat}
    {own : Key → Option Val} (hown : fields object = some own) (key : Option Key)
    (value : Option Val) :
    (Registry.newindex objlen s object key value).1 =
        (fields.step methods (.newindex object key value)).1 ∧
      Represents (Registry.newindex objlen s object key value).2 h
        (fields.step methods (.newindex object key value)).2 := by
  obtain ⟨id, hid, hholds, hfields, hready⟩ := hr.table object own hown
  have htable := hr.dataTable objlen hholds hready
  cases key with
  | none =>
      simp only [Registry.newindex, htable, Fields.step, hown]
      exact ⟨trivial, hr⟩
  | some key =>
      simp only [Registry.newindex, htable, Fields.step, hown]
      refine ⟨trivial, hr.sound, ?_, ?_⟩
      · intro other own' hown'
        by_cases hother : other = object
        · subst hother
          rw [Function.update_self] at hown'
          cases hown'
          exact ⟨id, hid, hholds, by simp [hfields], hready⟩
        · rw [Function.update_of_ne hother] at hown'
          obtain ⟨id', hid', hholds', hfields', hready'⟩ := hr.table other own' hown'
          have hne : id' ≠ id := by
            rintro rfl
            exact hother (hr.apart other object id' (by simp [hown']) (by simp [hown])
              hholds' hholds)
          exact ⟨id', hid', hholds', by simp [Function.update_of_ne hne, hfields'], hready'⟩
      · have hthere : ∀ other, Function.update fields object
            (some (Function.update own key value)) other ≠ none → fields other ≠ none := by
          intro other hne
          by_cases hother : other = object
          · simp [hother, hown]
          · rwa [Function.update_of_ne hother] at hne
        intro other other' id' hne hne'
        exact hr.apart other other' id' (hthere other hne) (hthere other' hne')

theorem Represents.index (hr : Represents s h fields) {object : Nat} {own : Key → Option Val}
    (hown : fields object = some own) (key : Option Key) :
    Registry.index objlen methods s object key =
      (fields.step methods (.index object key)).1 := by
  obtain ⟨id, -, hholds, hfields, hready⟩ := hr.table object own hown
  simp only [Registry.index, hr.dataTable objlen hholds hready, hfields, Fields.step,
    hown]

omit [DecidableEq Key] in
theorem Represents.gc (hr : Represents s h fields) {object : Nat} {own : Key → Option Val}
    (hown : fields object = some own) :
    (gcData objlen s object).1 = .nothing ∧
      Represents (gcData objlen s object).2 (h.step dataHome (.unref object)).2
        (Function.update fields object none) := by
  obtain ⟨-, -, -, -, hready⟩ := hr.table object own hown
  obtain ⟨hanswer, hsound⟩ := hr.sound.step objlen (.unref object)
    ⟨hready, hasHome_data h object⟩
  have hne : ∀ other, Function.update fields object none other ≠ none →
      other ≠ object ∧ fields other ≠ none := by
    intro other hthere
    have hother : other ≠ object := by
      rintro rfl
      simp at hthere
    exact ⟨hother, by rwa [Function.update_of_ne hother] at hthere⟩
  refine ⟨by simp only [gcData, hanswer]; rfl, hsound, ?_, ?_⟩
  · intro other own' hown'
    obtain ⟨hother, -⟩ := hne other (by simp [hown'])
    rw [Function.update_of_ne hother] at hown'
    obtain ⟨id, hid, hholds, hfields, hready'⟩ := hr.table other own' hown'
    exact ⟨id, hid, by simp [Held.step, put_data, hother, hholds], hfields,
      by simp [Held.step, put_data, hother, hready']⟩
  · intro other other' id hthere hthere' hid hid'
    obtain ⟨hother, hthere⟩ := hne other hthere
    obtain ⟨hother', hthere'⟩ := hne other' hthere'
    simp only [Held.step, put_data] at hid hid'
    rw [Function.update_of_ne hother] at hid
    rw [Function.update_of_ne hother'] at hid'
    exact hr.apart other other' id hthere hthere' hid hid'

/-- One event: what the script sees is the same, and the objects keep tables of their own. -/
theorem Represents.step (hr : Represents s h fields) (e : ScriptEvent Key Val)
    (hthere : fields.There e) :
    (scriptStep objlen methods s e).1 = (fields.step methods e).1 ∧
      ∃ h', Represents (scriptStep objlen methods s e).2 h' (fields.step methods e).2 := by
  cases e with
  | make object =>
      obtain ⟨hanswer, hnext⟩ := hr.make objlen object
      exact ⟨hanswer, _, hnext⟩
  | newindex object key value =>
      obtain ⟨own, hown⟩ := Option.ne_none_iff_exists'.mp hthere
      obtain ⟨hanswer, hnext⟩ := hr.newindex objlen methods hown key value
      exact ⟨hanswer, _, hnext⟩
  | index object key =>
      obtain ⟨own, hown⟩ := Option.ne_none_iff_exists'.mp hthere
      refine ⟨hr.index objlen methods hown key, h, ?_⟩
      simp only [scriptStep, Fields.step, hown]
      exact hr
  | gc object =>
      obtain ⟨own, hown⟩ := Option.ne_none_iff_exists'.mp hthere
      obtain ⟨hanswer, hnext⟩ := hr.gc objlen hown
      exact ⟨hanswer, _, hnext⟩

end Refinement

/-- **Script data is private.** A field that a script assigned to a user or a channel is read
back from this object as it was assigned last, and from no other object, until the object is
collected; objects that come later start without fields, although they get the references of
earlier ones. -/
theorem script_data_private {Key Val : Type} [DecidableEq Key]
    (objlen : RefTable.Objlen (Object Nat)) (methods : Nat → Key → Option Val)
    (initial : Nat → Int) (events : List (ScriptEvent Key Val))
    (hthere : Machine.Along (Fields.step methods) Fields.There (fun _ => none) events) :
    Machine.outputs (scriptStep objlen methods) (scriptStart objlen initial) events =
      Machine.outputs (Fields.step methods) (fun _ => none) events := by
  have hstart : Represents (scriptStart objlen initial : ScriptState Key Val)
      (Held.start initial) fun _ => none := ⟨sound_start objlen dataHome initial, by simp, by simp⟩
  generalize (scriptStart objlen initial : ScriptState Key Val) = s at hstart ⊢
  generalize Held.start initial = h at hstart
  generalize (fun _ => none : Fields Key Val) = fields at hthere hstart ⊢
  induction events generalizing s h fields with
  | nil => rfl
  | cons e rest ih =>
      obtain ⟨hanswer, h', hnext⟩ := hstart.step objlen methods e hthere.1
      simp only [Machine.outputs]
      rw [hanswer, ih _ _ _ hthere.2 hnext]

/-- A user is collected, and another one gets its reference. -/
theorem new_user_has_no_fields :
    Machine.outputs (scriptStep (RefTable.firstBorder (Object Nat)) fun _ _ => none)
        (scriptStart (RefTable.firstBorder (Object Nat)) fun _ => 0)
        [.make 0, .newindex 0 (some 'a') (some true), .index 0 (some 'a'), .gc 0, .make 1,
          .index 1 (some 'a')] =
      [.nothing, .nothing, .pushed (some true), .nothing, .nothing, .pushed none] := by
  apply (script_data_private _ _ _ _ ?_).trans
  · rfl
  · simp [Machine.Along, Fields.There, Fields.step]

end LuaMumble.Registry
