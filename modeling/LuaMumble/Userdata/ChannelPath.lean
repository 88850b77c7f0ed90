import LuaMumble.Lib.LuaStack
import LuaMumble.Lib.Tokens
import LuaMumble.Userdata.Said
import LuaMumble.Userdata.Tables

/-!
The lookup of a channel by a path. `channel_call` goes from a channel along the components of the
path: up to the parent, down to a child by its name, or nowhere. The list of the channels is
searched for a child; a parent, and the channel that is given in the end, are looked up in the
table by an `int`. The function takes them from the stack it was called with, and they are pushed
on that of `client->l`, which is another one in a coroutine.
-/

namespace LuaMumble.Userdata

open Lib
open LuaMumble.Lib.Machine (final)
open LuaMumble.Lib.Tokens (components)

/-- The separators of `strtok`. -/
def isSeparator (byte : UInt8) : Bool := byte == 0x2f || byte == 0x5c

/-- `"."` -/
def dot : List UInt8 := [0x2e]

/-- `".."` -/
def dotDot : List UInt8 := [0x2e, 0x2e]

/-- The child of that name, as `channel_call` looks for it among the channels. -/
def MumbleChannel.HasChild (channel chan : MumbleChannel) (name : List UInt8) : Prop :=
  chan.name = some name ∧ chan.channelId ≠ chan.parent ∧ chan.parent = channel.channelId

instance (channel chan : MumbleChannel) (name : List UInt8) :
    Decidable (channel.HasChild chan name) :=
  inferInstanceAs (Decidable (_ ∧ _ ∧ _))

/-- A turn of the loop along `channel_list`. -/
def childTurn (s : State) (channel : MumbleChannel) (name : List UInt8) (current : Option Nat)
    (node : Node UInt32 Nat) : Option Nat :=
  match s.channels node.data with
  | some chan => if channel.HasChild chan name then some node.data else current
  | none => current

/-- The stack of the Lua state that `channel_call` is called on, from the top, and that of
`client->l` where this is another one. -/
structure Frames where
  l : List LuaValue
  clientL : Option (List LuaValue)

/-- `mumble_channel_raw_get`, with the stack that it pushes on. -/
def Frames.channelRawGet (frames : Frames) (s : State) (client : Nat) (channelId : UInt32) :
    Frames :=
  let value : LuaValue := .optional (mumbleChannelRawGet s client channelId)
  match frames.clientL with
  | none => { frames with l := value :: frames.l }
  | some stack => { frames with clientL := some (value :: stack) }

/-- `lua_touserdata` -/
def LuaValue.touserdata : LuaValue → Option Nat
  | .userdata n => some n
  | _ => none

/-- A turn of the loop of `channel_call`, on a channel and the stacks. -/
def channelCallStep (s : State) (channel : Nat × Frames) (pch : List UInt8) :
    Option (Nat × Frames) :=
  let (n, frames) := channel
  (s.channels n).bind fun channel =>
    if pch = dot then some (n, frames)
    else if pch = dotDot then do
      let frames := frames.channelRawGet s channel.client channel.parent
      let top ← LuaStack.get frames.l (-1)
      let current ← top.touserdata
      let l ← LuaStack.remove 0 frames.l (-2)
      pure (current, { frames with l := l })
    else
      ((s.clients channel.client).channels.list.nodes.foldl (childTurn s channel pch) none).map
        fun current => (current, frames)

/-- `channel_call` on the channel in a userdata, with the bytes of the path, or without one;
`clientL` is the stack of `client->l` where the call is not on that state. The string has the
bytes behind the call that come with the value. -/
def channelCall (s : State) (clientL : Option (List LuaValue)) (n : Nat)
    (path : Option (List UInt8)) : LuaValue × Option (List UInt8) :=
  let bytes := path.getD dot
  let frames : Frames := ⟨(path.map .string).toList ++ [.userdata n], clientL⟩
  let (current, written) :=
    Tokens.loop isSeparator (channelCallStep s) (bytes.length + 1) (n, frames) [] bytes
  let value := current.bind fun (m, frames) => (s.channels m).bind fun channel =>
    LuaStack.get (frames.channelRawGet s channel.client channel.channelId).l (-1)
  (value.getD .nil, path.map fun _ => written)

/-- The components of a path. -/
def splitPath (path : List UInt8) : List (List UInt8) :=
  (path.splitOnP isSeparator).filter fun component => !component.isEmpty

/-- A component leads from one channel of the client to another. -/
def StepTo (s : State) (client : Nat) (component : List UInt8) (n m : Nat) : Prop :=
  ∃ channel, s.channels n = some channel ∧
    if component = dot then m = n
    else if component = dotDot then s.channelAt client channel.parent = some m
    else ∃ id chan, s.channelAt client id = some m ∧ s.channels m = some chan ∧
      channel.HasChild chan component

/-- The components lead from one channel to another. -/
def Leads (s : State) (client : Nat) : List (List UInt8) → Nat → Nat → Prop
  | [], n, m => m = n
  | component :: rest, n, m =>
      ∃ next, StepTo s client component n next ∧ Leads s client rest next m

/-- The lookup gives the channel that the path leads to, and nil if it leads nowhere. -/
def Finds (s : State) (clientL : Option (List LuaValue)) (client n : Nat) (path : List UInt8) :
    Prop :=
  ∃ found, (channelCall s clientL n (some path)).1 = .optional found ∧
    ∀ m, found = some m ↔ Leads s client (splitPath path) n m

/-- Children of a channel have names of their own. -/
def SiblingsDistinct (s : State) (client : Nat) : Prop :=
  ∀ channel name id id' m m' chan chan', s.channelAt client id = some m →
    s.channelAt client id' = some m' → s.channels m = some chan → s.channels m' = some chan' →
    MumbleChannel.HasChild channel chan name → MumbleChannel.HasChild channel chan' name → m = m'

/-- The number of the channel in the userdata is one that an `int` has. -/
def HasIntId (s : State) (n : Nat) : Prop :=
  ∀ channel, s.channels n = some channel → channel.channelId.toNat < 2 ^ 31

/-- Where the components lead up, they lead to the number of a parent that an `int` has. -/
def ParentsInt (s : State) (client : Nat) : List (List UInt8) → Nat → Prop
  | [], _ => True
  | component :: rest, n =>
      (component = dotDot → ∀ channel, s.channels n = some channel →
        channel.parent.toNat < 2 ^ 31) ∧
      ∀ next, StepTo s client component n next → ParentsInt s client rest next

section Children

variable {s : State} {channel : MumbleChannel} {name : List UInt8}

/-- The userdata of a node is a child of that name. -/
def IsChild (s : State) (channel : MumbleChannel) (name : List UInt8) (node : Node UInt32 Nat) :
    Prop :=
  ∃ chan, s.channels node.data = some chan ∧ channel.HasChild chan name

theorem childTurn_of_isChild {node : Node UInt32 Nat} (h : IsChild s channel name node)
    (current : Option Nat) : childTurn s channel name current node = some node.data := by
  obtain ⟨chan, hchan, hchild⟩ := h
  simp only [childTurn, hchan, if_pos hchild]

theorem childTurn_of_not {node : Node UInt32 Nat} (h : ¬ IsChild s channel name node)
    (current : Option Nat) : childTurn s channel name current node = current := by
  unfold childTurn
  split
  · rename_i chan hchan
    exact if_neg fun hchild => h ⟨chan, hchan, hchild⟩
  · rfl

variable (s channel name) in
/-- The loop finds a child, if there is one. -/
theorem foldl_childTurn (nodes : List (Node UInt32 Nat)) (current : Option Nat) :
    (∀ m, nodes.foldl (childTurn s channel name) current = some m → current = some m ∨
      ∃ node ∈ nodes, node.data = m ∧ IsChild s channel name node) ∧
    (nodes.foldl (childTurn s channel name) current = none →
      current = none ∧ ∀ node ∈ nodes, ¬ IsChild s channel name node) := by
  induction nodes generalizing current with
  | nil => simp
  | cons node rest ih =>
      obtain ⟨hsome, hnone⟩ := ih (childTurn s channel name current node)
      rw [List.foldl_cons]
      by_cases hchild : IsChild s channel name node
      · rw [childTurn_of_isChild hchild] at hsome hnone ⊢
        constructor
        · intro m hm
          rcases hsome m hm with hdata | ⟨other, hother, hfound⟩
          · exact .inr ⟨node, List.mem_cons_self .., Option.some.inj hdata, hchild⟩
          · exact .inr ⟨other, List.mem_cons_of_mem _ hother, hfound⟩
        · intro hm
          cases (hnone hm).1
      · rw [childTurn_of_not hchild] at hsome hnone ⊢
        constructor
        · intro m hm
          rcases hsome m hm with hcurrent | ⟨other, hother, hfound⟩
          · exact .inl hcurrent
          · exact .inr ⟨other, List.mem_cons_of_mem _ hother, hfound⟩
        · intro hm
          obtain ⟨hcurrent, hrest⟩ := hnone hm
          refine ⟨hcurrent, ?_⟩
          intro other hother
          rcases List.mem_cons.mp hother with rfl | hother
          · exact hchild
          · exact hrest other hother

end Children

section Lookup

variable {s : State} {record : Record} {client n m : Nat}

/-- The client has the channel in the userdata under a number. -/
def InTable (s : State) (client n : Nat) : Prop := ∃ id, s.channelAt client id = some n

theorem inTable_of_stepTo {component : List UInt8} (hn : InTable s client n)
    (h : StepTo s client component n m) : InTable s client m := by
  obtain ⟨channel, hchannel, hstep⟩ := h
  split_ifs at hstep
  · exact hstep ▸ hn
  · exact ⟨channel.parent, hstep⟩
  · obtain ⟨id, chan, hid, -⟩ := hstep
    exact ⟨id, hid⟩

/-- A component leads to one channel only. -/
theorem stepTo_unique (hsiblings : SiblingsDistinct s client) {component : List UInt8}
    {m' : Nat} (h : StepTo s client component n m) (h' : StepTo s client component n m') :
    m = m' := by
  obtain ⟨channel, hchannel, hstep⟩ := h
  obtain ⟨channel', hchannel', hstep'⟩ := h'
  obtain rfl : channel = channel' := Option.some.inj (hchannel.symm.trans hchannel')
  split_ifs at hstep hstep'
  · rw [hstep, hstep']
  · exact Option.some.inj (hstep.symm.trans hstep')
  · obtain ⟨id, chan, hid, hchan, hchild⟩ := hstep
    obtain ⟨id', chan', hid', hchan', hchild'⟩ := hstep'
    exact hsiblings channel component id id' m m' chan chan' hid hid' hchan hchan' hchild hchild'

/-- The loop along the list finds the children that there are in the table. -/
theorem foldl_child_iff (hlisted : Listed s) (hsiblings : SiblingsDistinct s client)
    (channel : MumbleChannel) (name : List UInt8) :
    (s.clients client).channels.list.nodes.foldl (childTurn s channel name) none = some m ↔
      ∃ id chan, s.channelAt client id = some m ∧ s.channels m = some chan ∧
        channel.HasChild chan name := by
  obtain ⟨hsome, hnone⟩ := foldl_childTurn s channel name
    (s.clients client).channels.list.nodes none
  have hfound : ∀ other, (s.clients client).channels.list.nodes.foldl
      (childTurn s channel name) none = some other →
      ∃ id chan, s.channelAt client id = some other ∧ s.channels other = some chan ∧
        channel.HasChild chan name := by
    intro other hother
    rcases hsome other hother with hcurrent | ⟨node, hnode, rfl, chan, hchan, hchild⟩
    · cases hcurrent
    · have hid := ((hlisted client).same node.index node.data).mpr ⟨node, hnode, rfl, rfl⟩
      exact ⟨node.index, chan, hid, hchan, hchild⟩
  refine ⟨hfound m, ?_⟩
  rintro ⟨id, chan, hid, hchan, hchild⟩
  obtain ⟨node, hnode, -, hdata⟩ := ((hlisted client).same id m).mp hid
  cases hloop : (s.clients client).channels.list.nodes.foldl (childTurn s channel name) none with
  | none => exact absurd ⟨chan, hdata ▸ hchan, hchild⟩ ((hnone hloop).2 node hnode)
  | some other =>
      obtain ⟨id', chan', hid', hchan', hchild'⟩ := hfound other hloop
      rw [hsiblings channel name id id' m other chan chan' hid hid' hchan hchan' hchild hchild']

/-- Where a turn of the loop goes on `client->l`. -/
def walkStep (s : State) (n : Nat) (pch : List UInt8) : Option Nat :=
  (s.channels n).bind fun channel =>
    if pch = dot then some n
    else if pch = dotDot then mumbleChannelRawGet s channel.client channel.parent
    else (s.clients channel.client).channels.list.nodes.foldl (childTurn s channel pch) none

/-- A step goes where the component leads to, as long as a parent can be looked up. -/
theorem walkStep_iff (h : Keeps s record) (hlisted : Listed s)
    (hsiblings : SiblingsDistinct s client) (hn : InTable s client n)
    (component : List UInt8) :
    walkStep s n component = some m ↔ StepTo s client component n m ∧
      (component = dotDot → ∀ channel, s.channels n = some channel →
        channel.parent.toNat < 2 ^ 31) := by
  obtain ⟨id, hid⟩ := hn
  obtain ⟨channel, hchannel, hclient, -⟩ := h.known client id n hid
  simp only [walkStep, StepTo, hchannel, Option.bind_some, Option.some.injEq,
    exists_eq_left', forall_eq', hclient]
  by_cases hdot : component = dot
  · have hne : dot ≠ dotDot := by decide
    simp [hdot, hne, eq_comm]
  · by_cases hdotDot : component = dotDot
    · have hne : dotDot ≠ dot := by decide
      simp only [hdotDot, if_neg hne, if_true, mumbleChannelRawGet, true_imp_iff]
      split_ifs with hsmall
      · exact (and_iff_left hsmall).symm
      · refine iff_of_false ?_ fun hboth => hsmall hboth.2
        intro hnone
        cases hnone
    · simp only [hdot, hdotDot, if_false, false_imp_iff, and_true]
      exact foldl_child_iff hlisted hsiblings channel component

/-- The steps follow the components. -/
theorem foldlM_walkStep_iff (h : Keeps s record) (hlisted : Listed s)
    (hsiblings : SiblingsDistinct s client) (hn : InTable s client n)
    (path : List (List UInt8)) :
    path.foldlM (walkStep s) n = some m ↔
      Leads s client path n m ∧ ParentsInt s client path n := by
  induction path generalizing n with
  | nil => simp [Leads, ParentsInt, eq_comm]
  | cons component rest ih =>
      rw [List.foldlM_cons, Option.bind_eq_bind, Option.bind_eq_some_iff]
      simp only [walkStep_iff h hlisted hsiblings hn, Leads, ParentsInt]
      constructor
      · rintro ⟨next, ⟨hstep, hparent⟩, hrest⟩
        rw [ih (inTable_of_stepTo hn hstep)] at hrest
        refine ⟨⟨next, hstep, hrest.1⟩, hparent, ?_⟩
        intro other hother
        rw [← stepTo_unique hsiblings hstep hother]
        exact hrest.2
      · rintro ⟨⟨next, hstep, hleads⟩, hparent, hints⟩
        refine ⟨next, ⟨hstep, hparent⟩, ?_⟩
        rw [ih (inTable_of_stepTo hn hstep)]
        exact ⟨hleads, hints next hstep⟩

/-- The channels that the components lead to are those of the client. -/
theorem inTable_of_leads {path : List (List UInt8)} (hn : InTable s client n)
    (h : Leads s client path n m) : InTable s client m := by
  induction path generalizing n with
  | nil => exact h ▸ hn
  | cons component rest ih =>
      obtain ⟨next, hstep, hrest⟩ := h
      exact ih (inTable_of_stepTo hn hstep) hrest

/-- What is given in the end is the channel itself, if its number is one that an `int` has. -/
theorem given_iff (h : Keeps s record) (hm : InTable s client m) {found : Nat} :
    ((s.channels m).bind fun channel =>
      mumbleChannelRawGet s channel.client channel.channelId) = some found ↔
    found = m ∧ HasIntId s m := by
  obtain ⟨id, hid⟩ := hm
  obtain ⟨channel, hchannel, hclient, hchannelId, -⟩ := h.known client id m hid
  simp only [hchannel, Option.bind_some, HasIntId, Option.some.injEq, forall_eq',
    mumbleChannelRawGet, hclient, hchannelId, hid]
  split_ifs with hsmall
  · rw [Option.some.injEq]
    exact ⟨fun heq => ⟨heq.symm, hsmall⟩, fun hboth => hboth.1.symm⟩
  · refine iff_of_false ?_ fun hboth => hsmall hboth.2
    intro hnone
    cases hnone

/-- The components of a path without a NUL are those that `strtok` finds. -/
theorem components_eq_splitPath {path : List UInt8} (hnul : 0 ∉ path) :
    components isSeparator path = splitPath path := by
  rw [components, splitPath, List.takeWhile_eq_self_iff.mpr]
  intro byte hbyte
  rw [bne_iff_ne]
  rintro rfl
  exact hnul hbyte

@[simp] theorem touserdata_optional (found : Option Nat) :
    (LuaValue.optional found).touserdata = found := by
  cases found with
  | none => rfl
  | some n => rfl

/-- On `client->l` a turn goes where the step goes, and leaves values on the stack. -/
theorem channelCallStep_same {l : List LuaValue} (hl : l ≠ []) (n : Nat) (pch : List UInt8) :
    ∃ l', l' ≠ [] ∧ channelCallStep s (n, ⟨l, none⟩) pch =
      (walkStep s n pch).map fun m => (m, ⟨l', none⟩) := by
  obtain ⟨top, rest, rfl⟩ := List.exists_cons_of_ne_nil hl
  unfold channelCallStep walkStep
  cases hchannel : s.channels n with
  | none =>
      simp only [hchannel]
      exact ⟨_, hl, rfl⟩
  | some channel =>
      simp only [hchannel, Option.bind_some]
      split_ifs
      · exact ⟨_, hl, rfl⟩
      · refine ⟨.optional (mumbleChannelRawGet s channel.client channel.parent) :: rest,
          List.cons_ne_nil _ _, ?_⟩
        simp only [Frames.channelRawGet, LuaStack.get_top, touserdata_optional,
          LuaStack.remove_second (Nat.zero_le rest.length), Option.bind_eq_bind,
          Option.bind_some]
        cases mumbleChannelRawGet s channel.client channel.parent with
        | none => rfl
        | some m => rfl
      · exact ⟨_, hl, rfl⟩

theorem foldlM_same {l : List LuaValue} (hl : l ≠ []) (n : Nat) (path : List (List UInt8)) :
    ∃ l', path.foldlM (channelCallStep s) (n, ⟨l, none⟩) =
      (path.foldlM (walkStep s) n).map fun m => (m, ⟨l', none⟩) := by
  induction path generalizing l n with
  | nil => exact ⟨l, rfl⟩
  | cons component rest ih =>
      obtain ⟨l', hl', hstep⟩ := channelCallStep_same (s := s) hl n component
      simp only [List.foldlM_cons, hstep, Option.bind_eq_bind]
      cases hwalk : walkStep s n component with
      | none => exact ⟨l', rfl⟩
      | some m => exact ih hl' m

/-- On another state a turn goes at most where the step goes, and leaves the stack as it is: the
string on top of it is no parent. -/
theorem channelCallStep_other {bytes : List UInt8} {below stack : List LuaValue} {n : Nat}
    {pch : List UInt8} {there : Nat × Frames}
    (h : channelCallStep s (n, ⟨.string bytes :: below, some stack⟩) pch = some there) :
    walkStep s n pch = some there.1 ∧ there.2 = ⟨.string bytes :: below, some stack⟩ := by
  unfold channelCallStep at h
  unfold walkStep
  cases hchannel : s.channels n with
  | none =>
      simp only [hchannel, Option.bind_none, reduceCtorEq] at h
  | some channel =>
      simp only [hchannel, Option.bind_some] at h ⊢
      split_ifs at h ⊢
      · cases h
        exact ⟨rfl, rfl⟩
      · simp only [Frames.channelRawGet, LuaStack.get_top, Option.bind_eq_bind,
          Option.bind_some] at h
        cases h
      · obtain ⟨m, hm, rfl⟩ := Option.map_eq_some_iff.mp h
        exact ⟨hm, rfl⟩

theorem foldlM_other {bytes : List UInt8} {below stack : List LuaValue} {n : Nat}
    {path : List (List UInt8)} {there : Nat × Frames}
    (h : path.foldlM (channelCallStep s) (n, ⟨.string bytes :: below, some stack⟩) = some there) :
    path.foldlM (walkStep s) n = some there.1 ∧ there.2 = ⟨.string bytes :: below, some stack⟩ := by
  induction path generalizing n with
  | nil =>
      cases h
      exact ⟨rfl, rfl⟩
  | cons component rest ih =>
      rw [List.foldlM_cons, Option.bind_eq_bind, Option.bind_eq_some_iff] at h ⊢
      obtain ⟨⟨m, frames⟩, hstep, hrest⟩ := h
      obtain ⟨hwalk, hframes⟩ := channelCallStep_other hstep
      dsimp only at hwalk hframes
      subst hframes
      obtain ⟨hlast, hkept⟩ := ih hrest
      exact ⟨⟨m, hwalk, hlast⟩, hkept⟩

theorem optional_injective : Function.Injective LuaValue.optional := by
  intro found other h
  cases found with
  | none => cases other with
    | none => rfl
    | some m => cases h
  | some n => cases other with
    | none => cases h
    | some m => rw [LuaValue.userdata.inj h]

/-- The value that the loop comes to. -/
theorem channelCall_value (clientL : Option (List LuaValue)) (n : Nat) {path : List UInt8}
    (hnul : 0 ∉ path) :
    (channelCall s clientL n (some path)).1 =
      (((splitPath path).foldlM (channelCallStep s)
          (n, ⟨[.string path, .userdata n], clientL⟩)).bind fun there =>
        (s.channels there.1).bind fun channel => LuaStack.get
          (there.2.channelRawGet s channel.client channel.channelId).l (-1)).getD .nil := by
  have hloop := Tokens.loop_fst isSeparator (channelCallStep s) (by decide)
    (path.length + 1) (n, ⟨[.string path, .userdata n], clientL⟩) [] path (Nat.lt_succ_self _)
  rw [components_eq_splitPath hnul] at hloop
  rw [← hloop]
  rfl

/-- What the lookup gives on `client->l`. -/
theorem channelCall_same_iff (h : Keeps s record) (hlisted : Listed s)
    (hsiblings : SiblingsDistinct s client) (hn : InTable s client n) {path : List UInt8}
    (hnul : 0 ∉ path) :
    ∃ found, (channelCall s none n (some path)).1 = .optional found ∧
      ∀ m, found = some m ↔ Leads s client (splitPath path) n m ∧
        ParentsInt s client (splitPath path) n ∧ HasIntId s m := by
  obtain ⟨l, hfold⟩ := foldlM_same (s := s) (l := [.string path, .userdata n])
    (List.cons_ne_nil _ _) n (splitPath path)
  have hvalue : (channelCall s none n (some path)).1 = .optional
      ((((splitPath path).foldlM (walkStep s) n).bind s.channels).bind fun channel =>
        mumbleChannelRawGet s channel.client channel.channelId) := by
    rw [channelCall_value none n hnul, hfold]
    cases (splitPath path).foldlM (walkStep s) n with
    | none => rfl
    | some m =>
        simp only [Option.map_some, Option.bind_some]
        cases s.channels m with
        | none => rfl
        | some channel =>
            simp only [Option.bind_some, Frames.channelRawGet, LuaStack.get_top, Option.getD_some]
  refine ⟨_, hvalue, ?_⟩
  intro m
  rw [Option.bind_assoc, Option.bind_eq_some_iff]
  constructor
  · rintro ⟨last, hlast, hgiven⟩
    obtain ⟨hleads, hints⟩ := (foldlM_walkStep_iff h hlisted hsiblings hn _).mp hlast
    obtain ⟨rfl, hint⟩ := (given_iff h (inTable_of_leads hn hleads)).mp hgiven
    exact ⟨hleads, hints, hint⟩
  · rintro ⟨hleads, hints, hint⟩
    refine ⟨m, (foldlM_walkStep_iff h hlisted hsiblings hn _).mpr ⟨hleads, hints⟩, ?_⟩
    exact (given_iff h (inTable_of_leads hn hleads)).mpr ⟨rfl, hint⟩

/-- On another state the lookup gives nil, or the path itself, which leads somewhere then. -/
theorem channelCall_other (h : Keeps s record) (hlisted : Listed s)
    (hsiblings : SiblingsDistinct s client) (hn : InTable s client n) {path : List UInt8}
    (hnul : 0 ∉ path) (stack : List LuaValue) :
    (channelCall s (some stack) n (some path)).1 = .nil ∨
      (channelCall s (some stack) n (some path)).1 = .string path ∧
        ∃ m, Leads s client (splitPath path) n m := by
  rw [channelCall_value (some stack) n hnul]
  cases hfold : (splitPath path).foldlM (channelCallStep s)
      (n, ⟨[.string path, .userdata n], some stack⟩) with
  | none => exact Or.inl rfl
  | some there =>
      obtain ⟨hwalk, hframes⟩ := foldlM_other hfold
      have hleads := (foldlM_walkStep_iff h hlisted hsiblings hn _).mp hwalk
      rw [Option.bind_some, hframes]
      cases s.channels there.1 with
      | none => exact Or.inl rfl
      | some channel =>
          refine Or.inr ⟨?_, there.1, hleads.1⟩
          simp only [Option.bind_some, Frames.channelRawGet, LuaStack.get_top, Option.getD_some]

/-- The lookup from a channel of the client. -/
theorem finds_iff (h : Keeps s record) (hlisted : Listed s)
    (hsiblings : SiblingsDistinct s client) (hn : InTable s client n) {path : List UInt8}
    (hnul : 0 ∉ path) (clientL : Option (List LuaValue)) :
    Finds s clientL client n path ↔ ∀ m, Leads s client (splitPath path) n m →
      clientL = none ∧ ParentsInt s client (splitPath path) n ∧ HasIntId s m := by
  cases clientL with
  | none =>
      obtain ⟨found, hcall, hfound⟩ := channelCall_same_iff h hlisted hsiblings hn hnul
      constructor
      · rintro ⟨other, hother, hleads⟩ m hm
        obtain rfl := optional_injective (hother.symm.trans hcall)
        exact ⟨rfl, ((hfound m).mp ((hleads m).mpr hm)).2⟩
      · intro hints
        refine ⟨found, hcall, ?_⟩
        intro m
        rw [hfound]
        exact and_iff_left_of_imp fun hm => (hints m hm).2
  | some stack =>
      simp only [reduceCtorEq, false_and, imp_false]
      rcases channelCall_other h hlisted hsiblings hn hnul stack with hnil | ⟨hstring, m, hm⟩
      · constructor
        · rintro ⟨found, hfound, hleads⟩ m hm
          have hsome := (hleads m).mpr hm
          rw [hnil, hsome] at hfound
          cases hfound
        · intro hnowhere
          refine ⟨none, hnil, ?_⟩
          intro m
          exact iff_of_false nofun (hnowhere m)
      · refine iff_of_false ?_ fun hnowhere => hnowhere m hm
        rintro ⟨found, hfound, -⟩
        rw [hstring] at hfound
        cases found with
        | none => cases hfound
        | some m => cases hfound

end Lookup

/-- After every run, the lookup from a channel that the client has walks the tree of its channels,
if and only if the path leads nowhere, or the call is on `client->l` and the channel that the path
leads to, and the parents on the way up to it, have numbers that an `int` has. -/
theorem path_walks_tree_iff (contents : Contents) (events : List Event)
    (clientL : Option (List LuaValue)) (client n : Nat) (path : List UInt8)
    (hn : InTable (final (step contents) start events) client n)
    (hsiblings : SiblingsDistinct (final (step contents) start events) client)
    (hnul : 0 ∉ path) :
    let s := final (step contents) start events
    Finds s clientL client n path ↔ ∀ m, Leads s client (splitPath path) n m →
      clientL = none ∧ ParentsInt s client (splitPath path) n ∧ HasIntId s m :=
  finds_iff (keeps_start.run contents events) (listed_run contents events) hsiblings hn hnul
    clientL

/-- A client that knows one channel. -/
def oneChannel (channelId : UInt32) : List Event :=
  [.channelState 0 { channelId := some channelId } fun _ => 0]

theorem table_oneChannel (channelId id : UInt32) :
    (final (step quiet) start (oneChannel channelId)).channelAt 0 id =
      if id = channelId then some 0 else none := by
  have htable : (final (step quiet) start (oneChannel channelId)).channelAt 0 id =
      Function.update (fun _ => none) channelId (some 0) id := rfl
  rw [htable, Function.update_apply]

theorem inTable_oneChannel (channelId : UInt32) :
    InTable (final (step quiet) start (oneChannel channelId)) 0 0 :=
  ⟨channelId, by rw [table_oneChannel, if_pos rfl]⟩

theorem siblings_oneChannel (channelId : UInt32) :
    SiblingsDistinct (final (step quiet) start (oneChannel channelId)) 0 := by
  intro channel name id id' m m' chan chan' hid hid' _ _ _ _
  rw [table_oneChannel] at hid hid'
  split_ifs at hid hid'
  rw [← Option.some.inj hid, ← Option.some.inj hid']

/-- A channel `a` below the root, and a channel `b` below that. -/
def twoLevels : List Event :=
  [.channelState 0 { channelId := some 0 } fun _ => 0,
    .channelState 0 { channelId := some 1, name := some [0x61] } fun _ => 0,
    .channelState 0 { channelId := some 2, parent := some 1, name := some [0x62] } fun _ => 0]

theorem channels_twoLevels {n : Nat} {channel : MumbleChannel}
    (h : (final (step quiet) start twoLevels).channels n = some channel) :
    channel.channelId.toNat < 2 ^ 31 ∧ channel.parent.toNat < 2 ^ 31 ∧
      ∀ name, channel.name = some name → (name = [0x61] ∧ n = 1) ∨ (name = [0x62] ∧ n = 2) := by
  rcases n with _ | _ | _ | n
  · cases h
    exact ⟨by decide, by decide, by rintro name ⟨⟩⟩
  · cases h
    exact ⟨by decide, by decide, by rintro name ⟨⟩; exact Or.inl ⟨rfl, rfl⟩⟩
  · cases h
    exact ⟨by decide, by decide, by rintro name ⟨⟩; exact Or.inr ⟨rfl, rfl⟩⟩
  · cases h

/-- Channels with small numbers have no other parents. -/
theorem parentsInt_of_small {s : State}
    (hsmall : ∀ n channel, s.channels n = some channel → channel.parent.toNat < 2 ^ 31)
    (client : Nat) (path : List (List UInt8)) (n : Nat) : ParentsInt s client path n := by
  induction path generalizing n with
  | nil => trivial
  | cons component rest ih => exact ⟨fun _ => hsmall n, fun next _ => ih next⟩

/-- From `b`, `../../a` goes up to the root and down to `a`. -/
theorem path_walks_tree_iff_twoLevels :
    let s := final (step quiet) start twoLevels
    let path : List UInt8 := [0x2e, 0x2e, 0x2f, 0x2e, 0x2e, 0x2f, 0x61]
    (channelCall s none 2 (some path)).1 = .userdata 1 ∧ Finds s none 0 2 path := by
  intro s path
  have htable : InTable s 0 2 := ⟨2, rfl⟩
  have hsiblings : SiblingsDistinct s 0 := by
    rintro channel name id id' m m' chan chan' - - hchan hchan' ⟨hname, -⟩ ⟨hname', -⟩
    rcases (channels_twoLevels hchan).2.2 name hname with ⟨rfl, rfl⟩ | ⟨rfl, rfl⟩
    · rcases (channels_twoLevels hchan').2.2 _ hname' with ⟨-, rfl⟩ | ⟨hne, -⟩
      · rfl
      · cases hne
    · rcases (channels_twoLevels hchan').2.2 _ hname' with ⟨hne, -⟩ | ⟨-, rfl⟩
      · cases hne
      · rfl
  refine ⟨by decide, (path_walks_tree_iff quiet twoLevels none 0 2 path htable hsiblings
    (by decide)).mpr ?_⟩
  intro m _
  refine ⟨rfl, parentsInt_of_small ?_ _ _ _, ?_⟩
  · intro n channel hchannel
    exact (channels_twoLevels hchannel).2.1
  · intro channel hchannel
    exact (channels_twoLevels hchannel).1

/-- The channel with the number 2^31 is not found from itself. -/
theorem high_channel_not_found :
    ¬ ∀ contents events clientL client n path,
      InTable (final (step contents) start events) client n →
      SiblingsDistinct (final (step contents) start events) client → 0 ∉ path →
      Finds (final (step contents) start events) clientL client n path := by
  intro h
  obtain ⟨found, hcall, hfound⟩ := h quiet (oneChannel 0x80000000) none 0 0 []
    (inTable_oneChannel _) (siblings_oneChannel _) (by decide)
  have hself := (hfound 0).mpr rfl
  rw [hself] at hcall
  exact absurd hcall (by decide)

end LuaMumble.Userdata
