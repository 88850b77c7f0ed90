import LuaMumble.Audio.StreamView

/-!
Runs of the client. A step changes how one stream stands, by an action that keeps it
standing well, and leaves the others alone: the indices that it takes out of a list
belong to no other stream. Where no unpin overlaps the end of a stop of the same stream,
the streams stand well in every state reached. Where one does, both sides may queue the
stream, or the buffer thread looks at a stream that was collected.
-/

namespace LuaMumble.Audio.Reclaim

open Lib

variable {ι : Type} [DecidableEq ι]

/-- The nodes that the buffer thread has before it. -/
def BufferThread.ahead : BufferThread ι → List (LinkNode ι)
  | .walking current => current
  | .pinning _ _ next => next
  | _ => []

/-- The keys of the registry are distinct, the buffer thread walks along `stream_list`, and
every stream stands well. -/
structure Inv (s : State ι) : Prop where
  keys : (s.registry.map Prod.fst).Nodup
  ahead : ∀ node ∈ s.thread.ahead, node ∈ s.streamList
  good : ∀ x, Good (view s x)

/-- The step does not let an unpin overlap the end of a stop, or a call of `play`: the
reference does not move behind the decrement of an unpin that goes on, the count is not
decremented between that move and the look of the stop at it, and the reference is not
taken back when the buffer thread is about to queue the stream. -/
def apart (s : State ι) : Input ι → Bool
  | .buffer =>
      match s.thread with
      | .pinned .inUse x => s.main.at x ≠ .stopping .checkingUse
      | _ => true
  | .main _ =>
      match s.main with
      | .stopping .transferring x => !(s.thread.at x).unpinning
      | .playing .cancelling x => s.thread.at x ≠ .pinned .queueing
      | _ => true
  | _ => true

section Steps

variable {s s' : State ι}

/-- A step that changes how one stream stands. -/
theorem Inv.of_one (h : Inv s) (x : ι) (hkeys : (s'.registry.map Prod.fst).Nodup)
    (hahead : ∀ node ∈ s'.thread.ahead, node ∈ s'.streamList)
    (hothers : ∀ y, y ≠ x → view s' y = view s y) (hx : Good (view s' x)) : Inv s' := by
  refine ⟨hkeys, hahead, ?_⟩
  intro y
  by_cases hy : y = x
  · exact hy ▸ hx
  · rw [hothers y hy]
    exact h.good y

/-- A step that only changes what the buffer thread is about to do with one stream. -/
theorem Inv.thread_goes (h : Inv s) (sound : ι) {thread : BufferThread ι}
    (hahead : ∀ node ∈ thread.ahead, node ∈ s.streamList)
    (hothers : ∀ y, y ≠ sound → thread.at y = s.thread.at y)
    (hgood : Good { view s sound with thread := thread.at sound }) :
    Inv { s with thread := thread } :=
  h.of_one sound h.keys hahead (fun y hy => by simp [view, hothers y hy]) hgood

/-- A step that only changes what the main thread is about to do with one stream. -/
theorem Inv.main_goes (h : Inv s) (sound : ι) {main : MainThread ι}
    (hothers : ∀ y, y ≠ sound → main.at y = s.main.at y)
    (hgood : Good { view s sound with main := main.at sound }) : Inv { s with main := main } :=
  h.of_one sound h.keys h.ahead (fun y hy => by simp [view, hothers y hy]) hgood

/-- A step of the main thread that also changes members of the stream. -/
theorem Inv.main_modifies (h : Inv s) (sound : ι) {f : AudioStream → AudioStream}
    {main : MainThread ι} (hothers : ∀ y, y ≠ sound → main.at y = s.main.at y)
    (hgood : Good { view s sound with sound := f (s.sounds sound), main := main.at sound }) :
    Inv { s.modify sound f with main := main } := by
  refine h.of_one sound h.keys h.ahead ?_ ?_
  · intro y hy
    simp [view, State.modify, hy, hothers y hy]
  · simpa [view, State.modify] using hgood

/-- The owner of a reference is the only stream listed under it. -/
theorem Inv.owner_unique (h : Inv s) {x y : ι} {ref : Nat} (hx : ref ∈ (view s x).refs)
    (hy : some ref ∈ (view s y).listed ∨ some ref ∈ (view s y).queued) : y = x := by
  obtain ⟨own, hown, heq⟩ := (h.good y).ref_mem hy
  cases heq
  exact LinkList.data_unique h.keys hx hown

theorem not_pinning_of_free {thread : BufferThread ι} (hfree : thread.holdsInner = false) (x : ι) :
    (thread.at x).isPinning = false := by
  cases thread with
  | pinning stage sound next => cases hfree
  | pinned stage sound =>
      simp only [BufferThread.at]
      split <;> rfl
  | _ => rfl

omit [DecidableEq ι] in
theorem ahead_of_free {thread : BufferThread ι} (hfree : thread.holdsInner = false) :
    thread.ahead = [] := by
  cases thread with
  | walking current => cases hfree
  | pinning stage sound next => cases hfree
  | _ => rfl

theorem Inv.walk (h : Inv s) {current : List (LinkNode ι)} (hthread : s.thread = .walking current) :
    Inv (bufferStep s).2 := by
  have hahead := h.ahead
  have hgood := h.good
  simp only [view, hthread] at hahead hgood
  cases current with
  | nil =>
      simp only [bufferStep, hthread]
      exact ⟨h.keys, List.forall_mem_nil _, hgood⟩
  | cons node next =>
      obtain ⟨index, sound⟩ := node
      have hnext : ∀ node ∈ next, node ∈ s.streamList :=
        fun node hnode => hahead node (List.mem_cons_of_mem _ hnode)
      simp only [bufferStep, hthread]
      split
      · exact ⟨h.keys, hnext, hgood⟩
      · refine h.thread_goes sound hnext ?_ ?_
        · intro y hy
          simp [hthread, BufferThread.at, Ne.symm hy]
        · have hlisted : (index, sound) ∈ s.streamList := hahead _ (List.mem_cons_self ..)
          have hpin := (hgood sound).try_pin rfl
            (List.ne_nil_of_mem (LinkList.mem_indices.mpr hlisted))
          simpa [view, BufferThread.at] using hpin

theorem Inv.pin (h : Inv s) {stage : Pinning} {sound : ι} {next : List (LinkNode ι)}
    (hthread : s.thread = .pinning stage sound next) : Inv (bufferStep s).2 := by
  have hahead := h.ahead
  rw [hthread] at hahead
  have hat : (view s sound).thread = .pinning stage := by
    simp [view, hthread, BufferThread.at]
  cases stage with
  | adding =>
      simp only [bufferStep, hthread]
      refine h.of_one sound h.keys hahead ?_ ?_
      · intro y hy
        simp [view, hthread, State.modify, BufferThread.at, hy, Ne.symm hy]
      · simpa [view, State.modify, BufferThread.at] using (h.good sound).add_pin hat
  | rechecking =>
      obtain ⟨hreclaimed, hpin⟩ := (h.good sound).keep_pin hat
      change (s.sounds sound).reclaimed = false at hreclaimed
      simp only [bufferStep, hthread]
      rw [if_neg (by simp [hreclaimed])]
      apply h.thread_goes sound (List.forall_mem_nil _)
      · intro y hy
        simp [hthread, BufferThread.at, Ne.symm hy]
      · simpa [view, BufferThread.at] using hpin
  | dropping => exact absurd hat (h.good sound).not_dropping

theorem Inv.use (h : Inv s) {stage : Pinned} {sound : ι} (hthread : s.thread = .pinned stage sound)
    (hapart : apart s .buffer = true) : Inv (bufferStep s).2 := by
  have hat : (view s sound).thread = .pinned stage := by
    simp [view, hthread, BufferThread.at]
  have hothers (stage' : Pinned) (y : ι) (hy : y ≠ sound) :
      (BufferThread.pinned stage' sound).at y = s.thread.at y := by
    simp [hthread, BufferThread.at, Ne.symm hy]
  have hleaves (y : ι) (hy : y ≠ sound) :
      (BufferThread.relocking sound).at y = s.thread.at y := by
    simp [hthread, BufferThread.at, Ne.symm hy]
  cases stage with
  | reading =>
      simp only [bufferStep, hthread]
      split
      · exact h
      · apply h.thread_goes sound (List.forall_mem_nil _) (hothers _)
        simpa [view, BufferThread.at] using (h.good sound).begin_use hat
  | inUse =>
      simp only [apart, hthread, decide_eq_true_eq] at hapart
      obtain ⟨hcount, hunpin⟩ := (h.good sound).unpin hat hapart
      change (s.sounds sound).usecount = 1 at hcount
      simp only [bufferStep, hthread]
      rw [if_pos hcount]
      refine h.of_one sound h.keys (List.forall_mem_nil _) ?_ ?_
      · intro y hy
        simp [view, hthread, State.modify, BufferThread.at, hy, Ne.symm hy]
      · simpa [view, State.modify, BufferThread.at] using hunpin
  | unpinned =>
      have htest := (h.good sound).test_reclaimed hat
      simp only [bufferStep, hthread]
      split
      · rename_i hreclaimed
        apply h.thread_goes sound (List.forall_mem_nil _) (hothers _)
        simpa [view, BufferThread.at, hreclaimed] using htest
      · rename_i hreclaimed
        apply h.thread_goes sound (List.forall_mem_nil _) hleaves
        simpa [view, BufferThread.at, hreclaimed] using htest
  | checking =>
      have htest := (h.good sound).test_reclaimRef hat
      simp only [bufferStep, hthread]
      split
      · rename_i hreclaimRef
        apply h.thread_goes sound (List.forall_mem_nil _) (hothers _)
        simpa [view, BufferThread.at, hreclaimRef] using htest
      · rename_i hreclaimRef
        apply h.thread_goes sound (List.forall_mem_nil _) hleaves
        simpa [view, BufferThread.at, hreclaimRef] using htest
  | queueing =>
      simp only [bufferStep, hthread]
      refine h.of_one sound h.keys (List.forall_mem_nil _) ?_ ?_
      · intro y hy
        simp [view, hthread, listAdd, BufferThread.at, Ne.symm hy,
          LinkList.indices_cons_of_ne _ hy]
      · simpa [view, listAdd, BufferThread.at] using (h.good sound).queue_unpinned hat

theorem Inv.relock (h : Inv s) {sound : ι} (hthread : s.thread = .relocking sound) :
    Inv (bufferStep s).2 := by
  have hgood := h.good
  simp only [view, hthread] at hgood
  simp only [bufferStep, hthread]
  split
  · rename_i found next hdrop
    refine ⟨h.keys, ?_, hgood⟩
    intro node hnode
    have hmem : node ∈ s.streamList.dropWhile (fun node => node.2 ≠ sound) := by
      rw [hdrop]
      exact List.mem_cons_of_mem _ hnode
    exact (List.dropWhile_sublist _).subset hmem
  · exact ⟨h.keys, fun _ hnode => hnode, hgood⟩

theorem Inv.bufferStep (h : Inv s) (hapart : apart s .buffer = true) : Inv (bufferStep s).2 := by
  cases hthread : s.thread with
  | away =>
      simp only [Reclaim.bufferStep, hthread]
      have hgood := h.good
      simp only [view, hthread] at hgood
      exact ⟨h.keys, fun _ hnode => hnode, hgood⟩
  | walking current => exact h.walk hthread
  | pinning stage sound next => exact h.pin hthread
  | pinned stage sound => exact h.use hthread hapart
  | relocking sound => exact h.relock hthread

theorem Inv.stopStep (h : Inv s) {stage : Stop} {sound : ι} (hmain : s.main = .stopping stage sound)
    (key : Nat) (hapart : apart s (.main key) = true) : Inv (stopStep s sound stage).2 := by
  have hat : (view s sound).main = .stopping stage := by
    simp [view, hmain, MainThread.at]
  have hothers (stage' : Stop) (y : ι) (hy : y ≠ sound) :
      (MainThread.stopping stage' sound).at y = s.main.at y := by
    simp [hmain, MainThread.at, Ne.symm hy]
  cases stage with
  | unlisting =>
      simp only [Reclaim.stopStep]
      split
      · exact h
      · rename_i hfree
        rw [Bool.not_eq_true] at hfree
        obtain ⟨hsome, hunlist⟩ := (h.good sound).unlist hat (not_pinning_of_free hfree sound)
        change (s.sounds sound).refrence.isSome = true at hsome
        obtain ⟨ref, href⟩ := Option.isSome_iff_exists.mp hsome
        have honly : ∀ y, some ref ∈ LinkList.indices s.streamList y → y = sound := fun y hy =>
          h.owner_unique ((h.good sound).refrence_mem href) (.inl hy)
        rw [if_pos hsome]
        refine h.of_one sound h.keys (by simp [ahead_of_free hfree]) ?_ ?_
        · intro y hy
          have hother : some ref ∉ LinkList.indices s.streamList y := fun hmem => hy (honly y hmem)
          simp [view, hmain, MainThread.at, Ne.symm hy, listRemove, href,
            LinkList.indices_remove_of_notMem hother]
        · simpa [view, MainThread.at, listRemove, href, LinkList.indices_remove_self honly]
            using hunlist
  | marking =>
      have hmark := (h.good sound).mark hat
      apply h.main_modifies sound (hothers _)
      simpa [view, MainThread.at] using hmark
  | transferring =>
      simp only [apart, hmain, Bool.not_eq_true'] at hapart
      obtain ⟨hsome, htransfer⟩ := (h.good sound).transfer hat hapart
      change (s.sounds sound).refrence.isSome = true at hsome
      apply h.main_modifies sound (hothers _)
      simpa [view, MainThread.at, hsome] using htransfer
  | checkingUse =>
      have hcheck := (h.good sound).check_usecount hat
      simp only [Reclaim.stopStep]
      split
      · rename_i hqueue
        apply h.main_goes sound (hothers _)
        simpa [view, MainThread.at, hqueue] using hcheck
      · rename_i hkept
        apply h.main_goes sound
        · intro y hy
          simp [hmain, MainThread.at, Ne.symm hy]
        · simpa [view, MainThread.at, hkept] using hcheck
  | queueing =>
      simp only [Reclaim.stopStep]
      split
      · exact h
      · refine h.of_one sound h.keys h.ahead ?_ ?_
        · intro y hy
          simp [view, hmain, MainThread.at, Ne.symm hy, listAdd, LinkList.indices_cons_of_ne _ hy]
        · simpa [view, MainThread.at, listAdd] using (h.good sound).queue_stopped hat

theorem Inv.playStep (h : Inv s) {stage : Play} {sound : ι} (hmain : s.main = .playing stage sound)
    (key : Nat) (hapart : apart s (.main key) = true) : Inv (playStep s sound key stage).2 := by
  have hat : (view s sound).main = .playing stage := by
    simp [view, hmain, MainThread.at]
  have hothers (stage' : Play) (y : ι) (hy : y ≠ sound) :
      (MainThread.playing stage' sound).at y = s.main.at y := by
    simp [hmain, MainThread.at, Ne.symm hy]
  cases stage with
  | loading =>
      have hload := (h.good sound).load_reclaimed hat
      simp only [Reclaim.playStep]
      split
      · rename_i hreclaimed
        apply h.main_goes sound (hothers _)
        simpa [view, MainThread.at, hreclaimed] using hload
      · rename_i hreclaimed
        apply h.main_goes sound (hothers _)
        simpa [view, MainThread.at, hreclaimed] using hload
  | clearing =>
      apply h.main_modifies sound (hothers _)
      simpa [view, MainThread.at] using (h.good sound).clear_reclaimed hat
  | cancelling =>
      simp only [apart, hmain, decide_eq_true_eq] at hapart
      simp only [Reclaim.playStep]
      split
      · rename_i hsome
        apply h.main_modifies sound (hothers _)
        have htake := (h.good sound).take_back hat hsome hapart
        simpa [view, MainThread.at] using htake
      · rename_i hnone
        apply h.main_goes sound (hothers _)
        have hnothing :=
          (h.good sound).nothing_to_take_back hat (Option.not_isSome_iff_eq_none.mp hnone)
        simpa [view, MainThread.at] using hnothing
  | removing =>
      simp only [Reclaim.playStep]
      split
      · exact h
      · have hunqueue := (h.good sound).unqueue hat
        obtain ⟨ref, href⟩ := Option.isSome_iff_exists.mp ((h.good sound).refrence_of_removing hat)
        have honly : ∀ y, some ref ∈ LinkList.indices s.reclaimList y → y = sound := fun y hy =>
          h.owner_unique ((h.good sound).refrence_mem href) (.inr hy)
        change (s.sounds sound).refrence = some ref at href
        refine h.of_one sound h.keys h.ahead ?_ ?_
        · intro y hy
          have hother : some ref ∉ LinkList.indices s.reclaimList y := fun hmem => hy (honly y hmem)
          simp [view, hmain, MainThread.at, Ne.symm hy, listRemove, href,
            LinkList.indices_remove_of_notMem hother]
        · simpa [view, MainThread.at, listRemove, href, LinkList.indices_remove_self honly]
            using hunqueue
  | referencing =>
      simp only [Reclaim.playStep]
      split
      · rename_i hsome
        apply h.main_goes sound (hothers _)
        simpa [view, MainThread.at] using (h.good sound).keep_reference hat hsome
      · rename_i hnone
        split
        · exact h
        · rename_i hfresh
          refine h.of_one sound ?_ h.ahead ?_ ?_
          · rw [List.map_cons, List.nodup_cons]
            exact ⟨by simpa using hfresh, h.keys⟩
          · intro y hy
            simp [view, hmain, State.modify, MainThread.at, hy, Ne.symm hy,
              LinkList.indices_cons_of_ne _ hy]
          · have hregister :=
              (h.good sound).register hat (Option.not_isSome_iff_eq_none.mp hnone) key
            simpa [view, State.modify, MainThread.at] using hregister
  | listing =>
      simp only [Reclaim.playStep]
      split
      · exact h
      · rename_i hfree
        rw [Bool.not_eq_true] at hfree
        refine h.of_one sound h.keys (by simp [ahead_of_free hfree]) ?_ ?_
        · intro y hy
          simp [view, hmain, MainThread.at, Ne.symm hy, listAdd, LinkList.indices_cons_of_ne _ hy]
        · simpa [view, MainThread.at, listAdd] using (h.good sound).list hat

theorem Inv.mainStep (h : Inv s) (key : Nat) (hapart : apart s (.main key) = true) :
    Inv (mainStep s key).2 := by
  cases hmain : s.main with
  | idle =>
      simp only [Reclaim.mainStep, hmain]
      exact h
  | popping =>
      have hat (x : ι) : (view s x).main = .elsewhere := by simp [view, hmain, MainThread.at]
      simp only [Reclaim.mainStep, hmain]
      split
      · exact h
      · split
        · have hgood := h.good
          simp only [view, hmain] at hgood
          exact ⟨h.keys, h.ahead, hgood⟩
        · rename_i index sound rest hlist
          have hindex : index ∈ LinkList.indices s.reclaimList sound := by simp [hlist]
          have hpop := (h.good sound).pop (hat sound) hindex
          obtain ⟨ref, href, hsome⟩ := (h.good sound).ref_mem (.inr hindex)
          have honly : ∀ y, index ∈ LinkList.indices s.reclaimList y → y = sound := by
            intro y hy
            rw [hsome] at hy
            exact h.owner_unique href (.inr hy)
          refine h.of_one sound h.keys h.ahead ?_ ?_
          · intro y hy
            have hother : index ∉ LinkList.indices s.reclaimList y := fun hmem => hy (honly y hmem)
            simp [view, hmain, MainThread.at, Ne.symm hy, listRemove,
              LinkList.indices_remove_of_notMem hother]
          · simpa [view, MainThread.at, listRemove, LinkList.indices_remove_self honly] using hpop
  | releasing sound =>
      have hat : (view s sound).main = .releasing := by simp [view, hmain, MainThread.at]
      have hsome := (h.good sound).reclaimRef_of_releasing hat
      obtain ⟨ref, href⟩ := Option.isSome_iff_exists.mp hsome
      have hrelease := (h.good sound).release hat href
      have honly : ∀ y, ref ∈ LinkList.indices s.registry y → y = sound := fun y hy =>
        LinkList.data_unique h.keys ((h.good sound).reclaimRef_mem href) hy
      change (s.sounds sound).reclaimRef = some ref at href
      simp only [Reclaim.mainStep, hmain, href]
      refine h.of_one sound (LinkList.nodup_remove h.keys) h.ahead ?_ ?_
      · intro y hy
        have hother : ref ∉ LinkList.indices s.registry y := fun hmem => hy (honly y hmem)
        simp [view, hmain, State.modify, MainThread.at, hy, Ne.symm hy,
          LinkList.indices_remove_of_notMem hother]
      · simpa [view, State.modify, MainThread.at, LinkList.indices_remove_self honly] using hrelease
  | stopping stage sound =>
      simp only [Reclaim.mainStep, hmain]
      exact h.stopStep hmain key hapart
  | playing stage sound =>
      simp only [Reclaim.mainStep, hmain]
      exact h.playStep hmain key hapart

theorem Inv.beginStop (h : Inv s) (sound : ι) : Inv (beginStop s sound).2 := by
  unfold Reclaim.beginStop
  split
  · rename_i hmain
    have hat : (view s sound).main = .elsewhere := by simp [view, hmain, MainThread.at]
    split
    · rename_i hscript
      split
      · rename_i hplaying
        apply h.main_goes sound
        · intro y hy
          simp [hmain, MainThread.at, Ne.symm hy]
        · simpa [view, MainThread.at] using (h.good sound).begin_stop hat hscript hplaying
      · exact h
    · exact h
  · exact h

theorem Inv.beginPlay (h : Inv s) (sound : ι) : Inv (beginPlay s sound).2 := by
  unfold Reclaim.beginPlay
  split
  · rename_i hmain
    have hat : (view s sound).main = .elsewhere := by simp [view, hmain, MainThread.at]
    split
    · rename_i hscript
      have hplay := (h.good sound).begin_play hat hscript
      apply h.main_modifies sound
      · intro y hy
        split <;> simp [hmain, MainThread.at, Ne.symm hy]
      · cases hsome : (s.sounds sound).refrence.isSome with
        | true => simpa [view, MainThread.at, hsome] using hplay
        | false => simpa [view, MainThread.at, hsome] using hplay
    · exact h
  · exact h

theorem registered_iff (s : State ι) (x : ι) : s.registered x = true ↔ (view s x).refs ≠ [] := by
  rw [Ne, List.eq_nil_iff_forall_not_mem]
  simp [State.registered, view, LinkList.mem_indices]

/-- No call is under way about a stream that is not the argument of one. -/
theorem no_call_about {main : MainThread ι} {x : ι} (hargument : main.argument x = false) :
    (∀ stage, main.at x ≠ .stopping stage) ∧ ∀ stage, main.at x ≠ .playing stage := by
  cases main with
  | releasing sound =>
      simp only [MainThread.at]
      split <;> exact ⟨nofun, nofun⟩
  | stopping stage sound =>
      have hne : sound ≠ x := by simpa [MainThread.argument] using hargument
      simp [MainThread.at, hne]
  | playing stage sound =>
      have hne : sound ≠ x := by simpa [MainThread.argument] using hargument
      simp [MainThread.at, hne]
  | _ => exact ⟨nofun, nofun⟩

/-- One step of the client. -/
theorem Inv.step (h : Inv s) (i : Input ι) (hapart : apart s i = true) : Inv (step s i).2 := by
  cases i with
  | buffer => exact h.bufferStep hapart
  | use locked =>
      simp only [Reclaim.step, useStep]
      split
      · split
        · exact h
        · exact h
      · exact h
  | main key => exact h.mainStep key hapart
  | stop sound => exact h.beginStop sound
  | play sound => exact h.beginPlay sound
  | clean =>
      simp only [Reclaim.step]
      split
      · rename_i hmain
        have hgood := h.good
        simp only [view, hmain] at hgood
        exact ⟨h.keys, h.ahead, hgood⟩
      · exact h
  | forget sound =>
      refine h.of_one sound h.keys h.ahead ?_ ?_
      · intro y hy
        simp [Reclaim.step, view, hy]
      · simpa [Reclaim.step, view] using (h.good sound).forget
  | acquire sound =>
      simp only [Reclaim.step]
      split
      · rename_i hregistered
        refine h.of_one sound h.keys h.ahead ?_ ?_
        · intro y hy
          simp [view, hy]
        · simpa [view] using (h.good sound).acquire ((registered_iff s sound).mp hregistered)
      · exact h
  | collect sound =>
      simp only [Reclaim.step]
      split
      · rename_i hcollectable
        simp only [State.collectable, Bool.and_eq_true, Bool.not_eq_true'] at hcollectable
        obtain ⟨⟨hscript, hregistered⟩, hargument⟩ := hcollectable
        have hrefs : (view s sound).refs = [] := by
          by_contra hrefs
          simp [(registered_iff s sound).mpr hrefs] at hregistered
        obtain ⟨hstop, hplay⟩ := no_call_about hargument
        have hcollect := (h.good sound).collect hrefs hscript hstop hplay
        refine h.of_one sound h.keys h.ahead ?_ ?_
        · intro y hy
          simp [view, hy]
        · simpa [view] using hcollect
      · exact h

theorem bufferStep_touches {x : ι} (htouch : (bufferStep s).1 = some x) :
    (∃ index next, s.thread = .walking ((index, x) :: next)) ∨ s.thread.at x ≠ .elsewhere := by
  cases hthread : s.thread with
  | away => simp [Reclaim.bufferStep, hthread] at htouch
  | walking current =>
      cases current with
      | nil => simp [Reclaim.bufferStep, hthread] at htouch
      | cons node next =>
          obtain ⟨index, sound⟩ := node
          simp only [Reclaim.bufferStep, hthread] at htouch
          split at htouch
          · exact .inl ⟨index, next, by rw [Option.some.inj htouch]⟩
          · exact .inl ⟨index, next, by rw [Option.some.inj htouch]⟩
  | pinning stage sound next =>
      refine .inr ?_
      have hsound : sound = x := by
        cases stage <;> simp only [Reclaim.bufferStep, hthread] at htouch
        · exact Option.some.inj htouch
        · split at htouch <;> exact Option.some.inj htouch
        · exact Option.some.inj htouch
      simp [BufferThread.at, hsound]
  | pinned stage sound =>
      refine .inr ?_
      have hsound : sound = x := by
        cases stage <;> simp only [Reclaim.bufferStep, hthread] at htouch
        · split at htouch
          · cases htouch
          · exact Option.some.inj htouch
        · exact Option.some.inj htouch
        · split at htouch <;> exact Option.some.inj htouch
        · split at htouch <;> exact Option.some.inj htouch
        · exact Option.some.inj htouch
      simp [BufferThread.at, hsound]
  | relocking sound =>
      simp only [Reclaim.bufferStep, hthread] at htouch
      split at htouch <;> cases htouch

theorem stopStep_touches {stage : Stop} {sound x : ι}
    (htouch : (Reclaim.stopStep s sound stage).1 = some x) : sound = x := by
  cases stage with
  | marking => exact Option.some.inj htouch
  | transferring => exact Option.some.inj htouch
  | checkingUse =>
      simp only [Reclaim.stopStep] at htouch
      split at htouch <;> exact Option.some.inj htouch
  | _ =>
      simp only [Reclaim.stopStep] at htouch
      split at htouch
      · cases htouch
      · exact Option.some.inj htouch

theorem playStep_touches {stage : Play} {key : Nat} {sound x : ι}
    (htouch : (Reclaim.playStep s sound key stage).1 = some x) : sound = x := by
  cases stage with
  | clearing => exact Option.some.inj htouch
  | loading =>
      simp only [Reclaim.playStep] at htouch
      split at htouch <;> exact Option.some.inj htouch
  | cancelling =>
      simp only [Reclaim.playStep] at htouch
      split at htouch <;> exact Option.some.inj htouch
  | referencing =>
      simp only [Reclaim.playStep] at htouch
      split at htouch
      · exact Option.some.inj htouch
      · split at htouch
        · cases htouch
        · exact Option.some.inj htouch
  | _ =>
      simp only [Reclaim.playStep] at htouch
      split at htouch
      · cases htouch
      · exact Option.some.inj htouch

theorem mainStep_touches {key : Nat} {x : ι} (htouch : (mainStep s key).1 = some x) :
    s.main.at x ≠ .elsewhere := by
  cases hmain : s.main with
  | idle => simp [Reclaim.mainStep, hmain] at htouch
  | popping =>
      simp only [Reclaim.mainStep, hmain] at htouch
      split at htouch
      · cases htouch
      · split at htouch <;> cases htouch
  | releasing sound =>
      have hsound : sound = x := by
        simp only [Reclaim.mainStep, hmain] at htouch
        split at htouch <;> exact Option.some.inj htouch
      simp [MainThread.at, hsound]
  | stopping stage sound =>
      simp only [Reclaim.mainStep, hmain] at htouch
      simp [MainThread.at, stopStep_touches htouch]
  | playing stage sound =>
      simp only [Reclaim.mainStep, hmain] at htouch
      simp [MainThread.at, playStep_touches htouch]

theorem Inv.untouched (h : Inv s) (i : Input ι) (x : ι) (htouch : (Reclaim.step s i).1 = some x) :
    s.collected x = false := by
  have hgood := h.good x
  cases i with
  | buffer =>
      rcases bufferStep_touches htouch with ⟨index, next, hthread⟩ | hat
      · have hahead := h.ahead (index, x)
        rw [hthread] at hahead
        have hlisted := hahead (List.mem_cons_self ..)
        obtain ⟨ref, href, -⟩ := hgood.ref_mem (.inl (LinkList.mem_indices.mpr hlisted))
        exact hgood.not_collected_of_refs (List.ne_nil_of_mem href)
      · exact hgood.not_collected_of_refs (hgood.refs_ne_nil hat)
  | use locked =>
      simp only [Reclaim.step, useStep] at htouch
      split at htouch
      · rename_i sound hthread
        split at htouch
        · cases htouch
        · have hat : (view s x).thread ≠ .elsewhere := by
            simp [view, hthread, BufferThread.at, Option.some.inj htouch]
          exact hgood.not_collected_of_refs (hgood.refs_ne_nil hat)
      · cases htouch
  | main key => exact hgood.not_collected (mainStep_touches htouch)
  | stop sound =>
      apply hgood.not_collected_of_script
      simp only [Reclaim.step, Reclaim.beginStop] at htouch
      split at htouch
      · split at htouch
        · rename_i hscript
          split at htouch <;> exact Option.some.inj htouch ▸ hscript
        · cases htouch
      · cases htouch
  | play sound =>
      apply hgood.not_collected_of_script
      simp only [Reclaim.step, Reclaim.beginPlay] at htouch
      split at htouch
      · split at htouch
        · rename_i hscript
          exact Option.some.inj htouch ▸ hscript
        · cases htouch
      · cases htouch
  | clean =>
      simp only [Reclaim.step] at htouch
      split at htouch <;> cases htouch
  | forget sound => cases htouch
  | acquire sound =>
      simp only [Reclaim.step] at htouch
      split at htouch <;> cases htouch
  | collect sound =>
      simp only [Reclaim.step] at htouch
      split at htouch <;> cases htouch

theorem Inv.safe (h : Inv s) : Safe s :=
  ⟨h.untouched, fun x _ => (h.good x).queued_length⟩

end Steps

section Overlaps

variable {s : State ι} {x : ι} {key : Nat}

theorem eq_pinned_of_at {thread : BufferThread ι} {stage : Pinned}
    (hat : thread.at x = .pinned stage) : thread = .pinned stage x := by
  cases thread with
  | pinned stage' sound =>
      rw [BufferThread.at] at hat
      split at hat
      · rename_i hsound
        cases hat
        rw [hsound]
      · cases hat
  | pinning stage' sound next =>
      rw [BufferThread.at] at hat
      split at hat <;> cases hat
  | _ => cases hat

theorem eq_stopping_of_at {main : MainThread ι} {stage : Stop} (hat : main.at x = .stopping stage) :
    main = .stopping stage x := by
  cases main with
  | stopping stage' sound =>
      rw [MainThread.at] at hat
      split at hat
      · rename_i hsound
        cases hat
        rw [hsound]
      · cases hat
  | releasing sound =>
      rw [MainThread.at] at hat
      split at hat <;> cases hat
  | playing stage' sound =>
      rw [MainThread.at] at hat
      split at hat <;> cases hat
  | _ => cases hat

theorem unsafe_of_queued_twice (x : ι) (hreclaimed : (s.sounds x).reclaimed = true)
    (hqueued : (LinkList.indices s.reclaimList x).length = 2) : ¬ Safe s := by
  intro h
  have hle := h.queued_once x hreclaimed
  omega

/-- Both sides find that they have to queue the stream: the stop finds the count at 0, and
the buffer thread, behind its decrement, the mark and the reference. -/
theorem unsafe_of_both_queue
    (hthread : s.thread = .pinned .unpinned x ∨ s.thread = .pinned .checking x)
    (hmain : s.main = .stopping .checkingUse x) (hcount : (s.sounds x).usecount = 0)
    (hreclaimed : (s.sounds x).reclaimed = true)
    (hreclaimRef : (s.sounds x).reclaimRef.isSome = true)
    (hqueued : LinkList.indices s.reclaimList x = []) :
    ∃ later, ¬ Safe (Machine.final step s later) := by
  rcases hthread with hunpinned | hchecking
  · refine ⟨[.main 0, .main 0, .buffer, .buffer, .buffer], unsafe_of_queued_twice x ?_ ?_⟩
    · simp [Machine.final, step, mainStep, stopStep, bufferStep, BufferThread.holdsInner, listAdd,
        hunpinned, hmain, hcount, hreclaimed, hreclaimRef]
    · simp [Machine.final, step, mainStep, stopStep, bufferStep, BufferThread.holdsInner, listAdd,
        hunpinned, hmain, hcount, hreclaimed, hreclaimRef, hqueued]
  · refine ⟨[.main 0, .main 0, .buffer, .buffer], unsafe_of_queued_twice x ?_ ?_⟩
    · simp [Machine.final, step, mainStep, stopStep, bufferStep, BufferThread.holdsInner, listAdd,
        hchecking, hmain, hcount, hreclaimed, hreclaimRef]
    · simp [Machine.final, step, mainStep, stopStep, bufferStep, BufferThread.holdsInner, listAdd,
        hchecking, hmain, hcount, hreclaimRef, hqueued]

/-- The count is decremented when the stop is about to look at it. -/
theorem unsafe_of_decrement (h : Inv s) (hthread : s.thread = .pinned .inUse x)
    (hmain : s.main = .stopping .checkingUse x) :
    ∃ later, ¬ Safe (Machine.final step (step s .buffer).2 later) := by
  obtain ⟨⟨place, ref, hstands⟩, husecount, -, -⟩ := h.good x
  have hthreads := hstands.threads
  simp only [view, hmain, MainThread.at, if_true] at hthreads
  have hplace : place = .kept := by
    cases place <;> simp_all
  subst hplace
  have hreclaimed : (s.sounds x).reclaimed = true := by
    simp_all
  have hreclaimRef : (s.sounds x).reclaimRef = some ref := hstands.reclaimRef
  have hqueued : LinkList.indices s.reclaimList x = [] := hstands.queued
  have hcount : (s.sounds x).usecount = 1 := by
    simpa [view, hthread, BufferThread.at] using husecount
  simp only [step, bufferStep, hthread, if_pos hcount]
  exact unsafe_of_both_queue (.inl rfl) hmain (by simp [State.modify, hcount])
    (by simp [State.modify, hreclaimed]) (by simp [State.modify, hreclaimRef]) hqueued

/-- The reference moves behind the decrement of an unpin that goes on. -/
theorem unsafe_of_transfer (h : Inv s) (hmain : s.main = .stopping .transferring x)
    (hthread : (s.thread.at x).unpinning = true) :
    ∃ later, ¬ Safe (Machine.final step (step s (.main key)).2 later) := by
  obtain ⟨⟨place, ref, hstands⟩, husecount, -, -⟩ := h.good x
  have hthreads := hstands.threads
  simp only [view, hmain, MainThread.at, if_true] at hthreads
  have hplace : place = .unlisted := by
    cases place <;> simp_all
  subst hplace
  have hrefrence : (s.sounds x).refrence = some ref := hstands.refrence
  have hqueued : LinkList.indices s.reclaimList x = [] := hstands.queued
  simp only [allowed, Bool.and_eq_true, decide_eq_true_eq] at hthreads
  obtain ⟨⟨hreclaimed, -⟩, hnotQueueing⟩ := hthreads
  have hstage : s.thread.at x = .pinned .unpinned ∨ s.thread.at x = .pinned .checking := by
    cases hat : s.thread.at x with
    | pinned stage => cases stage <;> simp_all
    | _ => simp [hat] at hthread
  have hcount : (s.sounds x).usecount = 0 := by
    rcases hstage with hat | hat <;> simpa [view, hat] using husecount
  have hpinned := hstage.imp eq_pinned_of_at eq_pinned_of_at
  simp only [step, mainStep, hmain, stopStep]
  exact unsafe_of_both_queue hpinned rfl (by simp [State.modify, hrefrence, hcount])
    (by simp [State.modify, hrefrence, hreclaimed]) (by simp [State.modify, hrefrence]) hqueued

/-- The reference is taken back when the buffer thread is about to queue the stream: the
node is added for a stream that plays, under no reference, and is there at the next stop. -/
theorem unsafe_of_take_back (h : Inv s) (hmain : s.main = .playing .cancelling x)
    (hthread : s.thread.at x = .pinned .queueing) :
    ∃ later, ¬ Safe (Machine.final step (step s (.main key)).2 later) := by
  obtain ⟨⟨place, ref, hstands⟩, husecount, -, -⟩ := h.good x
  have hthreads := hstands.threads
  simp only [view, hmain, hthread, MainThread.at, if_true] at hthreads
  have hplace : place = .kept := by
    cases place <;> simp_all
  subst hplace
  have hpinned := eq_pinned_of_at hthread
  have hreclaimRef : (s.sounds x).reclaimRef = some ref := hstands.reclaimRef
  have hqueued : LinkList.indices s.reclaimList x = [] := hstands.queued
  have hrefs : (view s x).refs ≠ [] := by
    rw [hstands.refs]
    exact List.cons_ne_nil _ _
  have hregistered : s.registry.any (fun node => node.2 = x) = true :=
    (registered_iff s x).mpr hrefs
  have hcount : (s.sounds x).usecount = 0 := by
    simpa [view, hthread] using husecount
  have hstays : LinkList.indices (LinkList.remove (some ref) ((none, x) :: s.reclaimList)) x =
      [none] := by
    have hother : some ref ∉ LinkList.indices ((none, x) :: s.reclaimList) x := by
      simp [hqueued]
    rw [LinkList.indices_remove_of_notMem hother, LinkList.indices_cons_self, hqueued]
  refine ⟨[.buffer, .main 0, .main 0, .main 0, .acquire x, .play x, .stop x, .main 0, .main 0,
    .main 0, .main 0, .main 0], unsafe_of_queued_twice x ?_ ?_⟩
  · simp [Machine.final, step, mainStep, playStep, beginPlay, beginStop, stopStep, bufferStep,
      State.registered, State.modify, BufferThread.holdsInner, listAdd, hpinned, hmain, hcount,
      hreclaimRef, hregistered]
  · simp [Machine.final, step, mainStep, playStep, beginPlay, beginStop, stopStep, bufferStep,
      State.registered, State.modify, BufferThread.holdsInner, listAdd, listRemove, hpinned, hmain,
      hcount, hreclaimRef, hregistered, hstays]

/-- Every step that is not apart leads to a state from which the client can become unsafe. -/
theorem unsafe_of_overlap (h : Inv s) {i : Input ι} (hoverlap : apart s i = false) :
    ∃ later, ¬ Safe (Machine.final step (step s i).2 later) := by
  cases i with
  | buffer =>
      simp only [apart] at hoverlap
      split at hoverlap
      · rename_i x hthread
        have hat : s.main.at x = .stopping .checkingUse := by simpa using hoverlap
        exact unsafe_of_decrement h hthread (eq_stopping_of_at hat)
      · cases hoverlap
  | main key =>
      simp only [apart] at hoverlap
      split at hoverlap
      · rename_i x hmain
        exact unsafe_of_transfer h hmain (by simpa using hoverlap)
      · rename_i x hmain
        exact unsafe_of_take_back h hmain (by simpa using hoverlap)
      · cases hoverlap
  | _ => cases hoverlap

end Overlaps

theorem inv_opened : Inv (opened : State ι) := by
  refine ⟨List.nodup_nil, List.forall_mem_nil _, ?_⟩
  intro x
  exact ⟨⟨.released, 0, rfl, rfl, rfl, rfl, rfl, rfl⟩, rfl, nofun, nofun⟩

/-- No unpin of a stream overlaps the end of a stop of it, or a call of `play`. -/
def Apart (inputs : List (Input ι)) : Prop :=
  Machine.Along step (fun s i => apart s i = true) opened inputs

/-- The run lemma. -/
theorem inv_of_apart (inputs : List (Input ι)) (hinputs : Apart inputs) :
    Inv (Machine.final step opened inputs) := by
  refine Machine.outputs_invariant (fun s _ => Inv s) ?_ opened [] inputs inv_opened hinputs
  intro s _ i hs hi
  exact hs.step i hi

/-- The condition leaves out no step without need: the first one that is not apart can be
followed by others to an unsafe state. -/
theorem exists_unsafe_of_overlap (inputs : List (Input ι)) (hinputs : Apart inputs)
    {i : Input ι} (hoverlap : apart (Machine.final step opened inputs) i = false) :
    ∃ later, ¬ Safe (Machine.final step opened (inputs ++ i :: later)) := by
  obtain ⟨later, hunsafe⟩ := unsafe_of_overlap (inv_of_apart inputs hinputs) hoverlap
  exact ⟨later, by rwa [Machine.final_append]⟩

/-- For all streams and every order of steps in which no unpin of a stream overlaps the end
of a stop of it: the state reached is safe. -/
theorem safe_of_apart (inputs : List (Input ι)) (hinputs : Apart inputs) :
    Safe (Machine.final step opened inputs) :=
  (inv_of_apart inputs hinputs).safe

/-- A stop while the buffer thread uses the stream, which it then queues itself. -/
theorem safe_of_apart_stopped_in_use :
    Safe (Machine.final step (opened : State Nat)
      [.play 0, .main 7, .main 7, .main 7, .buffer, .buffer, .buffer, .buffer, .buffer, .use false,
        .stop 0, .main 7, .main 7, .main 7, .main 7, .buffer, .buffer, .buffer, .buffer,
        .clean, .main 7, .main 7, .main 7, .forget 0, .collect 0]) :=
  safe_of_apart _
    ⟨rfl, rfl, rfl, rfl, rfl, rfl, rfl, rfl, rfl, rfl, rfl, rfl, rfl, rfl, rfl, rfl, rfl, rfl, rfl,
      rfl, rfl, rfl, rfl, rfl, rfl, trivial⟩

/-- A whole stop behind the decrement of an unpin: the stop queues the stream, and so does
the buffer thread; or the stream is given back and collected before the buffer thread
looks at `reclaimed`. -/
theorem stop_behind_decrement :
    (¬ ∀ (inputs : List (Input Nat)) (x : Nat),
      ((Machine.final step opened inputs).sounds x).reclaimed = true →
        (LinkList.indices (Machine.final step opened inputs).reclaimList x).length ≤ 1) ∧
    ¬ ∀ (inputs : List (Input Nat)) (i : Input Nat) (x : Nat),
      (step (Machine.final step opened inputs) i).1 = some x →
        (Machine.final step opened inputs).collected x = false := by
  constructor
  · intro h
    have htwice := h
      [.play 0, .main 7, .main 7, .main 7, .buffer, .buffer, .buffer, .buffer, .buffer, .buffer,
        .stop 0, .main 7, .main 7, .main 7, .main 7, .main 7, .buffer, .buffer, .buffer] 0 rfl
    exact absurd htwice (by decide)
  · intro h
    have hlate := h
      [.play 0, .main 7, .main 7, .main 7, .buffer, .buffer, .buffer, .buffer, .buffer, .buffer,
        .stop 0, .main 7, .main 7, .main 7, .main 7, .main 7,
        .clean, .main 7, .main 7, .main 7, .forget 0, .collect 0] .buffer 0 rfl
    exact absurd hlate (by decide)

end LuaMumble.Audio.Reclaim
