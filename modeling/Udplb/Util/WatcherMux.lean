import Udplb.Foundation.Trace

/-!
# The watcher multiplexer

A dispatch takes a snapshot of the registered watchers under the lock and then
makes one select for each of them without it.  Cancelling a watcher closes its
channel under the lock; closing the multiplexer closes the channels of a
snapshot of its own, without the lock and without unregistering anyone.  A
select that finds a channel closed may take its send case, and panics.
-/

namespace Udplb.Util

open Udplb.Foundation

structure Watcher (α : Type) where
  /-- The values in the channel's buffer. -/
  ch : List α
  /-- The channel is closed; `closeOnce` closes it at most once. -/
  chClosed : Bool
  doneCh : Bool
  filter : Option (α → Bool)
  registered : Bool

def Watcher.accepts {α : Type} (w : Watcher α) (v : α) : Bool :=
  match w.filter with
  | none => true
  | some filter => filter v

inductive DispatchFunc where
  | nonBlocking
  | withTimeout
  deriving DecidableEq, Repr

/-- A call of `Dispatch`: its value and the part of its snapshot still to do. -/
structure DispatchCall (α : Type) where
  value : α
  remaining : List Nat

/-- A watcher is known by its position, which is the id it was registered with. -/
structure WatcherMux (α : Type) where
  watchers : List (Watcher α)
  watcherChCapacity : Nat
  dispatchFunc : DispatchFunc
  calls : List (DispatchCall α)
  /-- What the call of `Close`, if any, still has to close. -/
  closing : Option (List Nat)
  doneCh : Bool

namespace WatcherMux

variable {α : Type}

def new (channelBufferSize : Nat) (dispatchFunc : DispatchFunc) : WatcherMux α :=
  ⟨[], channelBufferSize, dispatchFunc, [], none, false⟩

inductive Stop where
  | blocked
  | sendOnClosedChannel
  | closeOfClosedChannel
  deriving DecidableEq, Repr

/-- The case that a select takes; `handOver` sends to a waiting receiver. -/
inductive Choice where
  | skip
  | done
  | send
  | handOver
  | default
  | timeout
  deriving DecidableEq, Repr

/-- The order in a snapshot is the iteration order of the map. -/
inductive Event (α : Type) where
  | watch (filter : Option (α → Bool))
  | cancel (id : Nat)
  | snapshot (v : α) (order : List Nat)
  | select (call : Nat) (choice : Choice)
  | receive (id : Nat)
  | close (order : List Nat)
  | closeNext
  | closeDone

inductive Output (α : Type) where
  | dispatched (v : α) (order : List Nat)
  | selected (id : Nat) (v : α) (choice : Choice)
  | received (id : Nat) (v : α)

def getWatcherList (wm : WatcherMux α) : List Nat :=
  (List.range wm.watchers.length).filter fun id =>
    wm.watchers[id]?.any (·.registered)

/-- The select for one watcher. -/
def selectOne (dispatchFunc : DispatchFunc) (capacity : Nat) (w : Watcher α) (v : α)
    (choice : Choice) : Except Stop (Watcher α) :=
  if w.accepts v = false then
    if choice = .skip then .ok w else .error .blocked
  else
    match choice with
    | .skip => .error .blocked
    | .done => if w.doneCh then .ok w else .error .blocked
    | .send =>
        if w.chClosed then .error .sendOnClosedChannel
        else if w.ch.length < capacity then .ok { w with ch := w.ch ++ [v] }
        else .error .blocked
    | .handOver =>
        if w.chClosed then .error .sendOnClosedChannel
        else if w.ch.isEmpty then .ok w
        else .error .blocked
    | .default =>
        -- only when no case is ready, and a closed channel is
        if dispatchFunc = .nonBlocking ∧ w.doneCh = false ∧ w.chClosed = false ∧
            capacity ≤ w.ch.length then .ok w
        else .error .blocked
    | .timeout =>
        if dispatchFunc = .withTimeout then .ok w else .error .blocked

def selected (id : Nat) (v : α) (choice : Choice) : List (Output α) :=
  .selected id v choice :: if choice = .handOver then [.received id v] else []

def step (wm : WatcherMux α) : Event α → Except Stop (WatcherMux α × List (Output α))
  | .watch filter =>
      .ok ({ wm with watchers := wm.watchers ++ [⟨[], false, false, filter, true⟩] }, [])
  | .cancel id =>
      match wm.watchers[id]? with
      | none => .error .blocked
      | some w =>
          if w.doneCh then .error .closeOfClosedChannel
          else
            .ok ({ wm with
              watchers := wm.watchers.set id
                { w with doneCh := true, chClosed := true, registered := false } }, [])
  | .snapshot v order =>
      if order.Perm wm.getWatcherList then
        .ok ({ wm with calls := wm.calls ++ [⟨v, order⟩] }, [.dispatched v order])
      else .error .blocked
  | .select call choice =>
      match wm.calls[call]? with
      | some ⟨v, id :: rest⟩ =>
          match wm.watchers[id]? with
          | none => .error .blocked
          | some w => do
              let w' ← selectOne wm.dispatchFunc wm.watcherChCapacity w v choice
              .ok ({ wm with
                watchers := wm.watchers.set id w'
                calls := wm.calls.set call ⟨v, rest⟩ }, selected id v choice)
      | _ => .error .blocked
  | .receive id =>
      match wm.watchers[id]? with
      | some ⟨v :: ch, chClosed, doneCh, filter, registered⟩ =>
          .ok ({ wm with
            watchers := wm.watchers.set id ⟨ch, chClosed, doneCh, filter, registered⟩ },
            [.received id v])
      | _ => .error .blocked
  | .close order =>
      if wm.closing.isSome then .error .blocked
      else if order.Perm wm.getWatcherList then
        .ok ({ wm with closing := some order }, [])
      else .error .blocked
  | .closeNext =>
      match wm.closing with
      | some (id :: rest) =>
          match wm.watchers[id]? with
          | none => .error .blocked
          | some w =>
              .ok ({ wm with
                watchers := wm.watchers.set id { w with chClosed := true }
                closing := some rest }, [])
      | _ => .error .blocked
  | .closeDone =>
      match wm.closing with
      | some [] =>
          if wm.doneCh then .error .closeOfClosedChannel
          else .ok ({ wm with doneCh := true }, [])
      | _ => .error .blocked

/-! ## Channels that a dispatch would find closed -/

/-- A send of `v` to the watcher would find its channel closed. -/
def FindsClosed (watchers : List (Watcher α)) (id : Nat) (v : α) : Prop :=
  (watchers[id]?.any fun w => w.accepts v && w.chClosed) = true

/-- Some dispatch has the watcher in its snapshot and will send to it. -/
def Awaited (wm : WatcherMux α) (id : Nat) : Prop :=
  ∃ call ∈ wm.calls, id ∈ call.remaining ∧
    (wm.watchers[id]?.any fun w => w.accepts call.value) = true

/--
A channel is closed only when no dispatch under way will send on it, and no
dispatch is started while the channel of a registered watcher is closed.
-/
def NoCloseUnderDispatch (wm : WatcherMux α) (_ : List (Output α)) : Event α → Prop
  | .cancel id => ¬Awaited wm id
  | .closeNext => ∀ id ∈ wm.closing.bind List.head?, ¬Awaited wm id
  | .snapshot v order => ∀ id ∈ order, ¬FindsClosed wm.watchers id v
  | .watch _ | .select _ _ | .receive _ | .close _ | .closeDone => True

instance (watchers : List (Watcher α)) (id : Nat) (v : α) :
    Decidable (FindsClosed watchers id v) :=
  inferInstanceAs (Decidable (_ = true))

instance (wm : WatcherMux α) (id : Nat) : Decidable (Awaited wm id) :=
  inferInstanceAs (Decidable (∃ call ∈ wm.calls, _ ∧ _))

instance (wm : WatcherMux α) (out : List (Output α)) :
    (event : Event α) → Decidable (NoCloseUnderDispatch wm out event)
  | .cancel id => inferInstanceAs (Decidable (¬Awaited wm id))
  | .closeNext =>
      inferInstanceAs (Decidable (∀ id ∈ wm.closing.bind List.head?, ¬Awaited wm id))
  | .snapshot v order =>
      inferInstanceAs (Decidable (∀ id ∈ order, ¬FindsClosed wm.watchers id v))
  | .watch _ | .select _ _ | .receive _ | .close _ | .closeDone =>
      inferInstanceAs (Decidable True)

/-- No dispatch under way will find a channel closed. -/
def ChannelsOpen (wm : WatcherMux α) : Prop :=
  ∀ call ∈ wm.calls, ∀ id ∈ call.remaining, ¬FindsClosed wm.watchers id call.value

theorem findsClosed_iff {watchers : List (Watcher α)} {id : Nat} {v : α} :
    FindsClosed watchers id v ↔ ∃ w, watchers[id]? = some w ∧
      w.accepts v = true ∧ w.chClosed = true := by
  unfold FindsClosed
  cases watchers[id]? <;> simp

/-- Another watcher in some position changes what is found in that position only. -/
theorem findsClosed_set {watchers : List (Watcher α)} {id j : Nat} {w : Watcher α}
    {v : α} (h : FindsClosed (watchers.set id w) j v) :
    (j = id ∧ w.accepts v = true ∧ w.chClosed = true) ∨
      FindsClosed watchers j v := by
  obtain ⟨w', hw', hfinds⟩ := findsClosed_iff.mp h
  rcases getElem?_set_cases hw' with ⟨rfl, rfl⟩ | ⟨-, hw'⟩
  · exact Or.inl ⟨rfl, hfinds⟩
  · exact Or.inr (findsClosed_iff.mpr ⟨w', hw', hfinds⟩)

/-- A watcher that keeps its filter and its channel open or closed. -/
theorem findsClosed_set_same {watchers : List (Watcher α)} {id j : Nat}
    {w w' : Watcher α} {v : α} (hw : watchers[id]? = some w)
    (hfilter : w'.filter = w.filter) (hclosed : w'.chClosed = w.chClosed) :
    FindsClosed (watchers.set id w') j v ↔ FindsClosed watchers j v := by
  have hlt : id < watchers.length := (List.getElem?_eq_some_iff.mp hw).1
  unfold FindsClosed
  by_cases hj : id = j
  · subst hj
    rw [List.getElem?_set_self hlt, hw]
    simp [Watcher.accepts, hfilter, hclosed]
  · rw [List.getElem?_set_ne hj]

/-- What the select for one watcher can come to. -/
inductive Selects (w : Watcher α) (v : α) : Except Stop (Watcher α) → Prop
  | taken (w' : Watcher α) (hfilter : w'.filter = w.filter)
      (hclosed : w'.chClosed = w.chClosed) (hregistered : w'.registered = w.registered) :
      Selects w v (.ok w')
  | blocked : Selects w v (.error .blocked)
  | panics (haccepts : w.accepts v = true) (hclosed : w.chClosed = true) :
      Selects w v (.error .sendOnClosedChannel)

theorem selectOne_selects (dispatchFunc : DispatchFunc) (capacity : Nat)
    (w : Watcher α) (v : α) (choice : Choice) :
    Selects w v (selectOne dispatchFunc capacity w v choice) := by
  unfold selectOne
  split
  · split
    · exact .taken w rfl rfl rfl
    · exact .blocked
  · rename_i haccepts
    have haccepts : w.accepts v = true := by simpa using haccepts
    cases choice with
    | skip => exact .blocked
    | done | default | timeout =>
        dsimp only
        split
        · exact .taken w rfl rfl rfl
        · exact .blocked
    | send | handOver =>
        dsimp only
        split
        · exact .panics haccepts (by assumption)
        · split
          · exact .taken _ rfl rfl rfl
          · exact .blocked

theorem selectOne_send_closed {dispatchFunc : DispatchFunc} {capacity : Nat}
    {w : Watcher α} {v : α} (haccepts : w.accepts v = true)
    (hclosed : w.chClosed = true) :
    selectOne dispatchFunc capacity w v .send = .error .sendOnClosedChannel := by
  simp [selectOne, haccepts, hclosed]

/-- Unless the channel is closed, some case of the select can be taken. -/
theorem exists_choice (dispatchFunc : DispatchFunc) (capacity : Nat) (w : Watcher α)
    (v : α) (h : w.accepts v = true → w.chClosed = false) :
    ∃ choice w', selectOne dispatchFunc capacity w v choice = .ok w' := by
  unfold selectOne
  cases haccepts : w.accepts v with
  | false => exact ⟨.skip, w, rfl⟩
  | true =>
      have hopen := h haccepts
      by_cases hroom : w.ch.length < capacity
      · exact ⟨.send, { w with ch := w.ch ++ [v] }, by simp [hopen, hroom]⟩
      · cases dispatchFunc with
        | withTimeout => exact ⟨.timeout, w, rfl⟩
        | nonBlocking =>
            cases hdone : w.doneCh with
            | true => exact ⟨.done, w, by simp⟩
            | false =>
                have hfull : capacity ≤ w.ch.length := by omega
                exact ⟨.default, w, by simp [hopen, hfull]⟩

/-- No dispatch will find a channel closed, and snapshots name known watchers. -/
structure Ready (wm : WatcherMux α) : Prop where
  channelsOpen : ChannelsOpen wm
  known : ∀ call ∈ wm.calls, ∀ id ∈ call.remaining, id < wm.watchers.length

/-! ## One step -/

/-- What a step that is taken does. -/
inductive Steps (wm : WatcherMux α) :
    Event α → WatcherMux α → List (Output α) → Prop
  | watched (filter : Option (α → Bool)) :
      Steps wm (.watch filter)
        { wm with watchers := wm.watchers ++ [⟨[], false, false, filter, true⟩] } []
  | cancelled (id : Nat) (w : Watcher α) (hw : wm.watchers[id]? = some w) :
      Steps wm (.cancel id)
        { wm with
          watchers := wm.watchers.set id
            { w with doneCh := true, chClosed := true, registered := false } } []
  | snapshot (v : α) (order : List Nat) (hperm : order.Perm wm.getWatcherList) :
      Steps wm (.snapshot v order) { wm with calls := wm.calls ++ [⟨v, order⟩] }
        [.dispatched v order]
  | selected (call id : Nat) (v : α) (rest : List Nat) (w w' : Watcher α)
      (choice : Choice) (hcall : wm.calls[call]? = some ⟨v, id :: rest⟩)
      (hw : wm.watchers[id]? = some w)
      (hselect : selectOne wm.dispatchFunc wm.watcherChCapacity w v choice = .ok w') :
      Steps wm (.select call choice)
        { wm with
          watchers := wm.watchers.set id w'
          calls := wm.calls.set call ⟨v, rest⟩ } (selected id v choice)
  | received (id : Nat) (v : α) (w : Watcher α) (ch : List α)
      (hw : wm.watchers[id]? = some w) (hch : w.ch = v :: ch) :
      Steps wm (.receive id)
        { wm with watchers := wm.watchers.set id { w with ch := ch } }
        [.received id v]
  | closing (order : List Nat) :
      Steps wm (.close order) { wm with closing := some order } []
  | closedNext (id : Nat) (rest : List Nat) (w : Watcher α)
      (hclosing : wm.closing = some (id :: rest)) (hw : wm.watchers[id]? = some w) :
      Steps wm .closeNext
        { wm with
          watchers := wm.watchers.set id { w with chClosed := true }
          closing := some rest } []
  | closed : Steps wm .closeDone { wm with doneCh := true } []

theorem steps_of_step_eq_ok {wm next : WatcherMux α} {event : Event α}
    {out : List (Output α)} (h : step wm event = .ok (next, out)) :
    Steps wm event next out := by
  cases event with
  | watch filter =>
      cases h
      exact .watched filter
  | cancel id =>
      simp only [step] at h
      split at h
      · cases h
      · split at h <;> cases h
        exact .cancelled id _ (by assumption)
  | snapshot v order =>
      simp only [step] at h
      split at h <;> cases h
      exact .snapshot v order (by assumption)
  | select call choice =>
      simp only [step] at h
      split at h
      · split at h
        · cases h
        · simp only [bind_eq_ok] at h
          obtain ⟨w', hselect, h⟩ := h
          cases h
          exact .selected call _ _ _ _ w' choice (by assumption) (by assumption) hselect
      · cases h
  | receive id =>
      simp only [step] at h
      split at h <;> cases h
      exact .received id _ _ _ (by assumption) rfl
  | close order =>
      simp only [step] at h
      split at h
      · cases h
      · split at h <;> cases h
        exact .closing order
  | closeNext =>
      simp only [step] at h
      split at h
      · split at h <;> cases h
        exact .closedNext _ _ _ (by assumption) (by assumption)
      · cases h
  | closeDone =>
      simp only [step] at h
      split at h
      · split at h <;> cases h
        exact .closed
      · cases h

/-- A step panics only when a dispatch under way finds a channel closed. -/
theorem findsClosed_of_step {wm : WatcherMux α} {event : Event α}
    (h : step wm event = .error .sendOnClosedChannel) :
    ∃ call ∈ wm.calls, ∃ id ∈ call.remaining,
      FindsClosed wm.watchers id call.value := by
  cases event with
  | watch filter => cases h
  | select call choice =>
      simp only [step] at h
      split at h
      · rename_i v id rest hcall
        split at h
        · cases h
        · rename_i w hw
          rcases bind_eq_error.mp h with hselect | ⟨w', -, hok⟩
          · have hselects := selectOne_selects wm.dispatchFunc wm.watcherChCapacity w v
              choice
            rw [hselect] at hselects
            cases hselects with
            | panics haccepts hclosed =>
                exact ⟨_, List.mem_of_getElem? hcall, id, by simp,
                  findsClosed_iff.mpr ⟨w, hw, haccepts, hclosed⟩⟩
          · cases hok
      · cases h
  | cancel id | snapshot v order | receive id | close order | closeNext | closeDone =>
      simp only [step] at h
      split at h
      all_goals first | cases h | (split at h <;> cases h)

theorem ready_new (channelBufferSize : Nat) (dispatchFunc : DispatchFunc) :
    Ready (new channelBufferSize dispatchFunc : WatcherMux α) :=
  ⟨by simp [ChannelsOpen, new], by simp [new]⟩

theorem getWatcherList_lt {wm : WatcherMux α} {order : List Nat}
    (hperm : order.Perm wm.getWatcherList) : ∀ id ∈ order, id < wm.watchers.length := by
  intro id hid
  have hmem := hperm.mem_iff.mp hid
  simpa using (List.mem_filter.mp hmem).1

/-- A step that changes one watcher, and closes its channel only if nobody waits. -/
theorem ready_set {wm : WatcherMux α} {id : Nat} {w w' : Watcher α} (h : Ready wm)
    (hw : wm.watchers[id]? = some w) (hfilter : w'.filter = w.filter)
    (hclosed : w'.chClosed = w.chClosed ∨ ¬Awaited wm id) :
    Ready { wm with watchers := wm.watchers.set id w' } := by
  refine ⟨?_, by simpa using h.known⟩
  intro call hcall j hj hfinds
  have hold := h.channelsOpen call hcall j hj
  rcases hclosed with hsame | hnot
  · exact hold ((findsClosed_set_same hw hfilter hsame).mp hfinds)
  · rcases findsClosed_set hfinds with ⟨rfl, haccepts, -⟩ | hfinds
    · apply hnot
      refine ⟨call, hcall, hj, ?_⟩
      rw [Watcher.accepts, hfilter] at haccepts
      simpa [hw, Watcher.accepts] using haccepts
    · exact hold hfinds

theorem steps_ready {wm next : WatcherMux α} {event : Event α}
    {out now : List (Output α)} (h : Ready wm)
    (hcond : NoCloseUnderDispatch wm out event) (hsteps : Steps wm event next now) :
    Ready next := by
  cases hsteps with
  | watched filter =>
      refine ⟨?_, ?_⟩
      · intro call hcall id hid hfinds
        have hlt := h.known call hcall id hid
        apply h.channelsOpen call hcall id hid
        simpa [FindsClosed, List.getElem?_append_left hlt] using hfinds
      · intro call hcall id hid
        have hlt := h.known call hcall id hid
        simp only [List.length_append, List.length_singleton]
        omega
  | cancelled id w hw => exact ready_set h hw rfl (Or.inr hcond)
  | snapshot v order hperm =>
      refine ⟨?_, ?_⟩
      · intro call hcall id hid
        rcases List.mem_append.mp hcall with hcall | hcall
        · exact h.channelsOpen call hcall id hid
        · cases List.mem_singleton.mp hcall
          exact hcond id hid
      · intro call hcall id hid
        rcases List.mem_append.mp hcall with hcall | hcall
        · exact h.known call hcall id hid
        · cases List.mem_singleton.mp hcall
          exact getWatcherList_lt hperm id hid
  | selected call id v rest w w' choice hcall hw hselect =>
      have hselects := selectOne_selects wm.dispatchFunc wm.watcherChCapacity w v choice
      rw [hselect] at hselects
      cases hselects with
      | taken _ hfilter hclosed =>
          obtain ⟨hopen, hknown⟩ := ready_set h hw hfilter (Or.inl hclosed)
          have hmem := List.mem_of_getElem? hcall
          refine ⟨?_, ?_⟩
          · intro call' hcall' j hj
            rcases List.mem_or_eq_of_mem_set hcall' with hold | rfl
            · exact hopen call' hold j hj
            · exact hopen _ hmem j (List.mem_cons_of_mem _ hj)
          · intro call' hcall' j hj
            rcases List.mem_or_eq_of_mem_set hcall' with hold | rfl
            · exact hknown call' hold j hj
            · exact hknown _ hmem j (List.mem_cons_of_mem _ hj)
  | received id v w ch hw hch => exact ready_set h hw rfl (Or.inl rfl)
  | closing order => exact ⟨h.channelsOpen, h.known⟩
  | closedNext id rest w hclosing hw =>
      have hnot : ¬Awaited wm id := hcond id (by simp [hclosing])
      have hready : Ready { wm with
          watchers := wm.watchers.set id { w with chClosed := true } } :=
        ready_set h hw rfl (Or.inr hnot)
      exact ⟨hready.channelsOpen, hready.known⟩
  | closed => exact ⟨h.channelsOpen, h.known⟩

theorem step_ready {wm : WatcherMux α} {event : Event α} {out : List (Output α)}
    (h : Ready wm) (hcond : NoCloseUnderDispatch wm out event) :
    (∀ stop, step wm event = .error stop → stop ≠ .sendOnClosedChannel) ∧
      ∀ next now, step wm event = .ok (next, now) → Ready next := by
  constructor
  · rintro stop hstep rfl
    obtain ⟨call, hcall, id, hid, hfinds⟩ := findsClosed_of_step hstep
    exact h.channelsOpen call hcall id hid hfinds
  · intro next now hstep
    exact steps_ready h hcond (steps_of_step_eq_ok hstep)

/-! ## A dispatch that finds a channel closed -/

def Event.isSelect : Event α → Bool
  | .select _ _ => true
  | _ => false

/-- The dispatch can go on until it comes to the closed channel, and panics. -/
theorem crash_of_findsClosed {wm : WatcherMux α} {call id : Nat} {v : α}
    {remaining : List Nat} (hcall : wm.calls[call]? = some ⟨v, remaining⟩)
    (hknown : ∀ j ∈ remaining, j < wm.watchers.length) (hid : id ∈ remaining)
    (hfinds : FindsClosed wm.watchers id v) :
    ∃ later, (∀ e ∈ later, Event.isSelect e = true) ∧
      run step wm later = .error .sendOnClosedChannel := by
  induction remaining generalizing wm with
  | nil => cases hid
  | cons head rest ih =>
      have hlt := hknown head (by simp)
      have hw : wm.watchers[head]? = some wm.watchers[head] :=
        List.getElem?_eq_getElem hlt
      by_cases hhead : FindsClosed wm.watchers head v
      · obtain ⟨w, hw', haccepts, hclosed⟩ := findsClosed_iff.mp hhead
        refine ⟨[.select call .send], by simp [Event.isSelect], ?_⟩
        apply run_cons_eq_error.mpr
        left
        simp only [step, hcall, hw', selectOne_send_closed haccepts hclosed]
        rfl
      · have hopen : wm.watchers[head].accepts v = true →
            wm.watchers[head].chClosed = false := by
          intro haccepts
          by_contra hclosed
          exact hhead (findsClosed_iff.mpr ⟨_, hw, haccepts, by simpa using hclosed⟩)
        obtain ⟨choice, w', hselect⟩ :=
          exists_choice wm.dispatchFunc wm.watcherChCapacity _ v hopen
        have hstep : step wm (.select call choice) = .ok ({ wm with
            watchers := wm.watchers.set head w'
            calls := wm.calls.set call ⟨v, rest⟩ }, selected head v choice) := by
          simp only [step, hcall, hw, hselect]
          rfl
        have hselects := selectOne_selects wm.dispatchFunc wm.watcherChCapacity
          wm.watchers[head] v choice
        rw [hselect] at hselects
        cases hselects with
        | taken _ hfilter hclosed =>
            have hrest : id ∈ rest := by
              rcases List.mem_cons.mp hid with rfl | hrest
              · exact absurd hfinds hhead
              · exact hrest
            have hlt' : call < wm.calls.length := (List.getElem?_eq_some_iff.mp hcall).1
            obtain ⟨later, hlater, hcrash⟩ := @ih { wm with
                watchers := wm.watchers.set head w'
                calls := wm.calls.set call ⟨v, rest⟩ }
              (List.getElem?_set_self hlt')
              (fun j hj => by simpa using hknown j (List.mem_cons_of_mem _ hj)) hrest
              ((findsClosed_set_same hw hfilter hclosed).mpr hfinds)
            refine ⟨.select call choice :: later, ?_, ?_⟩
            · simpa [Event.isSelect] using hlater
            · exact run_cons_eq_error.mpr (Or.inr ⟨_, _, hstep, hcrash⟩)

/-- Closing a channel that a dispatch will send on. -/
theorem crash_of_awaited {wm next : WatcherMux α} {id : Nat} {w : Watcher α}
    (w' : Watcher α) (h : Ready wm) (hw : wm.watchers[id]? = some w)
    (hfilter : w'.filter = w.filter)
    (hclosed : w'.chClosed = true) (hawaited : Awaited wm id)
    (hwatchers : next.watchers = wm.watchers.set id w')
    (hcalls : next.calls = wm.calls) :
    ∃ later, (∀ e ∈ later, Event.isSelect e = true) ∧
      run step next later = .error .sendOnClosedChannel := by
  obtain ⟨call, hcall, hid, haccepts⟩ := hawaited
  obtain ⟨i, hi⟩ := List.mem_iff_getElem?.mp hcall
  have hlt : id < wm.watchers.length := (List.getElem?_eq_some_iff.mp hw).1
  have hfinds : FindsClosed next.watchers id call.value := by
    rw [findsClosed_iff, hwatchers]
    refine ⟨w', List.getElem?_set_self hlt, ?_, hclosed⟩
    rw [Watcher.accepts, hfilter]
    simpa [hw, Watcher.accepts] using haccepts
  refine crash_of_findsClosed (hcalls ▸ hi) ?_ hid hfinds
  intro j hj
  rw [hwatchers, List.length_set]
  exact h.known call hcall j hj

theorem crash_of_not_cond {wm next : WatcherMux α} {event : Event α}
    {out now : List (Output α)} (h : Ready wm)
    (hfail : ¬NoCloseUnderDispatch wm out event) (hsteps : Steps wm event next now) :
    ∃ later, (∀ e ∈ later, Event.isSelect e = true) ∧
      run step next later = .error .sendOnClosedChannel := by
  cases hsteps with
  | cancelled id w hw =>
      exact crash_of_awaited
        { w with doneCh := true, chClosed := true, registered := false } h hw rfl rfl
        (not_not.mp hfail) rfl rfl
  | closedNext id rest w hclosing hw =>
      simp only [NoCloseUnderDispatch, hclosing, Option.bind_some, List.head?_cons,
        Option.mem_some, forall_eq', not_not] at hfail
      exact crash_of_awaited { w with chClosed := true } h hw rfl rfl hfail rfl rfl
  | snapshot v order hperm =>
      simp only [NoCloseUnderDispatch, not_forall, not_not] at hfail
      obtain ⟨id, hid, hfinds⟩ := hfail
      exact crash_of_findsClosed List.getElem?_concat_length (getWatcherList_lt hperm)
        hid hfinds
  | watched | selected | received | closing | closed => exact absurd trivial hfail

/-! ## A whole run -/

theorem run_ready {channelBufferSize : Nat} {dispatchFunc : DispatchFunc}
    {events : List (Event α)} {wm : WatcherMux α} {out : List (Output α)}
    (halong : Along step NoCloseUnderDispatch (new channelBufferSize dispatchFunc) []
      events)
    (hrun : run step (new channelBufferSize dispatchFunc) events = .ok (wm, out)) :
    Ready wm := by
  refine run_induction (fun wm _ => Ready wm)
    (ready_new channelBufferSize dispatchFunc) ?_ halong hrun
  intro s now event next now' hinv hcond hstep
  exact (step_ready hinv hcond).2 next now' hstep

/--
In a run whose steps can all be taken, no dispatch sends on a closed channel, now
or in any continuation of its selects, if and only if no channel is closed while
a dispatch under way will send on it, and no dispatch is started when the channel
of a registered watcher that accepts its value is closed.
-/
theorem never_sends_on_closed_iff (channelBufferSize : Nat)
    (dispatchFunc : DispatchFunc) (events : List (Event α))
    (henabled : ∀ stop,
      run step (new channelBufferSize dispatchFunc) events = .error stop →
        stop = .sendOnClosedChannel) :
    (∀ first later, first <+: events → (∀ e ∈ later, Event.isSelect e = true) →
      run step (new channelBufferSize dispatchFunc) (first ++ later) ≠
        .error .sendOnClosedChannel) ↔
      Along step NoCloseUnderDispatch (new channelBufferSize dispatchFunc) [] events := by
  refine safe_iff_along (· ≠ .error Stop.sendOnClosedChannel)
    (fun e : Event α => Event.isSelect e = true) ?_ ?_ ?_
  · intro wm now event hselect
    cases event with
    | select call choice => trivial
    | _ => cases hselect
  · intro events halong hcrash
    exact run_errors (fun wm _ => Ready wm) (· ≠ .sendOnClosedChannel)
      (ready_new channelBufferSize dispatchFunc)
      (fun wm now event hinv hcond => step_ready hinv hcond) halong hcrash rfl
  · rintro first event rest wm now rfl hrun hfirst hfail
    have hready := run_ready hfirst hrun
    cases hstep : step wm event with
    | error stop =>
        have hstop := henabled stop (run_append_eq_error hrun
          (run_cons_eq_error.mpr (Or.inl hstep)))
        rw [hstop] at hstep
        obtain ⟨call, hcall, id, hid, hfinds⟩ := findsClosed_of_step hstep
        exact absurd hfinds (hready.channelsOpen call hcall id hid)
    | ok result =>
        obtain ⟨next, out⟩ := result
        obtain ⟨later, hlater, hcrash⟩ :=
          crash_of_not_cond hready hfail (steps_of_step_eq_ok hstep)
        refine ⟨[event], later, List.prefix_rfl, hlater, not_not.mpr ?_⟩
        apply run_append_eq_error hrun
        exact run_cons_eq_error.mpr (Or.inr ⟨next, out, hstep, hcrash⟩)

/-- Two watchers, one of them cancelled between two dispatches. -/
def exampleCancelBetween : List (Event Nat) :=
  [.watch none, .watch none, .snapshot 1 [1, 0], .select 0 .send, .select 0 .send,
    .cancel 0, .snapshot 2 [1], .receive 1, .select 1 .send]

theorem never_sends_on_closed_between :
    (∀ stop, run step (new 10 .nonBlocking) exampleCancelBetween = .error stop →
      stop = .sendOnClosedChannel) ∧
    Along step NoCloseUnderDispatch (new 10 .nonBlocking) [] exampleCancelBetween ∧
    ∀ first later, first <+: exampleCancelBetween →
      (∀ e ∈ later, Event.isSelect e = true) →
      run step (new 10 .nonBlocking) (first ++ later) ≠
        .error .sendOnClosedChannel := by
  have hreturns : (run step (new 10 .nonBlocking) exampleCancelBetween).toOption.isSome =
      true := by
    decide
  have henabled : ∀ stop,
      run step (new 10 .nonBlocking) exampleCancelBetween = .error stop →
        stop = .sendOnClosedChannel := by
    intro stop hstop
    rw [hstop] at hreturns
    cases hreturns
  have halong : Along step NoCloseUnderDispatch (new 10 .nonBlocking) []
      exampleCancelBetween := by
    decide
  exact ⟨henabled, halong,
    (never_sends_on_closed_iff 10 .nonBlocking _ henabled).mpr halong⟩

/--
The watcher is cancelled between the snapshot and its select; after `Close` it is
still registered, with a closed channel.
-/
theorem dispatch_sends_on_closed :
    (run step (new 10 .nonBlocking)
      [.watch none, .snapshot 1 [0], .cancel 0, .select 0 .send] :
        Except Stop (WatcherMux Nat × List (Output Nat))).map (fun _ => ()) =
      .error .sendOnClosedChannel ∧
    (run step (new 10 .withTimeout)
      [.watch none, .close [0], .closeNext, .closeDone, .snapshot 1 [0],
        .select 0 .send] :
        Except Stop (WatcherMux Nat × List (Output Nat))).map (fun _ => ()) =
      .error .sendOnClosedChannel := by
  decide

end WatcherMux

end Udplb.Util
