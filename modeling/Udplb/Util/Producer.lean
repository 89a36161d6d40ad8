import Udplb.Util.WatcherStream

/-!
# A multiplexer and the goroutine that feeds it

Each multiplexer of the program is fed by the loop of one goroutine: it calls
`Dispatch` for one value after the other, and `Close` when it leaves.  Watchers
come, go and receive in between.  The dispatches of such a loop never overlap,
so every watcher receives a part of the values in the order of the calls.
-/

namespace Udplb.Util

open Udplb.Foundation

variable {α : Type}

/-- Where the goroutine is with its calls of `Dispatch` and `Close`. -/
inductive Producing (α : Type) where
  | outside
  | calling (v : α)
  | dispatching
  | closing
  | closed

/-- The value that a call is about to dispatch. -/
def Producing.pending : Producing α → List α
  | .calling v => [v]
  | .outside | .dispatching | .closing | .closed => []

structure Producer (α : Type) where
  mux : WatcherMux α
  producing : Producing α

namespace Producer

def new (channelBufferSize : Nat) (dispatchFunc : DispatchFunc) : Producer α :=
  ⟨.new channelBufferSize dispatchFunc, .outside⟩

/-- The steps of the watchers, then those of the goroutine. -/
inductive Event (α : Type) where
  | watch (filter : Option (α → Bool))
  | cancel (id : Nat)
  | receive (id : Nat)
  | snapshot (order : List Nat)
  | select (choice : WatcherMux.Choice)
  | dispatched
  | close (order : List Nat)
  | closeNext
  | closeDone

def onMux (p : Producer α) (producing : Producing α) (event : WatcherMux.Event α) :
    Except WatcherMux.Stop (Producer α × List (WatcherMux.Output α)) := do
  let (mux, out) ← p.mux.step event
  .ok (⟨mux, producing⟩, out)

/-- The call that was started last has no watcher left. -/
def lastDone (mux : WatcherMux α) : Bool := mux.calls.getLast?.all (·.remaining.isEmpty)

def step (p : Producer α) :
    Event α → Except WatcherMux.Stop (Producer α × List (WatcherMux.Output α))
  | .watch filter => p.onMux p.producing (.watch filter)
  | .cancel id => p.onMux p.producing (.cancel id)
  | .receive id => p.onMux p.producing (.receive id)
  | .snapshot order =>
      match p.producing with
      | .calling v => p.onMux .dispatching (.snapshot v order)
      | _ => .error .blocked
  | .select choice =>
      match p.producing with
      | .dispatching => p.onMux .dispatching (.select (p.mux.calls.length - 1) choice)
      | _ => .error .blocked
  | .dispatched =>
      match p.producing with
      | .dispatching =>
          if lastDone p.mux then .ok ({ p with producing := .outside }, [])
          else .error .blocked
      | _ => .error .blocked
  | .close order =>
      match p.producing with
      | .closing => p.onMux .closing (.close order)
      | _ => .error .blocked
  | .closeNext =>
      match p.producing with
      | .closing => p.onMux .closing .closeNext
      | _ => .error .blocked
  | .closeDone =>
      match p.producing with
      | .closing => p.onMux .closed .closeDone
      | _ => .error .blocked

/-! ## What holds of a producer -/

/-- No call of `Dispatch` is under way. -/
def Idle (mux : WatcherMux α) : Prop := ∀ call ∈ mux.calls, call.remaining = []

structure Sound (p : Producer α) (out : List (WatcherMux.Output α)) : Prop where
  sequential : WatcherMux.Sequential p.mux out
  streams : ∀ id w, p.mux.watchers[id]? = some w →
    ∃ earlier seen, WatcherMux.Stream id w.filter earlier p.mux w out seen
  idle : p.producing ≠ .dispatching → Idle p.mux

theorem sound_new (channelBufferSize : Nat) (dispatchFunc : DispatchFunc) :
    Sound (new channelBufferSize dispatchFunc : Producer α) [] where
  sequential := WatcherMux.sequential_new channelBufferSize dispatchFunc
  streams := by simp [new, WatcherMux.new]
  idle := by simp [new, WatcherMux.new, Idle]

/-- The streams of the watchers go on, and a new watcher starts one. -/
theorem streams_step {mux next : WatcherMux α} {event : WatcherMux.Event α}
    {out now : List (WatcherMux.Output α)} (hseq : WatcherMux.Sequential mux out)
    (hstreams : ∀ id w, mux.watchers[id]? = some w →
      ∃ earlier seen, WatcherMux.Stream id w.filter earlier mux w out seen)
    (hone : WatcherMux.OneDispatcher mux out event)
    (hsteps : WatcherMux.Steps mux event next now) :
    ∀ id w, next.watchers[id]? = some w →
      ∃ earlier seen, WatcherMux.Stream id w.filter earlier next w (out ++ now) seen := by
  intro id w hw
  cases hold : mux.watchers[id]? with
  | some w₀ =>
      obtain ⟨earlier, seen, hstream⟩ := hstreams id w₀ hold
      obtain ⟨w', hstream'⟩ := WatcherMux.stream_step hseq hstream hone hsteps
      have hsame : w' = w := Option.some.inj (hstream'.watcher.symm.trans hw)
      subst hsame
      rw [hstream'.filter_eq]
      exact ⟨earlier, _, hstream'⟩
  | none =>
      have hge := List.getElem?_eq_none_iff.mp hold
      have hlt := (List.getElem?_eq_some_iff.mp hw).1
      cases hsteps with
      | watched filter =>
          have hid : id = mux.watchers.length := by
            simp only [List.length_append, List.length_singleton] at hlt
            omega
          subst hid
          have hnew : w = ⟨[], false, false, filter, true⟩ := by simpa using hw.symm
          subst hnew
          rw [List.append_nil]
          exact ⟨out, [], WatcherMux.stream_watch hseq filter⟩
      | cancelled | selected | received | closedNext =>
          simp only [List.length_set] at hlt
          omega
      | snapshot | closing | closed =>
          simp only at hlt
          omega

theorem onMux_eq_ok {p next : Producer α} {now : List (WatcherMux.Output α)}
    {producing : Producing α} {event : WatcherMux.Event α} :
    p.onMux producing event = .ok (next, now) ↔
      p.mux.step event = .ok (next.mux, now) ∧ next.producing = producing := by
  simp only [onMux, bind_eq_ok, Prod.exists]
  constructor
  · rintro ⟨mux, now', hmux, hnext⟩
    cases hnext
    exact ⟨hmux, rfl⟩
  · rintro ⟨hmux, rfl⟩
    exact ⟨next.mux, now, hmux, rfl⟩

theorem sound_onMux {p next : Producer α} {out now : List (WatcherMux.Output α)}
    {producing : Producing α} {event : WatcherMux.Event α} (h : Sound p out)
    (hstep : p.onMux producing event = .ok (next, now))
    (hone : WatcherMux.OneDispatcher p.mux out event)
    (hidle : ∀ mux now, WatcherMux.Steps p.mux event mux now →
      producing ≠ .dispatching → Idle mux) : Sound next (out ++ now) := by
  obtain ⟨hmux, rfl⟩ := onMux_eq_ok.mp hstep
  have hsteps := WatcherMux.steps_of_step_eq_ok hmux
  exact ⟨WatcherMux.sequential_step h.sequential hone hsteps,
    streams_step h.sequential h.streams hone hsteps, hidle next.mux now hsteps⟩

/-- The last call is the only one that can have watchers left. -/
theorem idle_of_lastDone {mux : WatcherMux α} {out : List (WatcherMux.Output α)}
    (h : WatcherMux.Sequential mux out) (hdone : lastDone mux = true) : Idle mux := by
  intro call hcall
  by_contra hremaining
  obtain ⟨k, hk⟩ := List.mem_iff_getElem?.mp hcall
  have hlast := h.last_only k call hk hremaining
  have hget : mux.calls.getLast? = some call := by
    rw [List.getLast?_eq_getElem?, ← hlast, Nat.add_sub_cancel]
    exact hk
  rw [lastDone, hget] at hdone
  exact hremaining (List.isEmpty_iff.mp hdone)

theorem sound_step {p next : Producer α} {out now : List (WatcherMux.Output α)}
    {event : Event α} (h : Sound p out) (hstep : p.step event = .ok (next, now)) :
    Sound next (out ++ now) := by
  cases event with
  | watch filter | cancel id | receive id =>
      refine sound_onMux h hstep trivial ?_
      intro mux now hsteps hproducing
      cases hsteps
      exact h.idle hproducing
  | snapshot order =>
      simp only [step] at hstep
      split at hstep
      · rename_i v hcalling
        -- the goroutine has left its last call when it starts another
        have hidle : Idle p.mux := h.idle (by rw [hcalling]; simp)
        exact sound_onMux h hstep hidle fun _ _ _ hne => absurd rfl hne
      · cases hstep
  | select choice =>
      simp only [step] at hstep
      split at hstep
      · exact sound_onMux h hstep trivial fun _ _ _ hne => absurd rfl hne
      · cases hstep
  | dispatched =>
      simp only [step] at hstep
      split at hstep
      · split at hstep <;> cases hstep
        rename_i hdone
        rw [List.append_nil]
        exact ⟨h.sequential, h.streams, fun _ => idle_of_lastDone h.sequential hdone⟩
      · cases hstep
  | close order | closeNext | closeDone =>
      simp only [step] at hstep
      split at hstep
      · rename_i hclosing
        refine sound_onMux h hstep trivial ?_
        intro mux now hsteps _
        cases hsteps
        exact h.idle (by rw [hclosing]; simp)
      · cases hstep

/-- The loop goes on to a call. -/
theorem Sound.setProducing {p : Producer α} {out : List (WatcherMux.Output α)}
    (h : Sound p out) (houtside : p.producing = .outside) (producing : Producing α) :
    Sound { p with producing := producing } out :=
  ⟨h.sequential, h.streams, fun _ => h.idle (by rw [houtside]; simp)⟩

/-- What a step of the multiplexer dispatches. -/
def dispatches : WatcherMux.Event α → List α
  | .snapshot v _ => [v]
  | .watch _ | .cancel _ | .select _ _ | .receive _ | .close _ | .closeNext | .closeDone => []

theorem dispatched_of_step {mux next : WatcherMux α} {event : WatcherMux.Event α}
    {now : List (WatcherMux.Output α)} (hstep : mux.step event = .ok (next, now)) :
    WatcherMux.dispatched now = dispatches event := by
  cases WatcherMux.steps_of_step_eq_ok hstep with
  | selected => exact WatcherMux.dispatched_selected _ _ _
  | watched | cancelled | snapshot | received | closing | closedNext | closed => rfl

/-- Only the snapshot of a call dispatches, and it is the pending value. -/
theorem dispatched_append_pending {p next : Producer α} {event : Event α}
    {now : List (WatcherMux.Output α)} (hstep : p.step event = .ok (next, now)) :
    WatcherMux.dispatched now ++ next.producing.pending = p.producing.pending := by
  cases event with
  | watch filter | cancel id | receive id =>
      obtain ⟨hmux, hproducing⟩ := onMux_eq_ok.mp hstep
      rw [dispatched_of_step hmux, hproducing]
      rfl
  | dispatched =>
      simp only [step] at hstep
      split at hstep
      · rename_i hdispatching
        split at hstep <;> cases hstep
        rw [hdispatching]
        rfl
      · cases hstep
  | snapshot order | select choice | close order | closeNext | closeDone =>
      simp only [step] at hstep
      split at hstep
      · rename_i hproducing
        obtain ⟨hmux, hnext⟩ := onMux_eq_ok.mp hstep
        rw [dispatched_of_step hmux, hnext, hproducing]
        rfl
      · cases hstep

/-- The goroutine is not sent into a call by anybody else. -/
theorem producing_outside {p next : Producer α} {event : Event α}
    {now : List (WatcherMux.Output α)} (houtside : p.producing = .outside)
    (hstep : p.step event = .ok (next, now)) : next.producing = .outside := by
  cases event with
  | watch filter | cancel id | receive id =>
      rw [(onMux_eq_ok.mp hstep).2, houtside]
  | snapshot order | select choice | dispatched | close order | closeNext | closeDone =>
      simp only [step, houtside] at hstep
      cases hstep

/-- Nobody receives from a watcher that is not registered yet. -/
theorem Sound.receivedBy_eq_nil {p : Producer α} {out : List (WatcherMux.Output α)}
    (h : Sound p out) {id : Nat} (hid : p.mux.watchers.length ≤ id) :
    WatcherMux.receivedBy id out = [] := by
  rw [WatcherMux.receivedBy, List.filterMap_eq_nil_iff]
  intro o ho
  cases o with
  | received id' v =>
      have := h.sequential.received id' v ho
      simp only [ite_eq_right_iff, reduceCtorEq, imp_false]
      omega
  | dispatched | selected => rfl

/-- A watcher receives a part of what is dispatched, in the order of the dispatches. -/
theorem Sound.receivedBy_sublist {p : Producer α} {out : List (WatcherMux.Output α)}
    (h : Sound p out) (id : Nat) :
    (WatcherMux.receivedBy id out).Sublist (WatcherMux.dispatched out) := by
  cases hw : p.mux.watchers[id]? with
  | none =>
      rw [h.receivedBy_eq_nil (List.getElem?_eq_none_iff.mp hw)]
      exact List.nil_sublist _
  | some w =>
      obtain ⟨earlier, seen, hstream⟩ := h.streams id w hw
      obtain ⟨later, hlater, hvalues⟩ := hstream.values
      calc (WatcherMux.receivedBy id out).Sublist (WatcherMux.receivedBy id out ++ w.ch) :=
            List.sublist_append_left _ _
        _ = WatcherMux.delivered seen := hstream.delivered
        List.Sublist _ (seen.map Prod.fst) := WatcherMux.delivered_sublist seen
        _ = (WatcherMux.dispatched later).filter w.accepts := hvalues
        List.Sublist _ (WatcherMux.dispatched later) := List.filter_sublist
        List.Sublist _ (WatcherMux.dispatched out) := by
            rw [hlater, WatcherMux.dispatched_append]
            exact List.sublist_append_right _ _

/-! ## Closed channels -/

/-- Everybody who is registered has an open channel. -/
def RegisteredOpen (mux : WatcherMux α) : Prop :=
  ∀ (id : Nat) (w : Watcher α), mux.watchers[id]? = some w → w.registered = true →
    w.chClosed = false

/-- Only `Close` closes the channel of a watcher that stays registered. -/
theorem registeredOpen_step {mux next : WatcherMux α} {event : WatcherMux.Event α}
    {now : List (WatcherMux.Output α)} (h : RegisteredOpen mux)
    (hsteps : WatcherMux.Steps mux event next now) (hevent : event ≠ .closeNext) :
    RegisteredOpen next := by
  cases hsteps with
  | watched filter =>
      intro id w hw hregistered
      rcases getElem?_concat_cases hw with hold | ⟨-, rfl⟩
      · exact h id w hold hregistered
      · rfl
  | cancelled id' w' hw' =>
      intro id w hw hregistered
      rcases getElem?_set_cases hw with ⟨-, rfl⟩ | ⟨-, hold⟩
      · cases hregistered
      · exact h id w hold hregistered
  | selected call id' v rest w₀ w' choice hcall hw' hselect =>
      have hselects := WatcherMux.selectOne_selects mux.dispatchFunc mux.watcherChCapacity w₀ v
        choice
      rw [hselect] at hselects
      cases hselects with
      | taken _ hfilter hclosed hsame =>
          intro id w hw hregistered
          rcases getElem?_set_cases hw with ⟨-, rfl⟩ | ⟨-, hold⟩
          · rw [hclosed]
            exact h id' w₀ hw' (by rwa [hsame] at hregistered)
          · exact h id w hold hregistered
  | received id' v w' ch hw' hch =>
      intro id w hw hregistered
      rcases getElem?_set_cases hw with ⟨-, rfl⟩ | ⟨-, hold⟩
      · exact h id' w' hw' hregistered
      · exact h id w hold hregistered
  | snapshot | closing | closed => exact h
  | closedNext => exact absurd rfl hevent

/-- The goroutine has called `Close`, or is about to. -/
def leaving : Producing α → Bool
  | .closing | .closed => true
  | .outside | .calling _ | .dispatching => false

/-- No dispatch finds a channel closed, now or when the goroutine starts the next. -/
structure Open (p : Producer α) : Prop where
  ready : p.mux.Ready
  registered : leaving p.producing = false → RegisteredOpen p.mux

theorem open_new (channelBufferSize : Nat) (dispatchFunc : DispatchFunc) :
    Open (new channelBufferSize dispatchFunc : Producer α) where
  ready := WatcherMux.ready_new channelBufferSize dispatchFunc
  registered := by simp [new, WatcherMux.new, RegisteredOpen]

theorem Open.setProducing {p : Producer α} (h : Open p) (houtside : p.producing = .outside)
    (producing : Producing α) : Open { p with producing := producing } :=
  ⟨h.ready, fun _ => h.registered (by rw [houtside]; rfl)⟩

/-- Whoever is cancelled is not one that a dispatch under way will send to. -/
def NotCancelledUnderDispatch (p : Producer α) : Event α → Prop
  | .cancel id => ¬p.mux.Awaited id
  | .watch _ | .receive _ | .snapshot _ | .select _ | .dispatched | .close _ | .closeNext
  | .closeDone => True

theorem open_onMux {p : Producer α} (out : List (WatcherMux.Output α))
    {producing : Producing α} {event : WatcherMux.Event α} (h : Open p)
    (hcond : p.mux.NoCloseUnderDispatch out event)
    (hleaving : leaving producing = false → event ≠ .closeNext ∧ leaving p.producing = false) :
    (∀ stop, p.onMux producing event = .error stop → stop ≠ .sendOnClosedChannel) ∧
      ∀ next now, p.onMux producing event = .ok (next, now) → Open next := by
  obtain ⟨hsafe, hready⟩ := WatcherMux.step_ready h.ready hcond
  constructor
  · intro stop hstop
    rcases bind_eq_error.mp hstop with hmux | ⟨result, -, hok⟩
    · exact hsafe stop hmux
    · cases hok
  · intro next now hnext
    obtain ⟨hmux, rfl⟩ := onMux_eq_ok.mp hnext
    refine ⟨hready next.mux now hmux, ?_⟩
    intro hproducing
    obtain ⟨hevent, hbefore⟩ := hleaving hproducing
    exact registeredOpen_step (h.registered hbefore) (WatcherMux.steps_of_step_eq_ok hmux)
      hevent

theorem not_findsClosed_of_registeredOpen {mux : WatcherMux α} (h : RegisteredOpen mux)
    {order : List Nat} (horder : order.Perm mux.getWatcherList) (v : α) :
    ∀ id ∈ order, ¬WatcherMux.FindsClosed mux.watchers id v := by
  intro id hid hfinds
  have hregistered := (List.mem_filter.mp (horder.mem_iff.mp hid)).2
  unfold WatcherMux.FindsClosed at hfinds
  cases hw : mux.watchers[id]? with
  | none =>
      rw [hw] at hfinds
      cases hfinds
  | some w =>
      rw [hw] at hfinds hregistered
      simp only [Option.any_some, Bool.and_eq_true] at hfinds hregistered
      rw [h id w hw hregistered] at hfinds
      cases hfinds.2

/-- Nobody is waited for between two dispatches. -/
theorem not_awaited_of_idle {mux : WatcherMux α} (h : Idle mux) (id : Nat) :
    ¬mux.Awaited id := by
  rintro ⟨call, hcall, hid, -⟩
  rw [h call hcall] at hid
  cases hid

theorem open_blocked :
    (∀ stop, (.error .blocked : Except WatcherMux.Stop
        (Producer α × List (WatcherMux.Output α))) = .error stop →
      stop ≠ .sendOnClosedChannel) ∧
      ∀ next now, (.error .blocked : Except WatcherMux.Stop
        (Producer α × List (WatcherMux.Output α))) = .ok (next, now) → Open next := by
  refine ⟨?_, nofun⟩
  rintro stop ⟨⟩
  exact nofun

/--
The goroutine closes its multiplexer when it has left its last dispatch, so a
dispatch can come to a closed channel only because of a cancellation under it.
-/
theorem open_step {p : Producer α} {out : List (WatcherMux.Output α)} {event : Event α}
    (hsound : Sound p out) (h : Open p) (hcond : NotCancelledUnderDispatch p event) :
    (∀ stop, p.step event = .error stop → stop ≠ .sendOnClosedChannel) ∧
      ∀ next now, p.step event = .ok (next, now) → Open next := by
  cases event with
  | watch filter | receive id => exact open_onMux out h trivial fun hbefore => ⟨by simp, hbefore⟩
  | cancel id => exact open_onMux out h hcond fun hbefore => ⟨by simp, hbefore⟩
  | snapshot order =>
      simp only [step]
      split
      · rename_i v hcalling
        have hbefore : leaving p.producing = false := by rw [hcalling]; rfl
        by_cases horder : order.Perm p.mux.getWatcherList
        · exact open_onMux out h
            (not_findsClosed_of_registeredOpen (h.registered hbefore) horder v)
            fun _ => ⟨by simp, hbefore⟩
        · have hblocked : p.onMux .dispatching (.snapshot v order) = .error .blocked := by
            simp only [onMux, WatcherMux.step, if_neg horder]
            rfl
          rw [hblocked]
          exact open_blocked
      · exact open_blocked
  | select choice =>
      simp only [step]
      split
      · rename_i hdispatching
        exact open_onMux out h trivial fun _ => ⟨by simp, by rw [hdispatching]; rfl⟩
      · exact open_blocked
  | dispatched =>
      simp only [step]
      split
      · rename_i hdispatching
        split
        · refine ⟨by simp, ?_⟩
          rintro next now ⟨⟩
          exact ⟨h.ready, fun _ => h.registered (by rw [hdispatching]; rfl)⟩
        · exact open_blocked
      · exact open_blocked
  | close order | closeDone =>
      simp only [step]
      split
      · exact open_onMux out h trivial (by simp [leaving])
      · exact open_blocked
  | closeNext =>
      simp only [step]
      split
      · rename_i hclosing
        have hidle : Idle p.mux := hsound.idle (by simp [hclosing])
        exact open_onMux out h (fun id _ => not_awaited_of_idle hidle id) (by simp [leaving])
      · exact open_blocked

end Producer

end Udplb.Util
