import Udplb.Util.Producer

/-!
# What is on its way to a watcher

Between the call of `Dispatch` and the receive a value is pending, waits for the
watcher's turn, or is in the watcher's channel.  It can get lost at two places: the
snapshot of the call may leave the watcher out, and its select may take another case
than the send.  In all other steps nothing is lost, doubled or overtaken.
-/

namespace Udplb.Util.Producer

open Udplb.Foundation

variable {α : Type}

def buffered (id : Nat) (mux : WatcherMux α) : List α := mux.watchers[id]?.elim [] (·.ch)

/-- The values for which the watcher's turn is still to come. -/
def awaiting (id : Nat) (mux : WatcherMux α) : List α :=
  (mux.calls.filter fun call => id ∈ call.remaining).map (·.value)

def inFlight (id : Nat) (p : Producer α) : List α :=
  buffered id p.mux ++ (awaiting id p.mux ++ p.producing.pending)

/-- The watcher that the call under way turns to next. -/
def turn (mux : WatcherMux α) : Option Nat := mux.calls.getLast?.bind (·.remaining.head?)

def Loses (id : Nat) (p : Producer α) : Event α → Prop
  | .snapshot order => id ∉ order
  | .select choice => turn p.mux = some id ∧ choice ≠ .send ∧ choice ≠ .handOver
  | .watch _ | .cancel _ | .receive _ | .dispatched | .close _ | .closeNext | .closeDone => False

instance (id : Nat) (p : Producer α) : (event : Event α) → Decidable (Loses id p event)
  | .snapshot order => inferInstanceAs (Decidable (id ∉ order))
  | .select choice =>
      inferInstanceAs (Decidable (turn p.mux = some id ∧ choice ≠ .send ∧ choice ≠ .handOver))
  | .watch _ | .cancel _ | .receive _ | .dispatched | .close _ | .closeNext | .closeDone =>
      inferInstanceAs (Decidable False)

/-! ## One step -/

theorem buffered_set {mux next : WatcherMux α} {id j : Nat} {w w' : Watcher α}
    (hw : mux.watchers[j]? = some w) (hnext : next.watchers = mux.watchers.set j w') :
    buffered id next = if id = j then w'.ch else buffered id mux := by
  have hlt : j < mux.watchers.length := (List.getElem?_eq_some_iff.mp hw).1
  rw [buffered, hnext]
  split
  · rename_i hid
    rw [hid, List.getElem?_set_self hlt]
    rfl
  · rename_i hid
    rw [List.getElem?_set_ne (Ne.symm hid)]
    rfl

theorem buffered_of_some {mux : WatcherMux α} {id : Nat} {w : Watcher α}
    (hw : mux.watchers[id]? = some w) : buffered id mux = w.ch := by
  rw [buffered, hw]
  rfl

/-- A step that leaves every channel as it is. -/
theorem buffered_set_same {mux next : WatcherMux α} {id j : Nat} {w w' : Watcher α}
    (hw : mux.watchers[j]? = some w) (hnext : next.watchers = mux.watchers.set j w')
    (hch : w'.ch = w.ch) : buffered id next = buffered id mux := by
  rw [buffered_set hw hnext]
  split
  · rename_i hid
    rw [hid, buffered_of_some hw, hch]
  · rfl

/-- Only the last call can have watchers left. -/
theorem awaiting_of_last {mux : WatcherMux α} {out : List (WatcherMux.Output α)}
    (h : WatcherMux.Sequential mux out) {call : DispatchCall α}
    (hlast : mux.calls.getLast? = some call) (id : Nat) :
    awaiting id mux = if id ∈ call.remaining then [call.value] else [] := by
  obtain ⟨earlier, hcalls⟩ := List.getLast?_eq_some_iff.mp hlast
  have hdone : (earlier.filter fun call => id ∈ call.remaining) = [] := by
    rw [List.filter_eq_nil_iff]
    intro call' hmem hid
    obtain ⟨k, hk⟩ := List.mem_iff_getElem?.mp hmem
    have hlt := (List.getElem?_eq_some_iff.mp hk).1
    have hget : mux.calls[k]? = some call' := by
      rw [hcalls, List.getElem?_append_left hlt]
      exact hk
    have hone := h.last_only k call' hget (List.ne_nil_of_mem (by simpa using hid))
    rw [hcalls, List.length_append, List.length_singleton] at hone
    omega
  rw [awaiting, hcalls, List.filter_append, hdone]
  by_cases hid : id ∈ call.remaining <;> simp [hid]

theorem receivedBy_selected (id j : Nat) (v : α) (choice : WatcherMux.Choice) :
    WatcherMux.receivedBy id (WatcherMux.selected j v choice) =
      if j = id ∧ choice = .handOver then [v] else [] := by
  unfold WatcherMux.selected
  by_cases hchoice : choice = .handOver
  · by_cases hid : j = id <;> simp [WatcherMux.receivedBy, hchoice, hid]
  · simp [WatcherMux.receivedBy, hchoice]

/-- A turn that the watcher does not lose moves the value to its channel or to it. -/
theorem buffered_selected {mux next : WatcherMux α} {id j : Nat} {v : α}
    {w w' : Watcher α} {choice : WatcherMux.Choice} (hw : mux.watchers[j]? = some w)
    (hnext : next.watchers = mux.watchers.set j w')
    (hselect : WatcherMux.selectOne mux.dispatchFunc mux.watcherChCapacity w v choice = .ok w')
    (hkept : j = id → choice = .send ∨ choice = .handOver) :
    WatcherMux.receivedBy id (WatcherMux.selected j v choice) ++ buffered id next =
      buffered id mux ++ if id = j then [v] else [] := by
  rw [receivedBy_selected, buffered_set hw hnext]
  by_cases hid : id = j
  · subst hid
    rw [buffered_of_some hw]
    rcases hkept rfl with rfl | rfl
    · cases WatcherMux.selected_of_selectOne hselect with
      | sent haccepts => simp
      | lost choice haccepts hfate => cases hfate
    · cases WatcherMux.selected_of_selectOne hselect with
      | handed haccepts hempty => simp [hempty]
      | lost choice haccepts hfate hhanded => exact absurd rfl hhanded
  · simp [hid, Ne.symm hid]

theorem inFlight_select {p next : Producer α} {out now : List (WatcherMux.Output α)}
    {id : Nat} {choice : WatcherMux.Choice} (h : Sound p out)
    (hkept : ¬Loses id p (.select choice))
    (hstep : p.step (.select choice) = .ok (next, now)) :
    WatcherMux.receivedBy id now ++ inFlight id next = inFlight id p := by
  have hsound := sound_step h hstep
  simp only [step] at hstep
  split at hstep
  · rename_i hproducing
    obtain ⟨hmux, hnext⟩ := onMux_eq_ok.mp hstep
    obtain ⟨mux, producing⟩ := next
    cases hnext
    cases WatcherMux.steps_of_step_eq_ok hmux with
    | selected call j v rest w w' _ hcall hw hselect =>
        have hlast : p.mux.calls.getLast? = some ⟨v, j :: rest⟩ := by
          rw [List.getLast?_eq_getElem?]
          exact hcall
        have hlast' : (p.mux.calls.set (p.mux.calls.length - 1) ⟨v, rest⟩).getLast? =
            some ⟨v, rest⟩ := by
          rw [List.getLast?_eq_getElem?, List.length_set]
          exact getElem?_set_of_some hcall _
        have hturn : turn p.mux = some j := by
          rw [turn, hlast]
          rfl
        have hchoice : j = id → choice = .send ∨ choice = .handOver := by
          rintro rfl
          by_contra hother
          exact hkept ⟨hturn, fun hsend => hother (Or.inl hsend),
            fun hhanded => hother (Or.inr hhanded)⟩
        have hnodup : j ∉ rest :=
          (List.nodup_cons.mp (h.sequential.nodup _ (List.mem_of_getElem? hcall))).1
        rw [inFlight, inFlight, awaiting_of_last h.sequential hlast,
          awaiting_of_last hsound.sequential hlast', hproducing, ← List.append_assoc,
          buffered_selected hw rfl hselect hchoice]
        by_cases hid : id = j
        · subst hid
          simp [hnodup]
        · simp [hid]
  · cases hstep

/-- The steps of the multiplexer that neither start a call nor advance one. -/
theorem inFlight_of_calls {p next : Producer α} {now : List (WatcherMux.Output α)} {id : Nat}
    (hbuffered : WatcherMux.receivedBy id now ++ buffered id next.mux = buffered id p.mux)
    (hcalls : next.mux.calls = p.mux.calls)
    (hpending : next.producing.pending = p.producing.pending) :
    WatcherMux.receivedBy id now ++ inFlight id next = inFlight id p := by
  rw [inFlight, inFlight, awaiting, awaiting, hcalls, hpending, ← List.append_assoc, hbuffered]

theorem buffered_watch (id : Nat) (mux : WatcherMux α) (filter : Option (α → Bool)) :
    buffered id { mux with watchers := mux.watchers ++ [⟨[], false, false, filter, true⟩] } =
      buffered id mux := by
  simp only [buffered, List.getElem?_append]
  split
  · rfl
  · rename_i hge
    rw [List.getElem?_eq_none (by omega : mux.watchers.length ≤ id)]
    cases hnew : [(⟨[], false, false, filter, true⟩ : Watcher α)][id - mux.watchers.length]? with
    | none => rfl
    | some w =>
        rw [List.mem_singleton.mp (List.mem_of_getElem? hnew)]
        rfl

theorem inFlight_snapshot {p next : Producer α} {now : List (WatcherMux.Output α)} {id : Nat}
    {order : List Nat} (hkept : ¬Loses id p (.snapshot order))
    (hstep : p.step (.snapshot order) = .ok (next, now)) :
    WatcherMux.receivedBy id now ++ inFlight id next = inFlight id p := by
  have hid : id ∈ order := not_not.mp hkept
  simp only [step] at hstep
  split at hstep
  · rename_i v hcalling
    obtain ⟨hmux, hnext⟩ := onMux_eq_ok.mp hstep
    obtain ⟨mux, producing⟩ := next
    cases hnext
    cases WatcherMux.steps_of_step_eq_ok hmux with
    | snapshot _ _ hperm =>
        simp [inFlight, awaiting, hid, hcalling, Producing.pending, buffered,
          WatcherMux.receivedBy]
  · cases hstep

theorem inFlight_step {p next : Producer α} {out now : List (WatcherMux.Output α)}
    {id : Nat} {event : Event α} (h : Sound p out) (hkept : ¬Loses id p event)
    (hstep : p.step event = .ok (next, now)) :
    WatcherMux.receivedBy id now ++ inFlight id next = inFlight id p := by
  cases event with
  | select choice => exact inFlight_select h hkept hstep
  | snapshot order => exact inFlight_snapshot hkept hstep
  | watch filter =>
      obtain ⟨hmux, hproducing⟩ := onMux_eq_ok.mp hstep
      obtain ⟨mux, producing⟩ := next
      cases hproducing
      cases WatcherMux.steps_of_step_eq_ok hmux with
      | watched => exact inFlight_of_calls (buffered_watch id p.mux filter) rfl rfl
  | cancel j =>
      obtain ⟨hmux, hproducing⟩ := onMux_eq_ok.mp hstep
      obtain ⟨mux, producing⟩ := next
      cases hproducing
      cases WatcherMux.steps_of_step_eq_ok hmux with
      | cancelled _ w hw => exact inFlight_of_calls (buffered_set_same hw rfl rfl) rfl rfl
  | receive j =>
      obtain ⟨hmux, hproducing⟩ := onMux_eq_ok.mp hstep
      obtain ⟨mux, producing⟩ := next
      cases hproducing
      cases WatcherMux.steps_of_step_eq_ok hmux with
      | received _ v w ch hw hch =>
          refine inFlight_of_calls ?_ rfl rfl
          rw [buffered_set hw rfl]
          by_cases hid : id = j
          · subst hid
            rw [buffered_of_some hw, hch]
            simp [WatcherMux.receivedBy]
          · simp [WatcherMux.receivedBy, hid, Ne.symm hid]
  | dispatched =>
      simp only [step] at hstep
      split at hstep
      · rename_i hdispatching
        split at hstep <;> cases hstep
        exact inFlight_of_calls rfl rfl (by rw [hdispatching]; rfl)
      · cases hstep
  | close order | closeDone =>
      simp only [step] at hstep
      split at hstep
      · rename_i hclosing
        obtain ⟨hmux, hproducing⟩ := onMux_eq_ok.mp hstep
        obtain ⟨mux, producing⟩ := next
        cases hproducing
        cases WatcherMux.steps_of_step_eq_ok hmux
        exact inFlight_of_calls rfl rfl (by simp only [hclosing, Producing.pending])
      · cases hstep
  | closeNext =>
      simp only [step] at hstep
      split at hstep
      · rename_i hclosing
        obtain ⟨hmux, hproducing⟩ := onMux_eq_ok.mp hstep
        obtain ⟨mux, producing⟩ := next
        cases hproducing
        cases WatcherMux.steps_of_step_eq_ok hmux with
        | closedNext j rest w _ hw =>
            exact inFlight_of_calls (buffered_set_same hw rfl rfl) rfl (by rw [hclosing])
      · cases hstep

end Udplb.Util.Producer
