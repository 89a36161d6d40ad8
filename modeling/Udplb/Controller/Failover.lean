import Mathlib.Logic.Function.Basic
import Udplb.Controller.LastCall

/-!
# Failover

The abstract view of the health loop is a function: the last state reported for
each id.  `settle` applies such a view to the configured backends, and the loop
refines it: after any run the backends are the configured ones settled by the
last reports.  A report reaches the first backend with its id only, so that a
second entry with the same id keeps the state it was built with.
-/

namespace Udplb.Controller

open Udplb.Foundation

def lastState (entries : List BackendStatusEntry) (id : UUID) : Option State :=
  (entries.reverse.find? fun entry => entry.backendId = id).map (·.state)

def Event.entry? : Event → Option BackendStatusEntry
  | .health entry _ _ => some entry
  | .assignment _ | .start _ _ => none

def healthEntries (events : List Event) : List BackendStatusEntry :=
  events.filterMap Event.entry?

def setStatus (b : Backend) : Option State → Backend
  | none => b
  | some state => { b with status := ⟨state⟩ }

/-- Every id's last report applied to its first backend. -/
def settle : (UUID → Option State) → List Backend → List Backend
  | _, [] => []
  | last, b :: rest =>
      setStatus b (last b.id) :: settle (Function.update last b.id none) rest

/-! ## The loop refines the view -/

theorem lastState_append_singleton (entries : List BackendStatusEntry)
    (entry : BackendStatusEntry) :
    lastState (entries ++ [entry]) =
      Function.update (lastState entries) entry.backendId (some entry.state) := by
  funext id
  by_cases hid : id = entry.backendId
  · simp [lastState, hid]
  · simp [lastState, Function.update_of_ne hid, Ne.symm hid]

theorem healthEntries_append_singleton (events : List Event) (event : Event) :
    healthEntries (events ++ [event]) =
      healthEntries events ++ event.entry?.toList := by
  cases event <;> simp [healthEntries, Event.entry?, List.filterMap_cons]

@[simp] theorem id_setStatus (b : Backend) (state : Option State) :
    (setStatus b state).id = b.id := by
  cases state <;> rfl

@[simp] theorem settle_none (backends : List Backend) :
    settle (fun _ => none) backends = backends := by
  induction backends with
  | nil => rfl
  | cons b rest ih => simp [settle, setStatus, ih]

@[simp] theorem setStatus_setStatus (b : Backend) (state : Option State)
    (state' : State) :
    setStatus (setStatus b state) (some state') = setStatus b (some state') := by
  cases state <;> rfl

theorem updateStatus_cons_of_eq {entry : BackendStatusEntry} {b : Backend}
    (h : b.id = entry.backendId) (rest : List Backend) :
    (updateStatus entry (b :: rest)).1 = setStatus b (some entry.state) :: rest := by
  by_cases hstate : b.status.state = entry.state
  · cases entry
    cases h
    cases hstate
    simp [updateStatus, setStatus]
  · simp [updateStatus, h, hstate, setStatus]

theorem updateStatus_settle (entry : BackendStatusEntry)
    (last : UUID → Option State) (backends : List Backend) :
    (updateStatus entry (settle last backends)).1 =
      settle (Function.update last entry.backendId (some entry.state)) backends := by
  induction backends generalizing last with
  | nil => rfl
  | cons b rest ih =>
      by_cases hid : b.id = entry.backendId
      · rw [settle, updateStatus_cons_of_eq (by simpa using hid),
          setStatus_setStatus, settle, ← hid, Function.update_self,
          Function.update_idem]
      · have hne : entry.backendId ≠ b.id := Ne.symm hid
        simp only [settle, updateStatus, id_setStatus, hid, if_false,
          Function.update_of_ne hid]
        rw [ih, Function.update_comm hne]

theorem settle_congr {first second : UUID → Option State} {backends : List Backend}
    (h : ∀ b ∈ backends, first b.id = second b.id) :
    settle first backends = settle second backends := by
  induction backends generalizing first second with
  | nil => rfl
  | cons b rest ih =>
      rw [settle, settle, h b (by simp)]
      congr 1
      apply ih
      intro b' hb'
      by_cases hid : b'.id = b.id
      · rw [hid, Function.update_self, Function.update_self]
      · rw [Function.update_of_ne hid, Function.update_of_ne hid]
        exact h b' (List.mem_cons_of_mem _ hb')

theorem run_backends {c last : Controller} {events : List Event}
    {out : List Recomputation} (hrun : c.run events = .ok (last, out)) :
    last.backends = settle (lastState (healthEntries events)) c.backends := by
  induction events using List.reverseRecOn generalizing last out with
  | nil =>
      cases hrun
      exact (settle_none _).symm
  | append_singleton events event ih =>
      obtain ⟨middle, now, later, hfirst, hlast, rfl⟩ := run_append_eq_ok.mp hrun
      obtain ⟨next, now', rest, hevent, hrest, rfl⟩ := run_cons_eq_ok.mp hlast
      cases hrest
      rw [steps_backends (steps_of_step_eq_ok hevent), ih hfirst]
      rw [healthEntries_append_singleton]
      cases event with
      | assignment a => simp [Event.update, Event.entry?]
      | start order applied => simp [Event.update, Event.entry?]
      | health entry order applied =>
          rw [Event.entry?, Option.toList, lastState_append_singleton]
          exact updateStatus_settle entry _ _

/-! ## The list passed last -/

/-- If a backend is available now, some call was made. -/
def Called (c : Controller) (out : List Recomputation) : Prop :=
  filterAvailable c.backends ≠ [] → ∃ r, lastCalled out = some r

theorem recomputes_called {c next : Controller} {r : Recomputation}
    (out : List Recomputation) (hr : Recomputes c next r) :
    Called next (out ++ [r]) := by
  intro hsome
  rw [recomputes_backends hr] at hsome
  obtain ⟨call, hcall⟩ := recomputes_passed hr hsome
  exact ⟨r, lastCalled_append_called (by simp [hcall.call_eq])⟩

theorem steps_called {c next : Controller} {event : Event}
    {out now : List Recomputation} (hinv : Called c out)
    (h : Steps c event next now) : Called next (out ++ now) := by
  cases h with
  | assigned a => simpa [Called] using hinv
  | unchanged => simpa using hinv
  | recomputed h hr => exact recomputes_called out hr

/-- A start recomputes, so that from then on there is a last call. -/
theorem run_called {c last : Controller} {events : List Event}
    {out : List Recomputation}
    (hstart : ∃ order applied, Event.start order applied ∈ events)
    (hrun : c.run events = .ok (last, out)) : Called last out := by
  obtain ⟨order, applied, hmem⟩ := hstart
  obtain ⟨before, after, rfl⟩ := List.append_of_mem hmem
  obtain ⟨middle, first, later, -, hlater, rfl⟩ := run_append_eq_ok.mp hrun
  obtain ⟨next, now, rest, hevent, hrest, rfl⟩ := run_cons_eq_ok.mp hlater
  have hnext : Called next (first ++ now) := by
    cases steps_of_step_eq_ok hevent with
    | recomputed h hr => exact recomputes_called first hr
  rw [← List.append_assoc]
  refine run_keeps Called hnext ?_ hrest
  intro s out event next' now' hinv hstep
  exact steps_called hinv (steps_of_step_eq_ok hstep)

theorem run_passed {c last : Controller} {events : List Event}
    {out : List Recomputation}
    (hstart : ∃ order applied, Event.start order applied ∈ events)
    (hrun : c.run events = .ok (last, out))
    (hsome : filterAvailable last.backends ≠ []) :
    ∃ r call, lastCalled out = some r ∧ PassedNow last r call := by
  obtain ⟨r, hr⟩ := run_called hstart hrun hsome
  obtain ⟨call, hcall⟩ := run_lastCallCurrent hrun hsome r hr
  exact ⟨r, call, hr, hcall⟩

/--
Two runs from one list of backends whose last reports agree on these pass the same
backends last, and the same table when they iterate in the same order.
-/
theorem health_order_independent (backends : List Backend)
    (events₁ events₂ : List Event)
    (hstart₁ : ∃ order applied, Event.start order applied ∈ events₁)
    (hstart₂ : ∃ order applied, Event.start order applied ∈ events₂)
    (hlast : ∀ b ∈ backends, lastState (healthEntries events₁) b.id =
      lastState (healthEntries events₂) b.id) :
    ∃ c₁ out₁ c₂ out₂,
      (init backends).run events₁ = .ok (c₁, out₁) ∧
      (init backends).run events₂ = .ok (c₂, out₂) ∧
      c₁.backends = c₂.backends ∧
      (filterAvailable c₁.backends ≠ [] →
        ∃ r₁ call₁ r₂ call₂,
          lastCalled out₁ = some r₁ ∧ r₁.call = some call₁ ∧
          lastCalled out₂ = some r₂ ∧ r₂.call = some call₂ ∧
          call₁.backendList = call₂.backendList ∧
          (r₁.order = r₂.order → call₁.lookupTable = call₂.lookupTable)) := by
  obtain ⟨c₁, out₁, hrun₁⟩ := run_total (init backends) events₁
  obtain ⟨c₂, out₂, hrun₂⟩ := run_total (init backends) events₂
  have hbackends : c₁.backends = c₂.backends := by
    rw [run_backends hrun₁, run_backends hrun₂]
    exact settle_congr hlast
  refine ⟨c₁, out₁, c₂, out₂, hrun₁, hrun₂, hbackends, ?_⟩
  intro hsome
  obtain ⟨r₁, call₁, hlast₁, hcall₁⟩ := run_passed hstart₁ hrun₁ hsome
  obtain ⟨r₂, call₂, hlast₂, hcall₂⟩ :=
    run_passed hstart₂ hrun₂ (hbackends ▸ hsome)
  refine ⟨r₁, call₁, r₂, call₂, hlast₁, hcall₁.call_eq, hlast₂, hcall₂.call_eq,
    ?_, ?_⟩
  · rw [hcall₁.backendList_eq, hcall₂.backendList_eq, hbackends]
  · intro horder
    have htable₁ := hcall₁.lookupTable_eq
    rw [hbackends, horder, run_lookupTableSize hrun₁,
      ← run_lookupTableSize hrun₂, hcall₂.lookupTable_eq] at htable₁
    exact (Except.ok.inj htable₁).symm

def firstOrder : List Event :=
  [.start .ascending true,
   .health ⟨exampleId "10.0.0.10", .unavailable⟩ .ascending true,
   .health ⟨exampleId "10.0.0.11", .available⟩ .ascending true]

/-- The other order, with a report for an id that is not configured. -/
def secondOrder : List Event :=
  [.health ⟨exampleId "10.0.0.11", .available⟩ .ascending true,
   .start .ascending true,
   .health ⟨exampleId "10.0.0.12", .unavailable⟩ .ascending true,
   .health ⟨exampleId "10.0.0.10", .unavailable⟩ .ascending true]

theorem health_order_independent_two_orders :
    ∃ c₁ out₁ c₂ out₂ r₁ call₁ r₂ call₂,
      (init (exampleBackends ["10.0.0.10", "10.0.0.11"])).run firstOrder = .ok (c₁, out₁) ∧
      (init (exampleBackends ["10.0.0.10", "10.0.0.11"])).run secondOrder = .ok (c₂, out₂) ∧
      lastCalled out₁ = some r₁ ∧ r₁.call = some call₁ ∧
      lastCalled out₂ = some r₂ ∧ r₂.call = some call₂ ∧
      call₁.backendList = call₂.backendList ∧
      (r₁.order = r₂.order → call₁.lookupTable = call₂.lookupTable) := by
  have hsome : ((init (exampleBackends ["10.0.0.10", "10.0.0.11"])).run
      firstOrder).toOption.map (fun result => (filterAvailable result.1.backends).isEmpty) =
        some false := by
    decide +kernel
  obtain ⟨⟨c, out⟩, hrun, havailable⟩ := returns_of_toOption hsome
  obtain ⟨c₁, out₁, c₂, out₂, hrun₁, hrun₂, -, hpassed⟩ :=
    health_order_independent (exampleBackends ["10.0.0.10", "10.0.0.11"]) firstOrder
      secondOrder ⟨.ascending, true, by simp [firstOrder]⟩
      ⟨.ascending, true, by simp [secondOrder]⟩ (by decide +kernel)
  cases hrun.symm.trans hrun₁
  obtain ⟨r₁, call₁, r₂, call₂, hcalls⟩ := hpassed (by simpa using havailable)
  exact ⟨c, out, c₂, out₂, r₁, call₁, r₂, call₂, hrun₁, hrun₂, hcalls⟩

/-! ## Completeness of the failover -/

/-- The last report for the id, if there is one, says available. -/
def Healthy (last : UUID → Option State) (id : UUID) : Prop :=
  ∀ state, last id = some state → state = .available

/-- The list has every healthy backend, and no backend that is not healthy. -/
structure FailoverComplete (backends : List Backend) (last : UUID → Option State)
    (list : List Backend) : Prop where
  healthy_of_mem : ∀ b ∈ list, Healthy last b.id
  mem_of_healthy : ∀ b ∈ backends, Healthy last b.id → b ∈ list

theorem healthy_update_none {last : UUID → Option State} {id : UUID}
    (h : Healthy last id) (other : UUID) :
    Healthy (Function.update last other none) id := by
  intro state hstate
  by_cases hid : id = other
  · simp [hid] at hstate
  · rw [Function.update_of_ne hid] at hstate
    exact h state hstate

theorem setStatus_of_healthy {last : UUID → Option State} {b : Backend}
    (hhealthy : Healthy last b.id) (havailable : isAvailable b = true) :
    setStatus b (last b.id) = b := by
  cases hlast : last b.id with
  | none => rfl
  | some state =>
      rw [isAvailable_iff] at havailable
      rw [hhealthy state hlast, setStatus, ← havailable.2]

theorem mem_settle_of_healthy {last : UUID → Option State}
    {backends : List Backend} (havailable : ∀ b ∈ backends, isAvailable b = true)
    {b : Backend} (hmem : b ∈ backends) (hhealthy : Healthy last b.id) :
    b ∈ settle last backends := by
  induction backends generalizing last with
  | nil => simp at hmem
  | cons first rest ih =>
      rcases List.mem_cons.mp hmem with rfl | hmem
      · rw [settle, setStatus_of_healthy hhealthy (havailable b (by simp))]
        simp
      · exact List.mem_cons_of_mem _
          (ih (fun b hb => havailable b (List.mem_cons_of_mem _ hb)) hmem
            (healthy_update_none hhealthy first.id))

theorem id_mem_of_mem_settle {last : UUID → Option State}
    {backends : List Backend} {b : Backend} (hmem : b ∈ settle last backends) :
    b.id ∈ backends.map (·.id) := by
  induction backends generalizing last with
  | nil => simp [settle] at hmem
  | cons first rest ih =>
      rcases List.mem_cons.mp hmem with rfl | hmem
      · simp
      · exact List.mem_cons_of_mem _ (ih hmem)

/-- An id that is not repeated has its last report applied. -/
theorem state_of_mem_settle {last : UUID → Option State}
    {backends : List Backend} {b : Backend} (hmem : b ∈ settle last backends)
    (hcount : (backends.map (·.id)).count b.id < 2) {state : State}
    (hlast : last b.id = some state) : b.status.state = state := by
  induction backends generalizing last with
  | nil => simp [settle] at hmem
  | cons first rest ih =>
      rcases List.mem_cons.mp hmem with rfl | hmem
      · rw [id_setStatus] at hlast
        rw [hlast]
        rfl
      · have hrest := List.count_pos_iff.mpr (id_mem_of_mem_settle hmem)
        rw [List.map_cons, List.count_cons] at hcount
        have hne : b.id ≠ first.id := by
          intro heq
          rw [if_pos (by simp [heq])] at hcount
          omega
        refine ih hmem (by omega) ?_
        rw [Function.update_of_ne hne]
        exact hlast

/-- A repeated id has a copy that no report reaches. -/
theorem exists_copy_of_repeated {last : UUID → Option State}
    {backends : List Backend} (havailable : ∀ b ∈ backends, isAvailable b = true)
    {id : UUID} (hcount : 2 ≤ (backends.map (·.id)).count id) :
    ∃ b ∈ filterAvailable (settle last backends), b.id = id := by
  induction backends generalizing last with
  | nil => simp at hcount
  | cons first rest ih =>
      have hrest : ∀ b ∈ rest, isAvailable b = true := fun b hb =>
        havailable b (List.mem_cons_of_mem _ hb)
      rw [List.map_cons, List.count_cons] at hcount
      by_cases hid : first.id = id
      · simp only [hid, beq_self_eq_true, if_true] at hcount
        obtain ⟨b, hb, hbid⟩ := List.mem_map.mp
          (List.count_pos_iff.mp (by omega :
            0 < (rest.map (·.id)).count id))
        have hhealthy : Healthy (Function.update last first.id none) b.id := by
          intro state hstate
          simp [hid, hbid] at hstate
        refine ⟨b, mem_filterAvailable.mpr ⟨?_, hrest b hb⟩, hbid⟩
        exact List.mem_cons_of_mem _ (mem_settle_of_healthy hrest hb hhealthy)
      · have hcount' : 2 ≤ (rest.map (·.id)).count id := by
          simpa [hid] using hcount
        obtain ⟨b, hb, hbid⟩ := ih hrest hcount'
        rw [mem_filterAvailable] at hb
        exact ⟨b, mem_filterAvailable.mpr
          ⟨List.mem_cons_of_mem _ hb.1, hb.2⟩, hbid⟩

theorem failoverComplete_settle_iff {last : UUID → Option State}
    {backends : List Backend} (havailable : ∀ b ∈ backends, isAvailable b = true) :
    FailoverComplete backends last (filterAvailable (settle last backends)) ↔
      ∀ id, 2 ≤ (backends.map (·.id)).count id → Healthy last id := by
  constructor
  · intro h id hcount
    obtain ⟨b, hb, rfl⟩ := exists_copy_of_repeated havailable hcount
    exact h.healthy_of_mem b hb
  · intro h
    refine ⟨?_, ?_⟩
    · intro b hb
      rw [mem_filterAvailable, isAvailable_iff] at hb
      by_cases hcount : 2 ≤ (backends.map (·.id)).count b.id
      · exact h b.id hcount
      · intro state hstate
        rw [← state_of_mem_settle hb.1 (by omega) hstate]
        exact hb.2.2
    · intro b hb hhealthy
      exact mem_filterAvailable.mpr
        ⟨mem_settle_of_healthy havailable hb hhealthy, havailable b hb⟩

/--
The list passed last is a complete failover exactly when no id shared by several
enabled entries was last reported in another state than available.
-/
theorem failoverComplete_iff {newSHA1 : UUID → Bytes → UUID} {config : Config}
    {backends : List Backend}
    (hbuild : buildBackends newSHA1 config = .ok backends) (events : List Event)
    (hstart : ∃ order applied, Event.start order applied ∈ events) :
    ∃ c out,
      (init backends).run events = .ok (c, out) ∧
      (filterAvailable c.backends ≠ [] →
        ∃ r call, lastCalled out = some r ∧ r.call = some call ∧
          (FailoverComplete backends (lastState (healthEntries events))
              call.backendList ↔
            ∀ id, 2 ≤ (enabledIds newSHA1 config.backends).count id →
              Healthy (lastState (healthEntries events)) id)) := by
  obtain ⟨hids, havailable⟩ := buildBackends_spec hbuild
  obtain ⟨c, out, hrun⟩ := run_total (init backends) events
  refine ⟨c, out, hrun, ?_⟩
  intro hsome
  obtain ⟨r, call, hlast, hcall⟩ := run_passed hstart hrun hsome
  refine ⟨r, call, hlast, hcall.call_eq, ?_⟩
  rw [hcall.backendList_eq, run_backends hrun, ← hids]
  exact failoverComplete_settle_iff havailable

def failoverEvents (ip : String) : List Event :=
  [.start .ascending true,
   .health ⟨exampleId ip, .unavailable⟩ .ascending true]

theorem failoverComplete_iff_two_backends :
    ∃ backends c out r call,
      buildBackends exampleSHA1 (exampleConfig ["10.0.0.10", "10.0.0.11"]) =
        .ok backends ∧
      (init backends).run (failoverEvents "10.0.0.10") = .ok (c, out) ∧
      lastCalled out = some r ∧ r.call = some call ∧
      (FailoverComplete backends
          (lastState (healthEntries (failoverEvents "10.0.0.10")))
          call.backendList ↔
        ∀ id, 2 ≤ (enabledIds exampleSHA1
            (exampleConfig ["10.0.0.10", "10.0.0.11"]).backends).count id →
          Healthy (lastState (healthEntries (failoverEvents "10.0.0.10"))) id) := by
  have haccepted : (buildBackends exampleSHA1 (exampleConfig
      ["10.0.0.10", "10.0.0.11"])).toOption.map (fun backends =>
        ((init backends).run (failoverEvents "10.0.0.10")).toOption.map fun result =>
          (filterAvailable result.1.backends).isEmpty) = some (some false) := by
    decide +kernel
  obtain ⟨backends, hbuild, hran⟩ := returns_of_toOption haccepted
  obtain ⟨⟨c', out'⟩, hrun', havailable⟩ := returns_of_toOption hran
  obtain ⟨c, out, hrun, h⟩ := failoverComplete_iff hbuild
    (failoverEvents "10.0.0.10") ⟨.ascending, true, by simp [failoverEvents]⟩
  cases hrun'.symm.trans hrun
  obtain ⟨r, call, hcall⟩ := h (by simpa using havailable)
  exact ⟨backends, c', out', r, call, hbuild, hrun, hcall⟩

/-- A repeated entry: its second copy is still passed after the failover. -/
theorem repeated_entry_stays_passed :
    ((init (exampleBackends ["10.0.0.10", "10.0.0.10", "10.0.0.11"])).run
        (failoverEvents "10.0.0.10")).toOption.map
      (fun result => (lastCalled result.2).bind fun r =>
        r.call.map fun call => call.backendList.map (·.id)) =
      some (some [exampleId "10.0.0.10", exampleId "10.0.0.11"]) ∧
    lastState (healthEntries (failoverEvents "10.0.0.10"))
      (exampleId "10.0.0.10") = some .unavailable := by
  decide +kernel

end Udplb.Controller
