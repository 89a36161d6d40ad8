import Udplb.Controller.Build
import Udplb.Foundation.Trace
import Udplb.Rlt.ReverseCoordinates

/-!
# The loops of the controller

The assignment loop and the health loop run under one lock, so that a run of the
controller is a sequence of whole iterations.  An iteration that recomputes the
lookup table emits what it saw and what it passed to `SetObjects`; whether that
call succeeded is decided outside the controller.
-/

namespace Udplb

open Udplb.Foundation

structure SetObjectsArgs where
  backendList : List Backend
  lookupTable : List Nat
  sessionMap : AssocMap UUID Nat

namespace Controller

def filterAvailable (backends : List Backend) : List Backend :=
  backends.filter isAvailable

/-- The index of a session in the new list, given its index in `backends`. -/
def remapIndex (backends available : List Backend) (oldIdx : Nat) : Option Nat :=
  backends[oldIdx]?.bind fun oldBackend =>
    (AssocMap.indexBy (·.id) available).lookup oldBackend.id

def remap (c : Controller) : Controller :=
  { c with
    sessionMap := AssocMap.filterMapValues
      (remapIndex c.backends (filterAvailable c.backends)) c.sessionMap }

def recomputeAndApply (order : Rlt.IterOrder) (c : Controller) :
    Except RuntimeError (Controller × Option SetObjectsArgs) :=
  let available := filterAvailable c.backends
  if available.length = 0 then .ok (c, none)
  else do
    let lookupTable ←
      Rlt.reverseCoordinatesLookupTable order available c.lookupTableSize
    -- the session map is replaced before the call, whatever the call returns
    .ok (c.remap, some ⟨available, lookupTable, c.remap.sessionMap⟩)

/-- One iteration of the assignment loop. -/
def handleAssignment (c : Controller) (a : Assignment) : Controller :=
  match c.backends.findIdx? fun b => b.id = a.backendId with
  | some i => { c with sessionMap := c.sessionMap.insert a.sessionId i }
  | none => c

/-- The first backend with the id of the entry gets its state. -/
def updateStatus (entry : BackendStatusEntry) : List Backend → List Backend × Bool
  | [] => ([], false)
  | b :: rest =>
      if b.id = entry.backendId then
        if b.status.state ≠ entry.state then
          ({ b with status := ⟨entry.state⟩ } :: rest, true)
        else (b :: rest, false)
      else
        let (rest, changed) := updateStatus entry rest
        (b :: rest, changed)

/-- A recomputation: the backends it saw, and the call it made if any. -/
structure Recomputation where
  backends : List Backend
  order : Rlt.IterOrder
  call : Option SetObjectsArgs
  applied : Bool

inductive Event where
  | assignment (a : Assignment)
  | health (entry : BackendStatusEntry) (order : Rlt.IterOrder) (applied : Bool)
  | start (order : Rlt.IterOrder) (applied : Bool)

def recompute (order : Rlt.IterOrder) (applied : Bool) (c : Controller) :
    Except RuntimeError (Controller × List Recomputation) := do
  let (next, call) ← recomputeAndApply order c
  .ok (next, [⟨c.backends, order, call, applied⟩])

def step (c : Controller) : Event → Except RuntimeError (Controller × List Recomputation)
  | .assignment a => .ok (handleAssignment c a, [])
  | .health entry order applied =>
      let (backends, changed) := updateStatus entry c.backends
      let c := { c with backends := backends }
      if changed then recompute order applied c else .ok (c, [])
  | .start order applied => recompute order applied c

abbrev run (c : Controller) (events : List Event) :
    Except RuntimeError (Controller × List Recomputation) :=
  Foundation.run step c events

/-! ## One iteration -/

theorem updateStatus_unchanged {entry : BackendStatusEntry}
    {backends : List Backend} (h : (updateStatus entry backends).2 = false) :
    (updateStatus entry backends).1 = backends := by
  induction backends with
  | nil => rfl
  | cons b rest ih =>
      by_cases hid : b.id = entry.backendId
      · by_cases hstate : b.status.state = entry.state <;>
          simp_all [updateStatus]
      · simp only [updateStatus, hid, if_false] at h ⊢
        rw [ih h]

@[simp] theorem map_id_updateStatus (entry : BackendStatusEntry)
    (backends : List Backend) :
    (updateStatus entry backends).1.map (·.id) = backends.map (·.id) := by
  induction backends with
  | nil => rfl
  | cons b rest ih =>
      by_cases hid : b.id = entry.backendId
      · by_cases hstate : b.status.state = entry.state <;>
          simp [updateStatus, hid, hstate]
      · simpa [updateStatus, hid] using ih

def Event.update (backends : List Backend) : Event → List Backend
  | .health entry _ _ => (updateStatus entry backends).1
  | .assignment _ | .start _ _ => backends

def Event.recomputes (backends : List Backend) : Event → Bool
  | .health entry _ _ => (updateStatus entry backends).2
  | .assignment _ => false
  | .start _ _ => true

/-- A recomputation of `c` that leaves `next`. -/
inductive Recomputes (c : Controller) : Controller → Recomputation → Prop
  | skipped (order : Rlt.IterOrder) (applied : Bool)
      (hnone : filterAvailable c.backends = []) :
      Recomputes c c ⟨c.backends, order, none, applied⟩
  | called (order : Rlt.IterOrder) (applied : Bool) (lookupTable : List Nat)
      (hsome : filterAvailable c.backends ≠ [])
      (htable : Rlt.reverseCoordinatesLookupTable order
        (filterAvailable c.backends) c.lookupTableSize = .ok lookupTable) :
      Recomputes c c.remap ⟨c.backends, order,
        some ⟨filterAvailable c.backends, lookupTable, c.remap.sessionMap⟩,
        applied⟩

theorem recompute_returns (order : Rlt.IterOrder) (applied : Bool)
    (c : Controller) :
    Returns (recompute order applied c) fun result =>
      ∃ r, Recomputes c result.1 r ∧ result.2 = [r] := by
  unfold recompute recomputeAndApply
  by_cases havailable : filterAvailable c.backends = []
  · rw [if_pos (by simp [havailable])]
    exact .ok ⟨_, .skipped order applied havailable, rfl⟩
  · rw [if_neg (by simpa using havailable)]
    obtain ⟨table, htable, -⟩ := Rlt.reverseCoordinatesLookupTable_valid order
      (filterAvailable c.backends) c.lookupTableSize havailable
    rw [htable]
    exact .ok ⟨_, .called order applied table havailable htable, rfl⟩

/-- What an iteration does: a delivered assignment, nothing, or a recomputation. -/
inductive Steps (c : Controller) :
    Event → Controller → List Recomputation → Prop
  | assigned (a : Assignment) : Steps c (.assignment a) (handleAssignment c a) []
  | unchanged (entry : BackendStatusEntry) (order : Rlt.IterOrder)
      (applied : Bool) (h : (updateStatus entry c.backends).2 = false) :
      Steps c (.health entry order applied) c []
  | recomputed {event : Event} {next : Controller} {r : Recomputation}
      (h : event.recomputes c.backends = true)
      (hr : Recomputes { c with backends := event.update c.backends } next r) :
      Steps c event next [r]

theorem step_returns (c : Controller) (event : Event) :
    Returns (step c event) fun result => Steps c event result.1 result.2 := by
  cases event with
  | assignment a => exact .ok (.assigned a)
  | health entry order applied =>
      simp only [step]
      cases hchanged : (updateStatus entry c.backends).2 with
      | false =>
          rw [if_neg (by simp), updateStatus_unchanged hchanged]
          exact .ok (.unchanged entry order applied hchanged)
      | true =>
          rw [if_pos rfl]
          refine (recompute_returns order applied _).mono ?_
          rintro ⟨next, out⟩ ⟨r, hr, rfl⟩
          exact .recomputed hchanged hr
  | start order applied =>
      refine (recompute_returns order applied c).mono ?_
      rintro ⟨next, out⟩ ⟨r, hr, rfl⟩
      exact .recomputed rfl hr

theorem steps_of_step_eq_ok {c next : Controller} {event : Event}
    {out : List Recomputation} (h : step c event = .ok (next, out)) :
    Steps c event next out :=
  (step_returns c event).of_eq_ok h

/-! ## What an iteration keeps -/

theorem ids_update (event : Event) (backends : List Backend) :
    (event.update backends).map (·.id) = backends.map (·.id) := by
  cases event <;> simp [Event.update]

theorem recomputes_backends {c next : Controller} {r : Recomputation}
    (hr : Recomputes c next r) : next.backends = c.backends := by
  cases hr <;> rfl

@[simp] theorem backends_handleAssignment (c : Controller) (a : Assignment) :
    (handleAssignment c a).backends = c.backends := by
  unfold handleAssignment
  split <;> rfl

theorem steps_backends {c next : Controller} {event : Event}
    {out : List Recomputation} (h : Steps c event next out) :
    next.backends = event.update c.backends := by
  cases h with
  | assigned a => simp [Event.update]
  | unchanged entry order applied h => exact (updateStatus_unchanged h).symm
  | recomputed h hr => exact recomputes_backends hr

theorem recomputes_lookupTableSize {c next : Controller} {r : Recomputation}
    (hr : Recomputes c next r) : next.lookupTableSize = c.lookupTableSize := by
  cases hr <;> rfl

@[simp] theorem lookupTableSize_handleAssignment (c : Controller) (a : Assignment) :
    (handleAssignment c a).lookupTableSize = c.lookupTableSize := by
  unfold handleAssignment
  split <;> rfl

theorem steps_lookupTableSize {c next : Controller} {event : Event}
    {out : List Recomputation} (h : Steps c event next out) :
    next.lookupTableSize = c.lookupTableSize := by
  cases h with
  | assigned a => simp
  | unchanged => rfl
  | recomputed h hr => exact (recomputes_lookupTableSize hr :)

/-! ## A whole run -/

theorem run_total (c : Controller) (events : List Event) :
    ∃ last out, c.run events = .ok (last, out) := by
  obtain ⟨⟨last, out⟩, hrun, -⟩ :=
    run_returns (fun _ => True) (fun _ => True)
      (fun c event _ => (step_returns c event).mono fun _ _ => ⟨trivial, by simp⟩)
      trivial events
  exact ⟨last, out, hrun⟩

theorem run_ids {c last : Controller} {events : List Event}
    {out : List Recomputation} (hrun : c.run events = .ok (last, out)) :
    last.backends.map (·.id) = c.backends.map (·.id) := by
  refine run_invariant (fun s => s.backends.map (·.id) = c.backends.map (·.id))
    ?_ rfl hrun
  intro s event next now _ hids hstep
  rw [steps_backends (steps_of_step_eq_ok hstep), ids_update, hids]

theorem run_lookupTableSize {c last : Controller} {events : List Event}
    {out : List Recomputation} (hrun : c.run events = .ok (last, out)) :
    last.lookupTableSize = c.lookupTableSize := by
  refine run_invariant (fun s => s.lookupTableSize = c.lookupTableSize) ?_ rfl hrun
  intro s event next now _ hinv hstep
  rw [steps_lookupTableSize (steps_of_step_eq_ok hstep), hinv]

end Controller

end Udplb
