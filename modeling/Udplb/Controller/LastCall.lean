import Udplb.Controller.Consistency

/-!
# The last `SetObjects` call

A change of the backends is followed by a recomputation in the same iteration,
so the list passed last is the list of the backends available now, whenever
there is one.  The list applied last is another matter: after a failed call
nothing is retried until a backend changes again.
-/

namespace Udplb.Controller

open Udplb.Foundation

def lastCalled (out : List Recomputation) : Option Recomputation :=
  (out.filter (·.call.isSome)).getLast?

/-- The backend list of the last call that succeeded. -/
def lastApplied (out : List Recomputation) : Option (List Backend) :=
  (out.filter fun r => r.call.isSome && r.applied).getLast?.bind fun r =>
    r.call.map (·.backendList)

theorem lastCalled_append_called {out : List Recomputation} {r : Recomputation}
    (h : r.call.isSome = true) : lastCalled (out ++ [r]) = some r := by
  simp [lastCalled, h]

theorem lastCalled_append_skipped {out : List Recomputation} {r : Recomputation}
    (h : r.call = none) : lastCalled (out ++ [r]) = lastCalled out := by
  simp [lastCalled, h]

theorem lastApplied_of_lastCalled {out : List Recomputation} {r : Recomputation}
    (hlast : lastCalled out = some r) (happlied : r.applied = true) :
    lastApplied out = r.call.map (·.backendList) := by
  induction out using List.reverseRecOn with
  | nil => simp [lastCalled] at hlast
  | append_singleton out last ih =>
      cases hcall : last.call with
      | none =>
          rw [lastCalled_append_skipped hcall] at hlast
          simpa [lastApplied, hcall] using ih hlast
      | some call =>
          rw [lastCalled_append_called (by simp [hcall]), Option.some.injEq] at hlast
          subst hlast
          simp [lastApplied, hcall, happlied]

/-- The call passes what a recomputation of `c` would pass now. -/
structure PassedNow (c : Controller) (r : Recomputation) (call : SetObjectsArgs) :
    Prop where
  call_eq : r.call = some call
  backendList_eq : call.backendList = filterAvailable c.backends
  lookupTable_eq : Rlt.reverseCoordinatesLookupTable r.order
    (filterAvailable c.backends) c.lookupTableSize = .ok call.lookupTable

/-- The last call, if any, passed the backends available now, if any. -/
def LastCallCurrent (c : Controller) (out : List Recomputation) : Prop :=
  filterAvailable c.backends ≠ [] →
    ∀ r, lastCalled out = some r → ∃ call, PassedNow c r call

theorem recomputes_passed {c next : Controller} {r : Recomputation}
    (hr : Recomputes c next r) (hsome : filterAvailable c.backends ≠ []) :
    ∃ call, PassedNow next r call := by
  cases hr with
  | skipped order applied hnone => exact absurd hnone hsome
  | called order applied table hsome htable => exact ⟨_, rfl, rfl, htable⟩

theorem steps_lastCallCurrent {c next : Controller} {event : Event}
    {out now : List Recomputation} (hinv : LastCallCurrent c out)
    (h : Steps c event next now) : LastCallCurrent next (out ++ now) := by
  cases h with
  | assigned a =>
      simp only [LastCallCurrent, backends_handleAssignment, List.append_nil]
      intro hsome r hr
      obtain ⟨call, hcall⟩ := hinv hsome r hr
      exact ⟨call, hcall.call_eq, by simpa using hcall.backendList_eq,
        by simpa using hcall.lookupTable_eq⟩
  | unchanged => simpa using hinv
  | recomputed h hr =>
      intro hsome r' hlast
      rw [recomputes_backends hr] at hsome
      obtain ⟨call, hcall⟩ := recomputes_passed hr hsome
      rw [lastCalled_append_called (by simp [hcall.call_eq]),
        Option.some.injEq] at hlast
      subst hlast
      exact ⟨call, hcall⟩

theorem run_lastCallCurrent {c last : Controller} {events : List Event}
    {out : List Recomputation} (hrun : c.run events = .ok (last, out)) :
    LastCallCurrent last out := by
  have hstart : LastCallCurrent c [] := by
    intro hsome r hr
    simp [lastCalled] at hr
  refine run_keeps LastCallCurrent hstart ?_ hrun
  intro s now event next later hinv hstep
  exact steps_lastCallCurrent hinv (steps_of_step_eq_ok hstep)

/-! ## A failed call -/

theorem lastCalled_of_lastApplied {out : List Recomputation} {list : List Backend}
    (h : lastApplied out = some list) : ∃ r, lastCalled out = some r := by
  cases hlast : lastCalled out with
  | some r => exact ⟨r, rfl⟩
  | none =>
      have hnone : ∀ r ∈ out, r.call = none := by
        simpa [lastCalled] using hlast
      have hfilter : (out.filter fun r => r.call.isSome && r.applied) = [] := by
        rw [List.filter_eq_nil_iff]
        intro r hr
        simp [hnone r hr]
      simp [lastApplied, hfilter] at h

def LastCallApplied (out : List Recomputation) : Prop :=
  ∃ r, lastCalled out = some r ∧
    lastApplied out = r.call.map (·.backendList)

theorem lastCallApplied_of_applied {out : List Recomputation} {r : Recomputation}
    (hlast : lastCalled out = some r) (happlied : r.applied = true) :
    LastCallApplied out :=
  ⟨r, hlast, lastApplied_of_lastCalled hlast happlied⟩

theorem lastApplied_iff {c : Controller} {out : List Recomputation}
    (hcurrent : LastCallCurrent c out) (hsome : filterAvailable c.backends ≠ []) :
    lastApplied out = some (filterAvailable c.backends) ↔ LastCallApplied out := by
  constructor
  · intro happlied
    obtain ⟨r, hlast⟩ := lastCalled_of_lastApplied happlied
    obtain ⟨call, hcall⟩ := hcurrent hsome r hlast
    exact ⟨r, hlast, by simp [happlied, hcall.call_eq, hcall.backendList_eq]⟩
  · rintro ⟨r, hlast, happlied⟩
    obtain ⟨call, hcall⟩ := hcurrent hsome r hlast
    simp [happlied, hcall.call_eq, hcall.backendList_eq]

/--
After an entry processed without an error of `SetObjects` the backends available
now are the list applied last, exactly when the entry changed the state of its
backend or the list passed last before it was applied.
-/
theorem applied_after_entry_iff (c₀ : Controller) (events : List Event)
    (entry : BackendStatusEntry) (order : Rlt.IterOrder) (applied : Bool) :
    ∃ c out next now,
      c₀.run events = .ok (c, out) ∧
      step c (.health entry order applied) = .ok (next, now) ∧
      ((∀ r ∈ now, r.call.isSome → r.applied = true) →
        filterAvailable next.backends ≠ [] →
        (lastApplied (out ++ now) = some (filterAvailable next.backends) ↔
          (updateStatus entry c.backends).2 = true ∨ LastCallApplied out)) := by
  obtain ⟨c, out, hrun⟩ := run_total c₀ events
  obtain ⟨⟨next, now⟩, hstep, hsteps⟩ :=
    step_returns c (.health entry order applied)
  refine ⟨c, out, next, now, hrun, hstep, ?_⟩
  intro hnoerror hsome
  have hbefore := run_lastCallCurrent hrun
  rw [lastApplied_iff (steps_lastCallCurrent hbefore hsteps) hsome]
  cases hsteps with
  | unchanged _ _ _ h => simp [h]
  | recomputed h hr =>
      rename_i r
      rw [recomputes_backends hr] at hsome
      obtain ⟨call, hcall⟩ := recomputes_passed hr hsome
      have hisSome : r.call.isSome = true := by simp [hcall.call_eq]
      have hlast : lastCalled (out ++ [r]) = some r :=
        lastCalled_append_called hisSome
      have happlied := lastCallApplied_of_applied hlast
        (hnoerror r (by simp) hisSome)
      simp only [happlied, true_iff]
      exact Or.inl h

/-- A backend goes down, and the call that follows is applied. -/
theorem applied_after_entry_iff_down :
    ∃ c out next now,
      (init (exampleBackends ["10.0.0.10", "10.0.0.11"])).run [.start .ascending true] =
        .ok (c, out) ∧
      step c (.health ⟨exampleId "10.0.0.10", .unavailable⟩ .ascending true) =
        .ok (next, now) ∧
      (∀ r ∈ now, r.call.isSome → r.applied = true) ∧
      filterAvailable next.backends ≠ [] ∧
      (lastApplied (out ++ now) = some (filterAvailable next.backends) ↔
        (updateStatus ⟨exampleId "10.0.0.10", .unavailable⟩ c.backends).2 = true ∨
          LastCallApplied out) := by
  have hran : ((init (exampleBackends ["10.0.0.10", "10.0.0.11"])).run
      [.start .ascending true]).toOption.map (fun started =>
        (step started.1 (.health ⟨exampleId "10.0.0.10", .unavailable⟩ .ascending
          true)).toOption.map fun result =>
            (result.2.all (·.applied), (filterAvailable result.1.backends).isEmpty)) =
        some (some (true, false)) := by
    decide +kernel
  obtain ⟨⟨c', out'⟩, hrun', hstepped⟩ := returns_of_toOption hran
  obtain ⟨⟨next', now'⟩, hstep', hresult⟩ := returns_of_toOption hstepped
  obtain ⟨happlied, havailable⟩ := Prod.mk.inj hresult
  obtain ⟨c, out, next, now, hrun, hstep, h⟩ := applied_after_entry_iff
    (init (exampleBackends ["10.0.0.10", "10.0.0.11"])) [.start .ascending true]
    ⟨exampleId "10.0.0.10", .unavailable⟩ .ascending true
  cases hrun'.symm.trans hrun
  cases hstep'.symm.trans hstep
  have hnoerror : ∀ r ∈ now', r.call.isSome → r.applied = true :=
    fun r hr _ => List.all_eq_true.mp happlied r hr
  have hsome : filterAvailable next'.backends ≠ [] := by simpa using havailable
  exact ⟨c', out', next', now', hrun, hstep, hnoerror, hsome, h hnoerror hsome⟩

def repeatedFailure : List Event :=
  [.start .ascending true,
   .health ⟨exampleId "10.0.0.10", .unavailable⟩ .ascending false,
   .health ⟨exampleId "10.0.0.10", .unavailable⟩ .ascending true]

/-- The second report of the dead backend makes no call: it stays applied. -/
theorem repeated_entry_does_not_repair :
    ((init (exampleBackends ["10.0.0.10", "10.0.0.11"])).run
        repeatedFailure).toOption.map
      (fun result =>
        (result.2.map (·.applied),
          (filterAvailable result.1.backends).map (·.id),
          (lastApplied result.2).map (·.map (·.id)))) =
      some ([true, false], [exampleId "10.0.0.11"],
        some [exampleId "10.0.0.10", exampleId "10.0.0.11"]) := by
  decide +kernel

end Udplb.Controller
