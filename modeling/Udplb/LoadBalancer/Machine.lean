import Udplb.Bpf.Manager
import Udplb.Controller.Consistency

/-!
# The whole load balancer

The XDP program, the ring buffer, the dispatch of the assignment records, the
controller and the data structure manager, interleaved in any order.  The
controller holds its lock during `SetObjects`: while a call is pending only
packets, reads of the ring and statements of `setObjects` happen.  Packets may
arrive from the beginning, since the program is attached before anything else.
-/

namespace Udplb

open Udplb.Foundation Udplb.Bpf

structure LoadBalancer where
  controller : Controller
  kernel : Kernel
  /-- The records in the ring buffer, oldest first. -/
  ring : List Assignment
  /-- The records that were read and not yet delivered. -/
  queue : List Assignment
  /-- The `SetObjects` call that is being executed. -/
  pending : Option (EventObjects × SetPc)
  /-- The backend list switched in last (a history variable). -/
  switched : Option (List BackendSpecT)
  /-- The ids of the list passed last (a history variable). -/
  passed : List UUID

namespace LoadBalancer

inductive Event where
  | packet (p : Packet)
  | read
  | deliver (j : Nat)
  | drop (j : Nat)
  | health (entry : BackendStatusEntry) (order : Rlt.IterOrder)
  | start (order : Rlt.IterOrder)
  | manager (E : EbpfStruct)

/-- A step stops when it is not enabled, or when the program panics. -/
inductive Stop where
  | disabled
  | panic (err : RuntimeError)
  deriving DecidableEq, Repr

def init (controller : Controller) : LoadBalancer where
  controller := controller
  kernel := .zeroFilled
  ring := []
  queue := []
  pending := none
  switched := none
  passed := []

/-- `SetObjects` up to the point where the manager takes the event. -/
def setObjectsEvent (args : SetObjectsArgs) : Except RuntimeError EventObjects := do
  let backendList ← transformBackendList args.backendList
  .ok ⟨backendList, args.lookupTable, args.sessionMap⟩

/-- One iteration of a controller loop, up to the call of `SetObjects`. -/
def controllerStep (lb : LoadBalancer) (event : Controller.Event) :
    Except Stop (LoadBalancer × List XdpResult) :=
  if lb.pending.isSome then .error .disabled
  else do
    let (controller, out) ← (lb.controller.step event).mapError .panic
    match out.head?.bind (·.call) with
    | none => .ok ({ lb with controller := controller }, [])
    | some args =>
        let objs ← (setObjectsEvent args).mapError .panic
        .ok ({ lb with
          controller := controller
          pending := some (objs, .setBackendList)
          passed := args.backendList.map (·.id) }, [])

def managerStep (E : EbpfStruct) (objs : EventObjects) (pc : SetPc)
    (lb : LoadBalancer) : LoadBalancer :=
  let (next, kernel) := setObjectsStep E objs pc lb.kernel
  { lb with
    kernel := kernel
    pending :=
      match next with
      | .returned _ => none
      | _ => some (objs, next)
    switched := if pc.switches then some objs.backendList else lb.switched }

def packetStep (H : Helpers) (config : KernelConfig) (p : Packet) (lb : LoadBalancer) :
    LoadBalancer :=
  let result := udplb H config lb.kernel p
  { lb with
    kernel := result.kernel
    ring := lb.ring ++ result.submitted.toList }

def step (H : Helpers) (config : KernelConfig) (lb : LoadBalancer) :
    Event → Except Stop (LoadBalancer × List XdpResult)
  | .packet p =>
      .ok (packetStep H config p lb, [udplb H config lb.kernel p])
  | .read =>
      match lb.ring with
      | [] => .error .disabled
      | a :: ring => .ok ({ lb with ring := ring, queue := lb.queue ++ [a] }, [])
  | .deliver j =>
      match lb.queue[j]? with
      | none => .error .disabled
      | some a =>
          controllerStep { lb with queue := lb.queue.eraseIdx j } (.assignment a)
  | .drop j =>
      match lb.queue[j]? with
      | none => .error .disabled
      | some _ => .ok ({ lb with queue := lb.queue.eraseIdx j }, [])
  | .health entry order => controllerStep lb (.health entry order true)
  | .start order => controllerStep lb (.start order true)
  | .manager E =>
      match lb.pending with
      | none => .error .disabled
      | some (objs, pc) => .ok (managerStep E objs pc lb, [])

abbrev run (H : Helpers) (config : KernelConfig) (lb : LoadBalancer)
    (events : List Event) : Except Stop (LoadBalancer × List XdpResult) :=
  Foundation.run (step H config) lb events

/-! ## One step -/

/-- The iteration of the health loop, or the start, behind an event. -/
def Event.controller? : Event → Option Controller.Event
  | .health entry order => some (.health entry order true)
  | .start order => some (.start order true)
  | _ => none

def updated (lb : LoadBalancer) (event : Controller.Event) : Controller :=
  { lb.controller with backends := event.update lb.controller.backends }

/-- Everything a step can do. -/
inductive Takes (H : Helpers) (config : KernelConfig) (lb : LoadBalancer) :
    Event → LoadBalancer → Prop
  | packet (p : Packet) : Takes H config lb (.packet p) (packetStep H config p lb)
  | read (a : Assignment) (ring : List Assignment) (hring : lb.ring = a :: ring) :
      Takes H config lb .read { lb with ring := ring, queue := lb.queue ++ [a] }
  | deliver (j : Nat) (a : Assignment) (hqueue : lb.queue[j]? = some a)
      (hidle : lb.pending = none) :
      Takes H config lb (.deliver j)
        { lb with
          queue := lb.queue.eraseIdx j
          controller := lb.controller.handleAssignment a }
  | drop (j : Nat) (a : Assignment) (hqueue : lb.queue[j]? = some a) :
      Takes H config lb (.drop j) { lb with queue := lb.queue.eraseIdx j }
  | quiet {event : Event} (e : Controller.Event) (hevent : event.controller? = some e)
      (hidle : lb.pending = none) :
      Takes H config lb event { lb with controller := lb.updated e }
  | passes {event : Event} (e : Controller.Event) (order : Rlt.IterOrder)
      (lookupTable : List Nat) (backendList : List BackendSpecT)
      (hevent : event.controller? = some e) (hidle : lb.pending = none)
      (hrecomputes : e.recomputes lb.controller.backends = true)
      (hsome : Controller.filterAvailable (lb.updated e).backends ≠ [])
      (htable : Rlt.reverseCoordinatesLookupTable order
        (Controller.filterAvailable (lb.updated e).backends)
        (lb.updated e).lookupTableSize = .ok lookupTable)
      (hlist : transformBackendList
        (Controller.filterAvailable (lb.updated e).backends) = .ok backendList) :
      Takes H config lb event
        { lb with
          controller := (lb.updated e).remap
          pending := some (⟨backendList, lookupTable,
            (lb.updated e).remap.sessionMap⟩, .setBackendList)
          passed := (Controller.filterAvailable (lb.updated e).backends).map (·.id) }
  | manager (E : EbpfStruct) (objs : EventObjects) (pc : SetPc)
      (hpending : lb.pending = some (objs, pc)) :
      Takes H config lb (.manager E) (managerStep E objs pc lb)

theorem controllerStep_eq_ok {lb next : LoadBalancer} {e : Controller.Event}
    {out : List XdpResult} (h : controllerStep lb e = .ok (next, out)) :
    lb.pending = none ∧ ∃ c outs, Controller.Steps lb.controller e c outs ∧
      ((outs.head?.bind (·.call) = none ∧ next = { lb with controller := c }) ∨
        ∃ args objs, outs.head?.bind (·.call) = some args ∧
          setObjectsEvent args = .ok objs ∧
          next = { lb with
            controller := c
            pending := some (objs, .setBackendList)
            passed := args.backendList.map (·.id) }) := by
  unfold controllerStep at h
  by_cases hpending : lb.pending.isSome
  · simp [hpending] at h
  · rw [if_neg hpending, bind_eq_ok] at h
    obtain ⟨⟨c, outs⟩, hstep, h⟩ := h
    rw [mapError_eq_ok] at hstep
    refine ⟨by simpa using hpending, c, outs,
      Controller.steps_of_step_eq_ok hstep, ?_⟩
    cases hcall : outs.head?.bind (·.call) with
    | none =>
        simp only [hcall] at h
        cases h
        exact Or.inl ⟨rfl, rfl⟩
    | some args =>
        simp only [hcall, bind_eq_ok, mapError_eq_ok] at h
        obtain ⟨objs, hobjs, h⟩ := h
        cases h
        exact Or.inr ⟨args, objs, rfl, hobjs, rfl⟩

theorem controllerStep_assignment {lb next : LoadBalancer} {a : Assignment}
    {out : List XdpResult} (h : controllerStep lb (.assignment a) = .ok (next, out)) :
    lb.pending = none ∧
      next = { lb with controller := lb.controller.handleAssignment a } := by
  obtain ⟨hidle, c, outs, hsteps, hnext⟩ := controllerStep_eq_ok h
  cases hsteps with
  | assigned =>
      rcases hnext with ⟨-, hnext⟩ | ⟨args, objs, hcall, -⟩
      · exact ⟨hidle, hnext⟩
      · cases hcall
  | recomputed hevent => cases hevent

theorem controllerStep_takes (H : Helpers) (config : KernelConfig)
    {lb next : LoadBalancer} {event : Event} {e : Controller.Event}
    {out : List XdpResult} (hevent : event.controller? = some e)
    (h : controllerStep lb e = .ok (next, out)) : Takes H config lb event next := by
  obtain ⟨hidle, c, outs, hsteps, hnext⟩ := controllerStep_eq_ok h
  cases hsteps with
  | assigned a => cases event <;> cases hevent
  | unchanged entry order applied hunchanged =>
      rcases hnext with ⟨-, rfl⟩ | ⟨args, objs, hcall, -⟩
      · have hsame : lb.updated (.health entry order applied) = lb.controller := by
          simp only [updated, Controller.Event.update,
            Controller.updateStatus_unchanged hunchanged]
        rw [← hsame]
        exact .quiet _ hevent hidle
      · cases hcall
  | recomputed hrecomputes hr =>
      cases hr with
      | skipped order applied hnone =>
          rcases hnext with ⟨-, rfl⟩ | ⟨args, objs, hcall, -⟩
          · exact .quiet _ hevent hidle
          · cases hcall
      | called order applied table hsome htable =>
          rcases hnext with ⟨hcall, -⟩ | ⟨args, objs, hcall, hobjs, rfl⟩
          · cases hcall
          · cases hcall
            simp only [setObjectsEvent, bind_eq_ok] at hobjs
            obtain ⟨backendList, hlist, hobjs⟩ := hobjs
            cases hobjs
            exact .passes e order table backendList hevent hidle hrecomputes hsome
              htable hlist

theorem takes_of_step_eq_ok {H : Helpers} {config : KernelConfig}
    {lb next : LoadBalancer} {event : Event} {out : List XdpResult}
    (h : step H config lb event = .ok (next, out)) : Takes H config lb event next := by
  cases event with
  | packet p =>
      cases h
      exact .packet p
  | read =>
      simp only [step] at h
      split at h
      · cases h
      · cases h
        exact .read _ _ ‹_›
  | deliver j =>
      simp only [step] at h
      split at h
      · cases h
      · obtain ⟨hidle, rfl⟩ := controllerStep_assignment h
        exact .deliver j _ ‹_› hidle
  | drop j =>
      simp only [step] at h
      split at h
      · cases h
      · cases h
        exact .drop j _ ‹_›
  | health entry order => exact controllerStep_takes H config rfl h
  | start order => exact controllerStep_takes H config rfl h
  | manager E =>
      simp only [step] at h
      split at h
      · cases h
      · cases h
        exact .manager E _ _ ‹_›

end LoadBalancer

end Udplb
