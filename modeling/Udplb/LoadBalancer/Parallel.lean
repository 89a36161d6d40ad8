import Udplb.Bpf.Moments
import Udplb.LoadBalancer.Configured

/-!
# Where packets go

The load balancer with its packets in parallel: a task is a packet at some statement of the
XDP program, and any number of tasks share the maps with the pending `setObjects`.

A packet that no switchover overtakes goes to a backend of the list switched in last.  Before
the first switchover the arrays are zero-filled, no lookup fails, and a packet is forwarded
all the same.
-/

namespace Udplb.LoadBalancer

open Udplb.Foundation Udplb.Bpf
open Udplb.Bpf.Processors (Task Machine Follows Undisturbed)

def Event.isPacket : Event → Bool
  | .packet _ => true
  | _ => false

structure Parallel where
  lb : LoadBalancer
  tasks : List Task

namespace Parallel

def new (controller : Controller) : Parallel := ⟨init controller, []⟩

inductive Event where
  | arrive (packet : Packet)
  | proceed (i : Nat)
  | balancer (event : LoadBalancer.Event)

/-- What the tasks and the pending call work on. -/
def machine (s : Parallel) : Machine := ⟨⟨s.lb.kernel, s.lb.pending⟩, s.tasks⟩

def processorStep (H : Helpers) (config : KernelConfig) (s : Parallel)
    (event : Processors.Event) : Except Stop (Parallel × List (Nat × Assignment)) := do
  let (m, records) ← (Processors.step H config s.machine event).mapError fun _ => .disabled
  .ok (⟨{ s.lb with
      kernel := m.shared.kernel
      ring := s.lb.ring ++ records.map Prod.snd }, m.tasks⟩, records)

def step (H : Helpers) (config : KernelConfig) (s : Parallel) :
    Event → Except Stop (Parallel × List (Nat × Assignment))
  | .arrive packet => s.processorStep H config (.arrive packet)
  | .proceed i => s.processorStep H config (.proceed i)
  | .balancer event =>
      -- packets arrive and proceed, none is processed at once
      if event.isPacket then .error .disabled
      else do
        let (lb, _) ← s.lb.step H config event
        .ok ({ s with lb := lb }, [])

abbrev run (H : Helpers) (config : KernelConfig) (s : Parallel) (events : List Event) :
    Except Stop (Parallel × List (Nat × Assignment)) :=
  Foundation.run (step H config) s events

/-- No switchover comes while a task holds a pointer that it has read. -/
def NotOvertaken (s : Parallel) (_ : List (Nat × Assignment)) : Event → Prop
  | .balancer (.manager E) => Processors.NotOvertaken s.machine [] (.userland (.statement E))
  | _ => True

instance (s : Parallel) (out : List (Nat × Assignment)) :
    (event : Event) → Decidable (NotOvertaken s out event)
  | .balancer (.manager E) =>
      inferInstanceAs (Decidable (Processors.NotOvertaken s.machine [] (.userland (.statement E))))
  | .arrive _ | .proceed _ | .balancer (.packet _) | .balancer .read | .balancer (.deliver _)
  | .balancer (.drop _) | .balancer (.health _ _) | .balancer (.start _) =>
      inferInstanceAs (Decidable True)

/-! ## The invariant -/

/-- If the result forwards its packet, then to a backend of the list. -/
def GoesTo (switched : Option (List BackendSpecT)) (result : XdpResult) : Prop :=
  result.action = .tx → ∀ list, switched = some list →
    ∃ backend ∈ list, RewrittenTo backend result.frame

/-- The task has not been overtaken, and goes where it should if it has committed. -/
def Directed (H : Helpers) (config : KernelConfig) (lb : LoadBalancer) (task : Task) : Prop :=
  ∃ records results, Follows H config lb.kernel task.packet records results task.pc ∧
    ∀ result ∈ results, GoesTo lb.switched result

structure Sound (H : Helpers) (config : KernelConfig) (s : Parallel) : Prop where
  balancer : LoadBalancer.Sound config s.lb
  inFlight : ∀ task ∈ s.tasks, task.pc.hasExited = false → Directed H config s.lb task

section Step

variable {H : Helpers} {config : KernelConfig} {s next : Parallel}

theorem Directed.undisturbed {lb lb' : LoadBalancer} {task : Task}
    (h : Directed H config lb task) (hsame : Undisturbed config lb.kernel lb'.kernel)
    (hswitched : lb'.switched = lb.switched) : Directed H config lb' task := by
  obtain ⟨records, results, hfollows, hgoes⟩ := h
  refine ⟨records, results, hfollows.undisturbed hsame, ?_⟩
  rw [hswitched]
  exact hgoes

/-- A task that has read no pointer yet can still go anywhere. -/
theorem Directed.overtaken {lb : LoadBalancer} {task : Task} (h : Directed H config lb task)
    (hpc : task.pc.holdsPointer = false) (hexited : task.pc.hasExited = false)
    (lb' : LoadBalancer) : Directed H config lb' task := by
  obtain ⟨records, results, hfollows, -⟩ := h
  refine ⟨records, results, hfollows.overtaken _ hpc, ?_⟩
  simp [hfollows.results_eq_nil hpc hexited]

/-- What one statement of a task does, to the maps and to where the packet goes. -/
structure Advances (H : Helpers) (config : KernelConfig) (lb : LoadBalancer) (task : Task)
    (kernel : Kernel) : Prop where
  kernel_eq : kernel = lb.kernel ∨ ∃ packet, kernel = (udplb H config lb.kernel packet).kernel
  directed : Directed H config { lb with kernel := kernel } task

theorem advances_of_statement (hpos : 0 < config.lookupTableSize.toNat)
    (h : Sound H config s) {task : Task} (htask : task ∈ s.tasks)
    (hexited : task.pc.hasExited = false) {pc : Processors.Pc} {kernel : Kernel}
    {record : Option Assignment}
    (hstatement : Processors.statement H config task.packet s.lb.kernel task.pc =
      (pc, kernel, record)) :
    Advances H config s.lb ⟨task.packet, pc⟩ kernel := by
  obtain ⟨records, results, hfollows, hgoes⟩ := h.inFlight task htask hexited
  have hproceeds := Processors.statement_proceeds hfollows
  rw [hstatement] at hproceeds
  cases hproceeds with
  | goesOn _ _ hcommitted hnext => exact ⟨Or.inl rfl, _, _, hnext, hgoes⟩
  | commits _ hpc hcommitted hnext =>
      refine ⟨Or.inr ⟨task.packet, rfl⟩, _, _, hnext.undisturbed
        (Processors.udplb_undisturbed H config s.lb.kernel task.packet), ?_⟩
      intro result hresult htx list hlist
      cases List.mem_singleton.mp hresult
      exact forwarded_of_serves hpos (h.balancer.serves list hlist) htx

theorem Advances.undisturbed {lb : LoadBalancer} {task : Task} {kernel : Kernel}
    (h : Advances H config lb task kernel) : Undisturbed config lb.kernel kernel := by
  rcases h.kernel_eq with rfl | ⟨packet, rfl⟩
  · exact .refl config _
  · exact Processors.udplb_undisturbed H config _ packet

theorem Advances.sound {lb : LoadBalancer} {task : Task} {kernel : Kernel}
    (h : Advances H config lb task kernel) (hpos : 0 < config.lookupTableSize.toNat)
    (hlb : LoadBalancer.Sound config lb) (ring : List Assignment) :
    LoadBalancer.Sound config { lb with kernel := kernel, ring := ring } := by
  rcases h.kernel_eq with rfl | ⟨packet, rfl⟩
  · exact ⟨hlb.size_eq, hlb.wellFormed, hlb.ready, hlb.serves⟩
  · exact sound_udplb hpos hlb packet ring

theorem processorStep_eq_ok {event : Processors.Event} {now : List (Nat × Assignment)}
    (h : s.processorStep H config event = .ok (next, now)) :
    ∃ m, Processors.Steps H config s.machine event m now ∧
      next = ⟨{ s.lb with
        kernel := m.shared.kernel
        ring := s.lb.ring ++ now.map Prod.snd }, m.tasks⟩ := by
  simp only [processorStep, bind_eq_ok, mapError_eq_ok, Prod.exists] at h
  obtain ⟨m, records, hstep, h⟩ := h
  cases h
  exact ⟨m, Processors.steps_of_step hstep, rfl⟩

theorem sound_processorStep (hpos : 0 < config.lookupTableSize.toNat) (h : Sound H config s)
    {event : Processors.Event} {now : List (Nat × Assignment)}
    (hevent : ∀ u, event ≠ .userland u)
    (hstep : s.processorStep H config event = .ok (next, now)) : Sound H config next := by
  obtain ⟨m, hsteps, rfl⟩ := processorStep_eq_ok hstep
  cases hsteps with
  | arrived packet =>
      refine ⟨⟨h.balancer.size_eq, h.balancer.wellFormed, h.balancer.ready,
        h.balancer.serves⟩, ?_⟩
      intro task htask hexited
      rcases List.mem_append.mp htask with htask | htask
      · exact h.inFlight task htask hexited
      · cases List.mem_singleton.mp htask
        exact ⟨[], [], .guards, by simp⟩
  | proceeded i task pc kernel record htask hexited hstatement =>
      have hadvances := advances_of_statement hpos h (List.mem_of_getElem? htask) hexited
        hstatement
      refine ⟨hadvances.sound hpos h.balancer _, ?_⟩
      intro task' htask' hexited'
      rcases List.mem_or_eq_of_mem_set htask' with htask' | rfl
      · exact (h.inFlight task' htask' hexited').undisturbed hadvances.undisturbed rfl
      · exact hadvances.directed
  | userland u => exact absurd rfl (hevent u)

theorem sound_managerStep (h : Sound H config s) (E : EbpfStruct) {objs : EventObjects}
    {pc : SetPc} (hpending : s.lb.pending = some (objs, pc))
    (hcond : NotOvertaken s [] (.balancer (.manager E))) :
    Sound H config { s with lb := managerStep E objs pc s.lb } := by
  refine ⟨LoadBalancer.sound_managerStep h.balancer E hpending, ?_⟩
  intro task htask hexited
  have hdirected := h.inFlight task htask hexited
  cases hswitches : pc.switches with
  | false =>
      refine hdirected.undisturbed ?_ (by simp [managerStep, hswitches])
      exact Processors.setObjectsStep_undisturbed config E (h.balancer.ready objs pc hpending)
        hswitches
  | true =>
      have hmoves : s.machine.shared.switches = true := by
        simp [machine, Processors.Shared.switches, hpending, hswitches]
      exact hdirected.overtaken (hcond hmoves task htask) hexited _

theorem step_balancer_eq_ok {event : LoadBalancer.Event} {now : List (Nat × Assignment)}
    (h : step H config s (.balancer event) = .ok (next, now)) :
    event.isPacket = false ∧ ∃ lb results, s.lb.step H config event = .ok (lb, results) ∧
      next = { s with lb := lb } := by
  simp only [step] at h
  split at h
  · cases h
  · rename_i hevent
    simp only [bind_eq_ok, Prod.exists] at h
    obtain ⟨lb, results, hlb, hnext⟩ := h
    cases hnext
    exact ⟨by simpa using hevent, lb, results, hlb, rfl⟩

theorem sound_balancer (hpos : 0 < config.lookupTableSize.toNat) (h : Sound H config s)
    {event : LoadBalancer.Event} {lb : LoadBalancer} (hevent : event.isPacket = false)
    (hcond : NotOvertaken s [] (.balancer event)) (htakes : Takes H config s.lb event lb) :
    Sound H config { s with lb := lb } := by
  have hlb := takes_sound hpos h.balancer htakes
  cases htakes with
  | packet => cases hevent
  | read | deliver | drop | quiet | passes => exact ⟨hlb, h.inFlight⟩
  | manager E objs pc hpending => exact sound_managerStep h E hpending hcond

theorem sound_step (hpos : 0 < config.lookupTableSize.toNat) (h : Sound H config s)
    {event : Event} {out now : List (Nat × Assignment)} (hcond : NotOvertaken s out event)
    (hstep : step H config s event = .ok (next, now)) : Sound H config next := by
  cases event with
  | arrive packet => exact sound_processorStep hpos h (by simp) hstep
  | proceed i => exact sound_processorStep hpos h (by simp) hstep
  | balancer event =>
      obtain ⟨hevent, lb, results, hlb, rfl⟩ := step_balancer_eq_ok hstep
      refine sound_balancer hpos h hevent ?_ (takes_of_step_eq_ok hlb)
      cases event <;> exact hcond

/-- A packet that leaves now goes where it should. -/
theorem forwarded_of_sound (hpos : 0 < config.lookupTableSize.toNat) (h : Sound H config s)
    {i : Nat} {now : List (Nat × Assignment)}
    (hstep : step H config s (.proceed i) = .ok (next, now)) {packet : Packet} {frame : Frame}
    (htx : next.tasks[i]? = some ⟨packet, .exited .tx frame⟩) {list : List BackendSpecT}
    (hlist : s.lb.switched = some list) : ∃ backend ∈ list, RewrittenTo backend frame := by
  obtain ⟨m, hsteps, rfl⟩ := processorStep_eq_ok hstep
  cases hsteps with
  | proceeded _ task pc kernel record htask hexited hstatement =>
      have hadvances := advances_of_statement hpos h (List.mem_of_getElem? htask) hexited
        hstatement
      have hmoved := getElem?_set_of_some htask ⟨task.packet, pc⟩
      cases hmoved.symm.trans htx
      obtain ⟨records, results, hfollows, hgoes⟩ := hadvances.directed
      obtain ⟨result, rfl, haction, rfl, -⟩ := hfollows.of_exited
      exact hgoes result (List.mem_singleton_self _) haction list hlist

end Step

theorem sound_run {H : Helpers} {config : KernelConfig} {s last : Parallel}
    {events : List Event} {out : List (Nat × Assignment)}
    (hpos : 0 < config.lookupTableSize.toNat) (h : Sound H config s)
    (hcond : Along (step H config) NotOvertaken s [] events)
    (hrun : s.run H config events = .ok (last, out)) : Sound H config last := by
  refine run_induction (fun s _ => Sound H config s) h ?_ hcond hrun
  intro s now event next now' hs hevent hstep
  exact sound_step hpos hs hevent hstep

theorem sound_of_new {host : Controller.Host} {config : Config} {c : Controller}
    {kernelConfig : KernelConfig}
    (hnew : Controller.new host config = .ok (c, kernelConfig)) (H : Helpers) :
    0 < kernelConfig.lookupTableSize.toNat ∧ Sound H kernelConfig (new c) := by
  obtain ⟨hpos, hinit⟩ := LoadBalancer.sound_of_new hnew
  exact ⟨hpos, hinit, by simp [new]⟩

/--
In any run in which no switchover overtakes a packet in flight, a packet that leaves with
`XDP_TX` goes to a backend of the list switched in last exactly when some list has been
switched in.
-/
theorem forwarded_to_switched_iff {host : Controller.Host} {config : Config}
    {c : Controller} {kernelConfig : KernelConfig}
    (hnew : Controller.new host config = .ok (c, kernelConfig)) (H : Helpers)
    (events : List Event) {s : Parallel} {out : List (Nat × Assignment)}
    (hcond : Along (step H kernelConfig) NotOvertaken (new c) [] events)
    (hrun : (new c).run H kernelConfig events = .ok (s, out)) (i : Nat) {next : Parallel}
    {now : List (Nat × Assignment)}
    (hleaves : step H kernelConfig s (.proceed i) = .ok (next, now)) {packet : Packet}
    {frame : Frame} (htx : next.tasks[i]? = some ⟨packet, .exited .tx frame⟩) :
    (∃ list, s.lb.switched = some list ∧ ∃ backend ∈ list, RewrittenTo backend frame) ↔
      s.lb.switched.isSome = true := by
  obtain ⟨hpos, hinit⟩ := sound_of_new hnew H
  have hsound := sound_run hpos hinit hcond hrun
  constructor
  · rintro ⟨list, hlist, -⟩
    simp [hlist]
  · intro hsome
    obtain ⟨list, hlist⟩ := Option.isSome_iff_exists.mp hsome
    exact ⟨list, hlist, forwarded_of_sound hpos hsound hleaves htx hlist⟩

def exampleApplies (event : LoadBalancer.Event) : List Event :=
  applies (fun E => .balancer (.manager E)) (.balancer event)

def exampleHealth (state : State) : LoadBalancer.Event :=
  .health ⟨Controller.exampleId "10.0.0.11", state⟩ .ascending

def exampleStatement : Event := .balancer (.manager (.inMemory true true true))

/-- A packet before its last statement, while the next objects are being prepared. -/
def exampleEvents : List Event :=
  exampleApplies (.start .ascending) ++
    [.balancer (exampleHealth .unavailable), .arrive examplePacket] ++
    (List.replicate 3 [.proceed 0, exampleStatement]).flatten ++ List.replicate 6 (.proceed 0)

theorem forwarded_after_first_switchover :
    ∃ s out next now frame list,
      (new Controller.exampleController).run .onesComplement testConfig exampleEvents =
        .ok (s, out) ∧
      step .onesComplement testConfig s (.proceed 0) = .ok (next, now) ∧
      next.tasks[0]? = some ⟨examplePacket, .exited .tx frame⟩ ∧
      s.lb.switched = some list ∧ ∃ backend ∈ list, RewrittenTo backend frame := by
  have hrunning : ((new Controller.exampleController).run .onesComplement testConfig
      exampleEvents).toOption.map (fun result => result.1.lb.switched.isSome) =
      some true := by
    decide +kernel
  have hleaving : ((new Controller.exampleController).run .onesComplement testConfig
      (exampleEvents ++ [.proceed 0])).toOption.map (fun result =>
        result.1.tasks[0]?.map Processors.Task.leftWith) =
      some (some (examplePacket, some .tx)) := by
    decide +kernel
  obtain ⟨⟨s, out⟩, hrun, hsome⟩ := returns_of_toOption hrunning
  obtain ⟨⟨next, all⟩, hall, hexited⟩ := returns_of_toOption hleaving
  obtain ⟨s', out', now, hrun', hlast, -⟩ := run_append_eq_ok.mp hall
  cases hrun.symm.trans hrun'
  obtain ⟨next', now', later, hleaves, hrest, -⟩ := run_cons_eq_ok.mp hlast
  cases hrest
  obtain ⟨frame, htask⟩ := Processors.exited_of_leftWith hexited
  obtain ⟨list, hlist, hbackend⟩ := (forwarded_to_switched_iff new_exampleController
    .onesComplement exampleEvents (by decide +kernel) hrun 0 hleaves htask).mpr hsome
  exact ⟨s, out, next, now', frame, list, hrun, hleaves, htask, hlist, hbackend⟩

def overtakenPacket : Packet := ⟨buildPacket (Vector.replicate 16 8), true, true⟩

/-- 10.0.0.11 goes down and up again; the packet reads the list without it first. -/
def overtakenEvents : List Event :=
  exampleApplies (.start .ascending) ++ exampleApplies (exampleHealth .unavailable) ++
    .balancer (exampleHealth .available) :: List.replicate 3 exampleStatement ++
    [.arrive overtakenPacket, .proceed 0, .proceed 0, exampleStatement] ++
    List.replicate 8 (.proceed 0)

/-- How the packets have left, and whether for the address of an empty slot. -/
def exits (s : Parallel) : List (Option (XdpAction × Bool)) :=
  s.tasks.map fun task =>
    task.pc.exit?.map fun exit => (exit.1, decide (RewrittenTo .zero exit.2))

/-- Right after load, and when it is overtaken later on, a packet goes to an empty slot. -/
theorem forwarded_to_empty_slot :
    ((new Controller.exampleController).run .onesComplement testConfig
        (.arrive examplePacket :: List.replicate 10 (.proceed 0))).toOption.map
      (fun result => (result.1.lb.switched, exits result.1)) =
      some (none, [some (.tx, true)]) ∧
    ((new Controller.exampleController).run .onesComplement testConfig overtakenEvents).toOption.map
      (fun result => (result.1.lb.switched.map (·.map (·.id)), exits result.1)) =
      some (some [Controller.exampleId "10.0.0.10", Controller.exampleId "10.0.0.11"],
        [some (.tx, true)]) := by
  decide +kernel

end Parallel

end Udplb.LoadBalancer
