import Udplb.Bpf.Processors

/-!
# The moments of packets

Unless a switchover overtakes a packet in flight, every packet is processed as
if it were alone, at one moment between its arrival and its exit.  A packet that
is overtaken between its reads of the pointer mixes the old objects with the new.
-/

namespace Udplb.Bpf.Processors

open Udplb.Foundation

/-! ## One step of the machine -/

theorem ready_udplb (H : Helpers) (config : KernelConfig) {kernel : Kernel}
    (packet : Packet) {objs : EventObjects} {pc : SetPc} (h : Ready objs pc kernel) :
    Ready objs pc (udplb H config kernel packet).kernel := by
  rcases udplb_kernel H config kernel packet with hkernel | ⟨session, idx, -, hkernel⟩
  · rw [hkernel]
    exact h
  · rw [hkernel]
    exact ready_updateSession h session idx

/-- What a step that is taken does. -/
inductive Steps (H : Helpers) (config : KernelConfig) (m : Machine) :
    Event → Machine → List (Nat × Assignment) → Prop
  | arrived (packet : Packet) :
      Steps H config m (.arrive packet)
        { m with tasks := m.tasks ++ [⟨packet, .guards⟩] } []
  | proceeded (i : Nat) (task : Task) (pc : Pc) (kernel : Kernel)
      (record : Option Assignment) (htask : m.tasks[i]? = some task)
      (hexited : task.pc.hasExited = false)
      (hstatement : statement H config task.packet m.shared.kernel task.pc =
        (pc, kernel, record)) :
      Steps H config m (.proceed i)
        ⟨{ m.shared with kernel := kernel }, m.tasks.set i ⟨task.packet, pc⟩⟩
        (record.toList.map (Prod.mk i))
  | userland (u : Userland) (shared : Shared) (hshared : m.shared.userland u = .ok shared) :
      Steps H config m (.userland u) { m with shared := shared } []

theorem steps_of_step {H : Helpers} {config : KernelConfig} {m next : Machine}
    {event : Event} {now : List (Nat × Assignment)}
    (hstep : step H config m event = .ok (next, now)) : Steps H config m event next now := by
  cases event with
  | arrive packet =>
      cases hstep
      exact .arrived packet
  | proceed i =>
      simp only [step] at hstep
      split at hstep
      · cases hstep
      · rename_i task htask
        split at hstep
        · cases hstep
        · rename_i hexited
          cases hstep
          exact .proceeded i task _ _ _ htask (by simpa using hexited) rfl
  | userland u =>
      simp only [step, bind_eq_ok] at hstep
      obtain ⟨shared, hshared, heq⟩ := hstep
      cases heq
      exact .userland u shared hshared

/-- A step of userland: it disturbs the tasks only if it moves the pointer. -/
structure Moves (config : KernelConfig) (before after : Shared) : Prop where
  ready : (∀ objs pc, before.pending = some (objs, pc) → Ready objs pc before.kernel) →
    ∀ objs pc, after.pending = some (objs, pc) → Ready objs pc after.kernel
  undisturbed : (∀ objs pc, before.pending = some (objs, pc) → Ready objs pc before.kernel) →
    before.switches = false → Undisturbed config before.kernel after.kernel

theorem userland_moves (config : KernelConfig) {before after : Shared} {u : Userland}
    (h : before.userland u = .ok after) : Moves config before after := by
  cases u with
  | call objs =>
      simp only [Shared.userland] at h
      split at h <;> cases h
      refine ⟨?_, fun _ _ => .refl config _⟩
      rintro - objs' pc ⟨⟩
      trivial
  | statement E =>
      simp only [Shared.userland] at h
      split at h
      · cases h
      · rename_i objs pc hpending
        cases h
        constructor
        · intro hready objs' pc' hpending'
          dsimp only at hpending'
          split at hpending'
          · cases hpending'
          · cases hpending'
            exact setObjectsStep_ready E (hready objs pc hpending)
        · intro hready hswitches
          refine setObjectsStep_undisturbed config E (hready objs pc hpending) ?_
          simpa [Shared.switches, hpending] using hswitches

/-! ## The order of effects -/

/--
The packets that have committed, processed one after the other in the order of
`effects`, leave the same maps; every task follows its own result there.
-/
structure Linearised (H : Helpers) (config : KernelConfig) (start : Shared) (m : Machine)
    (out : List (Nat × Assignment)) (effects : List AtomicEvent)
    (results : List (Nat × XdpResult)) : Prop where
  atomic : run (atomicStep H config) start effects = .ok (m.shared, results)
  ready : ∀ objs pc, m.shared.pending = some (objs, pc) → Ready objs pc m.shared.kernel
  follows : ∀ i task, m.tasks[i]? = some task →
    Follows H config m.shared.kernel task.packet (ofTag i out) (ofTag i results) task.pc
  out_lt : ∀ entry ∈ out, entry.1 < m.tasks.length
  results_lt : ∀ entry ∈ results, entry.1 < m.tasks.length
  packets : ∀ i packet, .packet i packet ∈ effects →
    ∃ task, m.tasks[i]? = some task ∧ task.packet = packet

theorem linearised_start (H : Helpers) (config : KernelConfig) (kernel : Kernel) :
    Linearised H config ⟨kernel, none⟩ (.start kernel) [] [] [] where
  atomic := rfl
  ready := by
    rintro objs pc ⟨⟩
  follows := by simp [Machine.start]
  out_lt := by simp
  results_lt := by simp
  packets := by simp

section Linearised

variable {H : Helpers} {config : KernelConfig} {start : Shared} {m : Machine}
  {out : List (Nat × Assignment)} {effects : List AtomicEvent}
  {results : List (Nat × XdpResult)}

theorem linearised_arrive (h : Linearised H config start m out effects results)
    (packet : Packet) :
    Linearised H config start { m with tasks := m.tasks ++ [⟨packet, .guards⟩] } out
      effects results := by
  refine ⟨h.atomic, h.ready, ?_, ?_, ?_, ?_⟩
  · intro i task htask
    rw [List.getElem?_append] at htask
    split at htask
    · exact h.follows i task htask
    · rename_i hi
      cases List.mem_singleton.mp (List.mem_of_getElem? htask)
      rw [ofTag_eq_nil h.out_lt (by omega), ofTag_eq_nil h.results_lt (by omega)]
      exact .guards
  · intro entry hentry
    have := h.out_lt entry hentry
    simp only [List.length_append, List.length_singleton]
    omega
  · intro entry hentry
    have := h.results_lt entry hentry
    simp only [List.length_append, List.length_singleton]
    omega
  · intro i p hp
    obtain ⟨task, htask, hpacket⟩ := h.packets i p hp
    exact ⟨task, List.getElem?_append_left
      (List.getElem?_eq_some_iff.mp htask).1 ▸ htask, hpacket⟩

/-- Task `i` moves on; what the other tasks rely on is not disturbed. -/
theorem Linearised.set (h : Linearised H config start m out effects results) {i : Nat}
    {task : Task} (htask : m.tasks[i]? = some task) {pc : Pc} {shared : Shared}
    {record : List Assignment} {effects' : List AtomicEvent} {committed : List XdpResult}
    (hatomic : run (atomicStep H config) start effects' =
      .ok (shared, results ++ committed.map (Prod.mk i)))
    (hready : ∀ objs pc, shared.pending = some (objs, pc) → Ready objs pc shared.kernel)
    (hsame : Undisturbed config m.shared.kernel shared.kernel)
    (hnext : Follows H config shared.kernel task.packet (ofTag i out ++ record)
      (ofTag i results ++ committed) pc)
    (hpackets : ∀ j packet, .packet j packet ∈ effects' →
      .packet j packet ∈ effects ∨ j = i ∧ packet = task.packet) :
    Linearised H config start ⟨shared, m.tasks.set i ⟨task.packet, pc⟩⟩
      (out ++ record.map (Prod.mk i)) effects' (results ++ committed.map (Prod.mk i)) := by
  have hi : i < m.tasks.length := (List.getElem?_eq_some_iff.mp htask).1
  have hmoved := getElem?_set_of_some htask ⟨task.packet, pc⟩
  refine ⟨hatomic, hready, ?_, ?_, ?_, ?_⟩
  · intro j task' htask'
    rcases getElem?_set_cases htask' with ⟨rfl, rfl⟩ | ⟨hne, htask'⟩
    · rw [ofTag_append, ofTag_append, ofTag_map_mk_self, ofTag_map_mk_self]
      exact hnext
    · rw [ofTag_append, ofTag_append, ofTag_map_mk_ne (Ne.symm hne),
        ofTag_map_mk_ne (Ne.symm hne), List.append_nil, List.append_nil]
      exact (h.follows j task' htask').undisturbed hsame
  · intro entry hentry
    rw [List.length_set]
    rcases List.mem_append.mp hentry with hentry | hentry
    · exact h.out_lt entry hentry
    · obtain ⟨a, -, rfl⟩ := List.mem_map.mp hentry
      exact hi
  · intro entry hentry
    rw [List.length_set]
    rcases List.mem_append.mp hentry with hentry | hentry
    · exact h.results_lt entry hentry
    · obtain ⟨r, -, rfl⟩ := List.mem_map.mp hentry
      exact hi
  · intro j packet hpacket
    have hsome : ∃ task', m.tasks[j]? = some task' ∧ task'.packet = packet := by
      rcases hpackets j packet hpacket with hold | ⟨rfl, rfl⟩
      · exact h.packets j packet hold
      · exact ⟨task, htask, rfl⟩
    obtain ⟨task', htask', rfl⟩ := hsome
    by_cases hj : j = i
    · subst hj
      rw [htask] at htask'
      cases htask'
      exact ⟨_, hmoved, rfl⟩
    · exact ⟨task', (List.getElem?_set_ne (Ne.symm hj)).trans htask', rfl⟩

theorem linearised_proceed (h : Linearised H config start m out effects results) {i : Nat}
    {task : Task} {pc : Pc} {kernel : Kernel} {record : Option Assignment}
    (htask : m.tasks[i]? = some task)
    (hstatement : statement H config task.packet m.shared.kernel task.pc =
      (pc, kernel, record)) :
    ∃ results', Linearised H config start
      ⟨{ m.shared with kernel := kernel }, m.tasks.set i ⟨task.packet, pc⟩⟩
      (out ++ record.toList.map (Prod.mk i)) (effect H config m effects (.proceed i))
      results' := by
  have hfollows := h.follows i task htask
  have hproceeds := statement_proceeds hfollows
  simp only [effect, htask, hstatement]
  rw [hstatement] at hproceeds
  cases hproceeds with
  | goesOn _ _ hcommitted hnext =>
      have hsame : ¬(task.pc.committed = false ∧ pc.committed = true) := by
        rw [hcommitted]
        simp
      rw [if_neg hsame]
      refine ⟨results ++ ([] : List XdpResult).map (Prod.mk i), h.set htask ?_ h.ready
        (.refl config _) ?_ fun j packet hpacket => Or.inl hpacket⟩
      · simpa using h.atomic
      · rwa [List.append_nil]
  | commits _ hpc hcommitted hnext =>
      have hnone : ofTag i results = [] := by
        by_contra hsome
        rw [hfollows.committed_iff.mpr hsome] at hpc
        cases hpc
      have hsame := udplb_undisturbed H config m.shared.kernel task.packet
      rw [if_pos ⟨hpc, hcommitted⟩]
      refine ⟨results ++ [udplb H config m.shared.kernel task.packet].map (Prod.mk i),
        h.set htask ?_ ?_ hsame ?_ ?_⟩
      · exact run_append_eq_ok.mpr ⟨_, _, _, h.atomic, rfl, rfl⟩
      · intro objs pc hpending
        exact ready_udplb H config task.packet (h.ready objs pc hpending)
      · rw [hnone, Option.toList_none, List.append_nil]
        exact hnext.undisturbed hsame
      · intro j packet hpacket
        rcases List.mem_append.mp hpacket with hpacket | hpacket
        · exact Or.inl hpacket
        · cases List.mem_singleton.mp hpacket
          exact Or.inr ⟨rfl, rfl⟩

theorem linearised_userland (h : Linearised H config start m out effects results)
    {u : Userland} {shared : Shared} (hshared : m.shared.userland u = .ok shared)
    (hcond : NotOvertaken m out (.userland u)) :
    Linearised H config start { m with shared := shared } out
      (effects ++ [.userland u]) results := by
  have hmoves := userland_moves config hshared
  refine ⟨?_, hmoves.ready h.ready, ?_, h.out_lt, h.results_lt, ?_⟩
  · refine run_append_eq_ok.mpr ⟨_, _, [], h.atomic, ?_, (List.append_nil _).symm⟩
    simp [run, atomicStep, hshared]
  · intro i task htask
    have hfollows := h.follows i task htask
    cases hswitches : m.shared.switches with
    | false => exact hfollows.undisturbed (hmoves.undisturbed h.ready hswitches)
    | true =>
        cases u with
        | call objs =>
            -- a call is only made while none is pending
            simp only [Shared.userland] at hshared
            split at hshared <;> cases hshared
            exact hfollows
        | statement E =>
            exact hfollows.overtaken _
              (hcond hswitches task (List.mem_of_getElem? htask))
  · intro i packet hpacket
    apply h.packets i packet
    simpa using hpacket

theorem linearised_step {event : Event} {next : Machine}
    {now : List (Nat × Assignment)}
    (h : ∃ results, Linearised H config start m out effects results)
    (hcond : NotOvertaken m out event) (hsteps : Steps H config m event next now) :
    ∃ results, Linearised H config start next (out ++ now)
      (effect H config m effects event) results := by
  obtain ⟨results, h⟩ := h
  cases hsteps with
  | arrived packet =>
      rw [List.append_nil]
      exact ⟨results, linearised_arrive h packet⟩
  | proceeded i task pc kernel record htask hexited hstatement =>
      exact linearised_proceed h htask hstatement
  | userland u shared hshared =>
      rw [List.append_nil]
      exact ⟨results, linearised_userland h hshared hcond⟩

end Linearised

theorem linearised_run {H : Helpers} {config : KernelConfig} {kernel : Kernel}
    {events : List Event} {last : Machine} {out : List (Nat × Assignment)}
    (halong : Along (step H config) NotOvertaken (.start kernel) [] events)
    (hrun : run (step H config) (.start kernel) events = .ok (last, out)) :
    ∃ results, Linearised H config ⟨kernel, none⟩ last out
      (effects H config (.start kernel) events) results := by
  have hstep : ∀ (s : Machine) now seen event next now',
      (∃ results, Linearised H config ⟨kernel, none⟩ s now seen results) →
      NotOvertaken s now event → step H config s event = .ok (next, now') →
      ∃ results, Linearised H config ⟨kernel, none⟩ next (now ++ now')
        (effect H config s seen event) results :=
    fun _ _ _ _ _ _ h hcond hstep => linearised_step h hcond (steps_of_step hstep)
  simpa [effects] using observed_induction
    (fun s now seen => ∃ results, Linearised H config ⟨kernel, none⟩ s now seen results)
    ⟨[], linearised_start H config kernel⟩ hstep halong hrun

/-! ## Moments -/

def AtomicEvent.task? : AtomicEvent → Option Nat
  | .packet i _ => some i
  | .userland _ => none

theorem tasks_of_results {H : Helpers} {config : KernelConfig} {s last : Shared}
    {moments : List AtomicEvent} {results : List (Nat × XdpResult)}
    (hrun : run (atomicStep H config) s moments = .ok (last, results)) :
    results.map Prod.fst = moments.filterMap AtomicEvent.task? := by
  have hstep : ∀ (s : Shared) (moment : AtomicEvent) next now, True →
      atomicStep H config s moment = .ok (next, now) →
      True ∧ now.filterMap (some ∘ Prod.fst) = moment.task?.toList := by
    intro s moment next now _ hstep
    refine ⟨trivial, ?_⟩
    cases moment with
    | packet i packet =>
        cases hstep
        rfl
    | userland u =>
        simp only [atomicStep, bind_eq_ok] at hstep
        obtain ⟨shared, -, heq⟩ := hstep
        cases heq
        rfl
  have hresults := run_filterMap (fun _ => True) (some ∘ Prod.fst) AtomicEvent.task?
    trivial hstep hrun
  rwa [List.filterMap_eq_map] at hresults

/-- A packet that has left had its moment. -/
theorem Linearised.moment {H : Helpers} {config : KernelConfig} {start : Shared}
    {m : Machine} {out : List (Nat × Assignment)} {moments : List AtomicEvent}
    {results : List (Nat × XdpResult)}
    (h : Linearised H config start m out moments results) {i : Nat} {task : Task}
    (htask : m.tasks[i]? = some task) (hexited : task.pc.hasExited = true) :
    .packet i task.packet ∈ moments := by
  have hfollows := h.follows i task htask
  have hsome : ofTag i results ≠ [] := by
    apply hfollows.committed_iff.mp
    cases hpc : task.pc <;> simp_all [Pc.hasExited, Pc.committed]
  have hmem : i ∈ results.map Prod.fst := by
    obtain ⟨result, hresult⟩ := List.exists_mem_of_ne_nil _ hsome
    exact List.mem_map.mpr ⟨(i, result), mem_ofTag.mp hresult, rfl⟩
  rw [tasks_of_results h.atomic] at hmem
  obtain ⟨moment, hmoment, hi⟩ := List.mem_filterMap.mp hmem
  cases moment with
  | userland u => cases hi
  | packet j packet =>
      cases hi
      obtain ⟨task', htask', rfl⟩ := h.packets i packet hmoment
      rw [htask] at htask'
      cases htask'
      exact hmoment

theorem isPrefix_effect (H : Helpers) (config : KernelConfig) (m : Machine)
    (before : List AtomicEvent) (event : Event) :
    before <+: effect H config m before event := by
  cases event with
  | arrive packet => exact List.prefix_rfl
  | userland u => exact List.prefix_append _ _
  | proceed i =>
      simp only [effect]
      split
      · exact List.prefix_rfl
      · split
        · exact List.prefix_append _ _
        · exact List.prefix_rfl

/--
Packets are processed in parallel, while userland replaces the maps, and no
switchover overtakes a packet in flight.  Then the run has the effect of
processing one packet after the other, with the statements of userland in
between: it leaves the same maps; each packet that has left did so with the
action and the bytes of its own moment there; and its moment lies between its
arrival and its exit.  Only more records may be submitted: the packets of a new
session that are in flight together all report the backend they go to.
-/
theorem packets_take_effect_at_once (H : Helpers) (config : KernelConfig)
    (kernel : Kernel) (events : List Event) (last : Machine)
    (out : List (Nat × Assignment))
    (halong : Along (step H config) NotOvertaken (.start kernel) [] events)
    (hrun : run (step H config) (.start kernel) events = .ok (last, out)) :
    (∃ results,
      run (atomicStep H config) ⟨kernel, none⟩
        (effects H config (.start kernel) events) = .ok (last.shared, results) ∧
      ∀ i packet action frame, last.tasks[i]? = some ⟨packet, .exited action frame⟩ →
        ∃ result, ofTag i results = [result] ∧ result.action = action ∧
          result.frame = frame ∧ Reported packet result (ofTag i out)) ∧
    ∀ first rest middle now, events = first ++ rest →
      run (step H config) (.start kernel) first = .ok (middle, now) →
        effects H config (.start kernel) first <+:
          effects H config (.start kernel) events ∧
        (∀ i packet, .packet i packet ∈ effects H config (.start kernel) first →
          ∃ task, middle.tasks[i]? = some task ∧ task.packet = packet) ∧
        ∀ i task, middle.tasks[i]? = some task → task.pc.hasExited = true →
          .packet i task.packet ∈ effects H config (.start kernel) first := by
  constructor
  · obtain ⟨results, h⟩ := linearised_run halong hrun
    refine ⟨results, h.atomic, ?_⟩
    intro i packet action frame htask
    exact (h.follows i _ htask).of_exited
  · rintro first rest middle now rfl hfirst
    obtain ⟨results, h⟩ := linearised_run halong.of_append hfirst
    refine ⟨?_, h.packets, fun i task => h.moment⟩
    rw [effects, effects, observed_append hfirst]
    exact isPrefix_observed (isPrefix_effect H config) _ rest

/-- A single backend is left. -/
def exampleObjs : EventObjects := ⟨[testBackend 2], List.replicate 7 0, ∅⟩

/-- Two packets of one new session in step, then new objects are set. -/
def exampleEvents : List Event :=
  [.arrive testPacket, .arrive testPacket] ++
    (List.replicate 10 [.proceed 0, .proceed 1]).flatten ++
    .userland (.call exampleObjs) ::
    List.replicate 6 (.userland (.statement (.inMemory true true true)))

theorem packets_take_effect_at_once_one_session :
    ∃ last out,
      run (step .onesComplement testConfig) (.start testKernel) exampleEvents =
        .ok (last, out) ∧
      Along (step .onesComplement testConfig) NotOvertaken (.start testKernel) []
        exampleEvents ∧
      out.map Prod.fst = [0, 1] ∧
      last.tasks.map (·.pc.hasExited) = [true, true] ∧
      ∃ results, run (atomicStep .onesComplement testConfig) ⟨testKernel, none⟩
        (effects .onesComplement testConfig (.start testKernel) exampleEvents) =
          .ok (last.shared, results) := by
  have hevaluated : (run (step .onesComplement testConfig) (.start testKernel)
      exampleEvents).toOption.map (fun result =>
        (result.2.map Prod.fst, result.1.tasks.map (·.pc.hasExited))) =
      some ([0, 1], [true, true]) := by
    decide +kernel
  have halong : Along (step .onesComplement testConfig) NotOvertaken (.start testKernel)
      [] exampleEvents := by
    decide +kernel
  obtain ⟨⟨last, out⟩, hrun, hresult⟩ := returns_of_toOption hevaluated
  obtain ⟨hout, hexited⟩ := Prod.mk.inj hresult
  obtain ⟨⟨results, hatomic, -⟩, -⟩ := packets_take_effect_at_once .onesComplement
    testConfig testKernel exampleEvents last out halong hrun
  exact ⟨last, out, hrun, halong, hout, hexited, results, hatomic⟩

/-! ## Sessions -/

/-- Without userland every packet is processed on maps that select the same. -/
theorem results_undisturbed {H : Helpers} {config : KernelConfig} {s last : Shared}
    {moments : List AtomicEvent} {results : List (Nat × XdpResult)}
    (hpackets : ∀ u, .userland u ∉ moments)
    (hrun : run (atomicStep H config) s moments = .ok (last, results)) {i : Nat}
    {result : XdpResult} (hresult : (i, result) ∈ results) :
    ∃ packet kernel, .packet i packet ∈ moments ∧
      Undisturbed config s.kernel kernel ∧ result = udplb H config kernel packet := by
  induction moments generalizing s results with
  | nil =>
      cases hrun
      cases hresult
  | cons moment moments ih =>
      obtain ⟨next, now, later, hmoment, hrest, rfl⟩ := run_cons_eq_ok.mp hrun
      cases moment with
      | userland u => exact absurd List.mem_cons_self (hpackets u)
      | packet j packet =>
          cases hmoment
          rcases List.mem_cons.mp hresult with heq | hlater
          · cases heq
            exact ⟨packet, s.kernel, List.mem_cons_self, .refl config _, rfl⟩
          · have hsame := udplb_undisturbed H config s.kernel packet
            obtain ⟨packet', kernel, hmem, hkernel, rfl⟩ :=
              ih (fun u hu => hpackets u (List.mem_cons_of_mem _ hu)) hrest hlater
            exact ⟨packet', kernel, List.mem_cons_of_mem _ hmem, hsame.trans hkernel, rfl⟩

def Event.isUserland : Event → Bool
  | .userland _ => true
  | .arrive _ | .proceed _ => false

theorem effects_without_userland {H : Helpers} {config : KernelConfig} {m : Machine}
    {events : List Event} (hevents : ∀ event ∈ events, event.isUserland = false)
    {before : List AtomicEvent} (hbefore : ∀ u, .userland u ∉ before) (u : Userland) :
    .userland u ∉ observed (step H config) (effect H config) m before events := by
  induction events generalizing m before with
  | nil => exact hbefore u
  | cons event events ih =>
      rw [observed]
      split
      · refine ih (fun e he => hevents e (List.mem_cons_of_mem _ he)) ?_
        intro u' hu'
        cases event with
        | arrive packet => exact hbefore u' hu'
        | userland u'' => cases hevents _ List.mem_cons_self
        | proceed i =>
            simp only [effect] at hu'
            split at hu'
            · exact hbefore u' hu'
            · split at hu'
              · rcases List.mem_append.mp hu' with hu' | hu'
                · exact hbefore u' hu'
                · cases List.mem_singleton.mp hu'
              · exact hbefore u' hu'
      · exact hbefore u

/-- A packet that has left was forwarded as the first maps of the run select. -/
theorem exited_selected {H : Helpers} {config : KernelConfig} {kernel : Kernel}
    {events : List Event} {last : Machine} {out : List (Nat × Assignment)}
    (hevents : ∀ event ∈ events, event.isUserland = false)
    (hrun : run (step H config) (.start kernel) events = .ok (last, out)) {i : Nat}
    {packet : Packet} {frame : Frame}
    (htask : last.tasks[i]? = some ⟨packet, .exited .tx frame⟩) :
    ∃ idx backend, backendIdx config kernel (sessionId packet.frame) = some idx ∧
      arrayLookup backendListMaxEntries kernel.activeBackendList idx = some backend ∧
      RewrittenTo backend frame := by
  have halong : Along (step H config) NotOvertaken (.start kernel) [] events := by
    apply Along.of_forall
    intro s now event hevent
    cases event with
    | arrive | proceed => trivial
    | userland u => cases hevents _ hevent
  obtain ⟨results, h⟩ := linearised_run halong hrun
  obtain ⟨result, hresult, htx, rfl, -⟩ := (h.follows i _ htask).of_exited
  have hmem : (i, result) ∈ results := mem_ofTag.mp (by simp [hresult])
  have hpackets : ∀ u, .userland u ∉ effects H config (.start kernel) events :=
    effects_without_userland hevents (by simp)
  obtain ⟨packet', kernel', hmoment, hsame, rfl⟩ :=
    results_undisturbed hpackets h.atomic hmem
  obtain ⟨task, htask', hpacket⟩ := h.packets i packet' hmoment
  have hpacket : packet' = packet := by
    rw [htask, Option.some.injEq] at htask'
    rw [← hpacket, ← htask']
  subst hpacket
  rcases udplb_handled H config kernel' packet' with
    ⟨hne, -⟩ | ⟨-, idx, backend, hforwarded⟩
  · exact absurd htx hne
  · refine ⟨idx, backend, ?_, ?_, hforwarded.rewritten⟩
    · exact (hsame.backendIdx _).symm.trans hforwarded.idx_eq
    · exact (congrArg (arrayLookup backendListMaxEntries · idx) hsame.backendList).symm.trans
        hforwarded.backend_eq

/--
However the packets are interleaved, two forwarded packets of one session go to
the same backend: the one that the maps select at the beginning.
-/
theorem parallel_session_affinity (H : Helpers) (config : KernelConfig) (kernel : Kernel)
    (events : List Event) (last : Machine) (out : List (Nat × Assignment))
    (hevents : ∀ event ∈ events, event.isUserland = false)
    (hrun : run (step H config) (.start kernel) events = .ok (last, out)) {i j : Nat}
    {packet packet' : Packet} {frame frame' : Frame}
    (htask : last.tasks[i]? = some ⟨packet, .exited .tx frame⟩)
    (htask' : last.tasks[j]? = some ⟨packet', .exited .tx frame'⟩)
    (hsession : sessionId packet.frame = sessionId packet'.frame) :
    ∃ idx backend, backendIdx config kernel (sessionId packet.frame) = some idx ∧
      arrayLookup backendListMaxEntries kernel.activeBackendList idx = some backend ∧
      RewrittenTo backend frame ∧ RewrittenTo backend frame' := by
  obtain ⟨idx, backend, hidx, hbackend, hrewritten⟩ := exited_selected hevents hrun htask
  obtain ⟨idx', backend', hidx', hbackend', hrewritten'⟩ :=
    exited_selected hevents hrun htask'
  rw [← hsession, hidx, Option.some.injEq] at hidx'
  subst hidx'
  rw [hbackend, Option.some.injEq] at hbackend'
  subst hbackend'
  exact ⟨idx, backend, hidx, hbackend, hrewritten, hrewritten'⟩

/-- The second packet of the session starts when the first has stored nothing yet. -/
def inStepEvents : List Event :=
  [.arrive testPacket, .arrive testPacket] ++
    (List.replicate 10 [.proceed 0, .proceed 1]).flatten

theorem parallel_session_affinity_in_step :
    ∃ last out frame frame' backend,
      run (step .onesComplement testConfig) (.start testKernel) inStepEvents =
        .ok (last, out) ∧
      last.tasks = [⟨testPacket, .exited .tx frame⟩, ⟨testPacket, .exited .tx frame'⟩] ∧
      RewrittenTo backend frame ∧ RewrittenTo backend frame' := by
  have hevaluated : (run (step .onesComplement testConfig) (.start testKernel)
      inStepEvents).toOption.map (fun result => result.1.tasks) =
      some (List.replicate 2 ⟨testPacket, .exited .tx (Bpf.rewrite .onesComplement testConfig
        (testBackend 1) (decrementTtl testPacket.frame))⟩) := by
    decide +kernel
  obtain ⟨⟨last, out⟩, hrun, htasks⟩ := returns_of_toOption hevaluated
  have hlast : last.tasks = _ := htasks
  obtain ⟨idx, backend, -, -, hrewritten, hrewritten'⟩ := parallel_session_affinity
    .onesComplement testConfig testKernel inStepEvents last out (by decide) hrun
    (i := 0) (j := 1) (by rw [hlast]; rfl) (by rw [hlast]; rfl) rfl
  exact ⟨last, out, _, _, backend, hrun, hlast, hrewritten, hrewritten'⟩

/-! ## A packet that is overtaken -/

/-- By itself the task reaches `final` in `n` statements, and leaves the maps `after`. -/
def Reaches (H : Helpers) (config : KernelConfig) (packet : Packet) (n : Nat) (final : Pc)
    (after kernel : Kernel) (pc : Pc) : Prop :=
  ∀ (m : Machine) (i : Nat), m.tasks[i]? = some ⟨packet, pc⟩ → m.shared.kernel = kernel →
    Returns (run (step H config) m (List.replicate n (.proceed i))) fun result =>
      result.1.tasks[i]? = some ⟨packet, final⟩ ∧ result.1.shared.kernel = after

theorem reaches_zero (H : Helpers) (config : KernelConfig) (packet : Packet) (pc : Pc)
    (kernel : Kernel) : Reaches H config packet 0 pc kernel kernel pc :=
  fun _ _ htask hkernel => .ok ⟨htask, hkernel⟩

theorem reaches_succ {H : Helpers} {config : KernelConfig} {packet : Packet} {n : Nat}
    {final pc next : Pc} {after kernel kernel' : Kernel} {record : Option Assignment}
    (hexited : pc.hasExited = false)
    (hstatement : statement H config packet kernel pc = (next, kernel', record))
    (h : Reaches H config packet n final after kernel' next) :
    Reaches H config packet (n + 1) final after kernel pc := by
  rintro m i htask rfl
  have hstep : step H config m (.proceed i) =
      .ok (⟨{ m.shared with kernel := kernel' }, m.tasks.set i ⟨packet, next⟩⟩,
        record.toList.map (Prod.mk i)) := by
    simp only [step, htask, hexited, hstatement]
    rfl
  obtain ⟨⟨last, later⟩, hrun, hlast⟩ :=
    h ⟨{ m.shared with kernel := kernel' }, m.tasks.set i ⟨packet, next⟩⟩ i
      (getElem?_set_of_some htask _) rfl
  exact ⟨_, run_cons_eq_ok.mpr ⟨_, _, _, hstep, hrun, rfl⟩, hlast⟩

/-- The maps after the update of the session map. -/
def stored (packet : Packet) (kernel : Kernel) (variant idx : Nat) : Kernel :=
  if packet.updated then storeSession kernel variant (sessionId packet.frame) idx else kernel

@[simp] theorem backendList_stored (packet : Packet) (kernel : Kernel) (variant idx : Nat) :
    (stored packet kernel variant idx).backendList = kernel.backendList := by
  unfold stored storeSession
  split
  · split <;> rfl
  · rfl

theorem lookup_stored {packet : Packet} (hupdated : packet.updated = true) (kernel : Kernel)
    (idx : Nat) :
    (stored packet kernel kernel.activePointer idx).activeSessions.lookup
      (sessionId packet.frame) = some idx := by
  rw [stored, if_pos hupdated, storeSession]
  split
  · assumption
  · simp [Kernel.activeSessions]

/-- The slot of the session in a lookup table. -/
def slotOf (config : KernelConfig) (packet : Packet) : Nat :=
  (hashModulo (sessionId packet.frame) config.lookupTableSize).toNat

section NewSession

variable {H : Helpers} {config : KernelConfig} {kernel : Kernel} {packet : Packet}
  {v : Variants} {idx : Nat}

theorem reaches_rewritten (ref : IdxRef) :
    Reaches H config packet 2
      (.exited .tx (Bpf.rewrite H config (kernel.backendList.active v.backends idx)
        (decrementTtl packet.frame)))
      (stored packet kernel v.sessions (ref.read kernel)) kernel (.update v ref idx) := by
  rw [← backendList_stored packet kernel v.sessions (ref.read kernel)]
  exact reaches_succ rfl rfl (reaches_succ rfl rfl (reaches_zero _ _ _ _ _))

/-- A new session: the variants that were read decide, each of them by itself. -/
theorem reaches_forwarded (v : Variants)
    (hsession : (kernel.sessionMap.active v.sessions).lookup (sessionId packet.frame) = none)
    (hkey : slotOf config packet < lookupTableMaxLength)
    (hslot : kernel.lookupTable.active v.table (slotOf config packet) = idx)
    (hidx : idx < backendListMaxEntries) :
    Reaches H config packet 6
      (.exited .tx (Bpf.rewrite H config (kernel.backendList.active v.backends idx)
        (decrementTtl packet.frame)))
      (stored packet kernel v.sessions idx) kernel (.findSession v) := by
  have hread : (IdxRef.slot v.table (slotOf config packet)).read kernel = idx := hslot
  have hsessionFound : statement H config packet kernel (.findSession v) =
      (.findSlot v, kernel, none) := by
    simp only [statement, hsession]
  have hslotFound : statement H config packet kernel (.findSlot v) =
      (.findBackend v (.slot v.table (slotOf config packet)), kernel, none) := by
    unfold slotOf at hkey ⊢
    simp only [statement, if_pos hkey]
  have hbackendFound : statement H config packet kernel
      (.findBackend v (.slot v.table (slotOf config packet))) =
      (.reserve v (.slot v.table (slotOf config packet)) idx, kernel, none) := by
    simp only [statement]
    rw [hread, if_pos hidx]
  rw [← hread] at hbackendFound ⊢
  exact reaches_succ rfl hsessionFound (reaches_succ rfl hslotFound
    (reaches_succ rfl hbackendFound (reaches_succ rfl rfl (reaches_rewritten _))))

end NewSession

/--
When the switchover and then `n` statements of task `i` have been executed, the packet has
been forwarded to `backend`, and later packets of its session find the index `idx`.
-/
def ForwardedAs (H : Helpers) (config : KernelConfig) (m : Machine) (i : Nat)
    (packet : Packet) (E : EbpfStruct) (n : Nat) (backend : BackendSpecT) (idx : Nat) : Prop :=
  Returns (run (step H config) m (.userland (.statement E) :: List.replicate n (.proceed i)))
    fun result =>
      (∃ frame, result.1.tasks[i]? = some ⟨packet, .exited .tx frame⟩ ∧
        RewrittenTo backend frame) ∧
      (packet.updated = true →
        result.1.shared.kernel.activeSessions.lookup (sessionId packet.frame) = some idx)

section Overtaken

variable {H : Helpers} {config : KernelConfig} {m : Machine} {i : Nat} {packet : Packet}
  {objs : EventObjects} {lup s : Nat}

/-- The maps once the pointer has moved. -/
def switchedOver (kernel : Kernel) : Kernel :=
  { kernel with activePointer := otherPointer kernel.activePointer }

theorem backendList_switchedOver (kernel : Kernel) :
    (switchedOver kernel).backendList.active kernel.activePointer = kernel.activeBackendList :=
  rfl

theorem reaches_getSessions {kernel after : Kernel} {final : Pc} {backends table n : Nat}
    (h : Reaches H config packet n final after (switchedOver kernel)
      (.findSession ⟨backends, table, otherPointer kernel.activePointer⟩)) :
    Reaches H config packet (n + 1) final after (switchedOver kernel)
      (.getSessions backends table) :=
  reaches_succ rfl rfl h

theorem reaches_getLookupTable {kernel after : Kernel} {final : Pc} {backends n : Nat}
    (h : Reaches H config packet n final after (switchedOver kernel)
      (.getSessions backends (otherPointer kernel.activePointer))) :
    Reaches H config packet (n + 1) final after (switchedOver kernel)
      (.getLookupTable backends) :=
  reaches_succ rfl rfl h

theorem forwardedAs_of_reaches {pc : Pc} {n idx : Nat} (E : EbpfStruct)
    (hadmitted : Admitted config packet.frame)
    (htask : m.tasks[i]? = some ⟨packet, pc⟩)
    (hpending : m.shared.pending =
      some (objs, .bSwitchover (otherPointer m.shared.kernel.activePointer) lup s))
    (h : Reaches H config packet n
      (.exited .tx (Bpf.rewrite H config (m.shared.kernel.activeBackendList idx)
        (decrementTtl packet.frame)))
      (stored packet (switchedOver m.shared.kernel)
        (otherPointer m.shared.kernel.activePointer) idx)
      (switchedOver m.shared.kernel) pc) :
    ForwardedAs H config m i packet E n (m.shared.kernel.activeBackendList idx) idx := by
  have hstep : step H config m (.userland (.statement E)) =
      .ok ({ m with shared :=
        ⟨switchedOver m.shared.kernel, some (objs, .lupSwitchover lup s)⟩ }, []) := by
    simp [step, Shared.userland, hpending, setObjectsStep, switchedOver]
  obtain ⟨⟨last, later⟩, hrun, htx, hkernel⟩ := h
    { m with shared := ⟨switchedOver m.shared.kernel, some (objs, .lupSwitchover lup s)⟩ } i
    htask rfl
  refine ⟨_, run_cons_eq_ok.mpr ⟨_, _, _, hstep, hrun, rfl⟩, ⟨_, htx, ?_⟩, ?_⟩
  · exact rewrittenTo_rewrite H config _ (by simpa using hadmitted.length_ge)
  · intro hupdated
    rw [show last.shared.kernel = _ from hkernel]
    exact lookup_stored hupdated (switchedOver m.shared.kernel) idx

/--
A switchover comes between the reads of the pointer, and the packet's session is not in the
new session map.  The packet goes to a backend of the old list in any case.  Between the
first two reads its index is the one of the new table, which need not be meant for the old
list.  Between the last two it is the one of the old table, and is stored in the new session
map, where it need not be meant for the new list.
-/
theorem overtaken_packet_mixes (H : Helpers) (config : KernelConfig) (m : Machine)
    (i : Nat) (packet : Packet) (objs : EventObjects) (b lup s idx : Nat) (E : EbpfStruct)
    (hadmitted : Admitted config packet.frame)
    (hpending : m.shared.pending = some (objs, .bSwitchover b lup s))
    (hready : Ready objs (.bSwitchover b lup s) m.shared.kernel)
    (hsession : objs.sessionMap.lookup (sessionId packet.frame) = none)
    (hkey : slotOf config packet < lookupTableMaxLength)
    (hidx : idx < backendListMaxEntries) :
    (m.tasks[i]? = some ⟨packet, .getLookupTable m.shared.kernel.activePointer⟩ →
      objs.lookupTable[slotOf config packet]? = some idx →
        ForwardedAs H config m i packet E 8 (m.shared.kernel.activeBackendList idx) idx) ∧
    (m.tasks[i]? = some ⟨packet, .getSessions m.shared.kernel.activePointer
        m.shared.kernel.activePointer⟩ →
      m.shared.kernel.activeLookupTable (slotOf config packet) = idx →
        ForwardedAs H config m i packet E 7 (m.shared.kernel.activeBackendList idx) idx) := by
  obtain ⟨rfl, -, -, -, htable, hsessions⟩ := hready
  have hnone : ((switchedOver m.shared.kernel).sessionMap.active
      (otherPointer m.shared.kernel.activePointer)).lookup (sessionId packet.frame) = none := by
    rw [DoubleBuffer.active_otherPointer]
    exact (hsessions _).trans hsession
  -- whichever table has been read, its index decides on the old list
  have hforwarded : ∀ table, (switchedOver m.shared.kernel).lookupTable.active table
      (slotOf config packet) = idx →
        Reaches H config packet 6
          (.exited .tx (Bpf.rewrite H config (m.shared.kernel.activeBackendList idx)
            (decrementTtl packet.frame)))
          (stored packet (switchedOver m.shared.kernel)
            (otherPointer m.shared.kernel.activePointer) idx)
          (switchedOver m.shared.kernel)
          (.findSession ⟨m.shared.kernel.activePointer, table,
            otherPointer m.shared.kernel.activePointer⟩) := by
    intro table hslot
    rw [← backendList_switchedOver]
    exact reaches_forwarded ⟨_, table, _⟩ hnone hkey hslot hidx
  constructor
  · intro htask hslot
    have hread : (switchedOver m.shared.kernel).lookupTable.active
        (otherPointer m.shared.kernel.activePointer) (slotOf config packet) = idx := by
      rw [DoubleBuffer.active_otherPointer]
      exact htable _ idx hslot
    exact forwardedAs_of_reaches E hadmitted htask hpending
      (reaches_getLookupTable (reaches_getSessions (hforwarded _ hread)))
  · intro htask hslot
    exact forwardedAs_of_reaches E hadmitted htask hpending
      (reaches_getSessions (hforwarded _ hslot))

end Overtaken

/-- The passive variants hold the new objects, and the pointer is about to move. -/
def overtakenMachine (pc : Pc) : Machine where
  shared :=
    { kernel :=
        { testKernel with
          backendList := ⟨testKernel.backendList.a, writeArray .zero exampleObjs.backendList⟩
          lookupTable := ⟨testKernel.lookupTable.a, writeArray 0 exampleObjs.lookupTable⟩ }
      pending := some (exampleObjs, .bSwitchover 1 1 1) }
  tasks := [⟨testPacket, pc⟩]

/--
The old objects choose backend 1 for the packet, the new ones backend 2.  It goes to backend
0, or leaves the index 1 in a session map whose list has only one entry.
-/
theorem overtaken_packet_mixes_three_backends :
    selectBackend testConfig (overtakenMachine .guards).shared.kernel
      (sessionId testPacket.frame) = some (1, testBackend 1) ∧
    exampleObjs.backendList = [testBackend 2] ∧
    ForwardedAs .onesComplement testConfig (overtakenMachine (.getLookupTable 0)) 0 testPacket
      (.inMemory true true true) 8 (testBackend 0) 0 ∧
    ForwardedAs .onesComplement testConfig (overtakenMachine (.getSessions 0 0)) 0 testPacket
      (.inMemory true true true) 7 (testBackend 1) 1 := by
  refine ⟨by decide +kernel, rfl, ?_, ?_⟩
  · exact (overtaken_packet_mixes .onesComplement testConfig
      (overtakenMachine (.getLookupTable 0)) 0 testPacket exampleObjs 1 1 1 0
      (.inMemory true true true) (by decide +kernel) rfl
      ⟨rfl, rfl, rfl, arrayHolds_writeArray _ _, arrayHolds_writeArray _ _, fun _ => rfl⟩
      rfl (by decide +kernel) (by decide)).1 rfl (by decide +kernel)
  · exact (overtaken_packet_mixes .onesComplement testConfig
      (overtakenMachine (.getSessions 0 0)) 0 testPacket exampleObjs 1 1 1 1
      (.inMemory true true true) (by decide +kernel) rfl
      ⟨rfl, rfl, rfl, arrayHolds_writeArray _ _, arrayHolds_writeArray _ _, fun _ => rfl⟩
      rfl (by decide +kernel) (by decide)).2 rfl (by decide +kernel)

end Udplb.Bpf.Processors
