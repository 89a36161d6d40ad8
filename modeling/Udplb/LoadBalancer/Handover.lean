import Mathlib.Tactic.Tauto
import Udplb.Controller.Affinity
import Udplb.LoadBalancer.Configured

/-!
# Sessions across a switchover

A switchover replaces the session map of the kernel by the controller's.  A
session survives if the controller learned of it before the recomputation, and
remembers it under an index of the right backend.  `Careful` collects what the
steps of a run have to respect for that; each part excludes one way of losing a
session.
-/

namespace Udplb.LoadBalancer

open Udplb.Foundation Udplb.Bpf

/-- The records that are submitted and not yet delivered. -/
def inFlight (lb : LoadBalancer) : List Assignment := lb.ring ++ lb.queue

def ids (lb : LoadBalancer) : List UUID := lb.controller.backends.map (·.id)

def backendId (lb : LoadBalancer) (idx : Nat) : UUID :=
  (lb.kernel.activeBackendList idx).id

def Careful (lb : LoadBalancer) (_ : List XdpResult) : Event → Prop
  -- a session enters the map only with a record of it
  | .packet p => p.updated = true → p.reserved = true
  | .read => True
  | .deliver _ => True
  -- no dispatch times out
  | .drop _ => False
  -- the list passed last is an initial part of the list of all backends
  | .health entry _ =>
      (Controller.updateStatus entry lb.controller.backends).2 = true →
        lb.passed <+: lb.ids
  | .start _ => lb.passed <+: lb.ids
  -- no set call fails, and nothing is in flight at the switchover
  | .manager E =>
      match lb.pending with
      | none => True
      | some (objs, pc) =>
          (setObjectsStep E objs pc lb.kernel).1.failed = false ∧
            (pc.switches = true → lb.inFlight = [])

instance (lb : LoadBalancer) (out : List XdpResult) :
    ∀ event, Decidable (Careful lb out event)
  | .packet p => inferInstanceAs (Decidable (p.updated = true → p.reserved = true))
  | .read | .deliver _ => inferInstanceAs (Decidable True)
  | .drop _ => inferInstanceAs (Decidable False)
  | .health entry _ => inferInstanceAs (Decidable
      ((Controller.updateStatus entry lb.controller.backends).2 = true →
        lb.passed <+: lb.ids))
  | .start _ => inferInstanceAs (Decidable (lb.passed <+: lb.ids))
  | .manager E =>
      match hpending : lb.pending with
      | none => decidable_of_iff True (by simp [Careful, hpending])
      | some (objs, pc) =>
          decidable_of_iff
            ((setObjectsStep E objs pc lb.kernel).1.failed = false ∧
              (pc.switches = true → lb.inFlight = []))
            (by simp [Careful, hpending])

/-! ## The invariant -/

/-- The controller has heard, or will hear, of the session and its backend. -/
def Accounted (lb : LoadBalancer) (session id : UUID) : Prop :=
  ⟨id, session⟩ ∈ lb.inFlight ∨ id ∉ lb.ids ∨
    ∃ j, lb.controller.sessionMap.lookup session = some j ∧
      (lb.ids[j]? = some id ∨ lb.passed[j]? = some id)

/-- The session is in the new map if its backend is in the new list. -/
def Carried (lb : LoadBalancer) (objs : EventObjects) (session id : UUID) : Prop :=
  id ∈ objs.backendList.map (·.id) →
    ⟨id, session⟩ ∈ lb.inFlight ∨ (objs.sessionMap.lookup session).isSome = true

structure Handover (config : KernelConfig) (lb : LoadBalancer) : Prop where
  /-- A record in flight names the backend that the kernel selects now. -/
  records : ∀ a ∈ lb.inFlight, ∃ idx,
    backendIdx config lb.kernel a.sessionId = some idx ∧
      lb.backendId idx = a.backendId
  settled : (∀ objs pc, lb.pending = some (objs, pc) → pc.afterSwitchover = true) →
    ∀ session idx, lb.kernel.activeSessions.lookup session = some idx →
      lb.Accounted session (lb.backendId idx)
  awaited : ∀ objs pc, lb.pending = some (objs, pc) → pc.afterSwitchover = false →
    ∀ session idx, lb.kernel.activeSessions.lookup session = some idx →
      lb.Carried objs session (lb.backendId idx)
  objects : ∀ objs pc, lb.pending = some (objs, pc) →
    objs.sessionMap = lb.controller.sessionMap ∧
      objs.backendList.map (·.id) = lb.passed

section Step

variable {H : Helpers} {config : KernelConfig} {lb next : LoadBalancer}

theorem Accounted.of_eq {session id : UUID} (h : lb.Accounted session id)
    (hflight : ⟨id, session⟩ ∈ lb.inFlight → ⟨id, session⟩ ∈ next.inFlight)
    (hids : next.ids = lb.ids) (hpassed : next.passed = lb.passed)
    (hlookup : next.controller.sessionMap.lookup session =
      lb.controller.sessionMap.lookup session) :
    next.Accounted session id := by
  rw [Accounted, hids, hpassed, hlookup]
  exact h.imp_left hflight

theorem Handover.of_mono (h : Handover config lb)
    (hcontroller : next.controller = lb.controller)
    (hpending : next.pending = lb.pending) (hpassed : next.passed = lb.passed)
    (hid : ∀ idx, next.backendId idx = lb.backendId idx)
    (hflight : ∀ a ∈ lb.inFlight, a ∈ next.inFlight)
    (hrecords : ∀ a ∈ next.inFlight, ∃ idx,
      backendIdx config next.kernel a.sessionId = some idx ∧
        next.backendId idx = a.backendId)
    (hsessions : ∀ session idx,
      next.kernel.activeSessions.lookup session = some idx →
        lb.kernel.activeSessions.lookup session = some idx ∨
          ⟨next.backendId idx, session⟩ ∈ next.inFlight) :
    Handover config next := by
  refine ⟨hrecords, ?_, ?_, ?_⟩
  · intro hafter session idx hidx
    rcases hsessions session idx hidx with hold | hnew
    · rw [hpending] at hafter
      rw [hid]
      exact (h.settled hafter session idx hold).of_eq (hflight _)
        (by rw [ids, ids, hcontroller]) hpassed (by rw [hcontroller])
    · exact Or.inl hnew
  · intro objs pc hobjs hbefore session idx hidx hmem
    rcases hsessions session idx hidx with hold | hnew
    · rw [hpending] at hobjs
      rw [hid] at hmem ⊢
      exact (h.awaited objs pc hobjs hbefore session idx hold hmem).imp_left
        (hflight _)
    · exact Or.inl hnew
  · rw [hpending, hcontroller, hpassed]
    exact h.objects

/-! ### Packets and reads -/

theorem handover_packetStep (h : Handover config lb) (p : Packet)
    (hcareful : p.updated = true → p.reserved = true) :
    Handover config (packetStep H config p lb) := by
  rcases udplb_handled H config lb.kernel p with
    ⟨-, hkernel, hsubmitted⟩ | ⟨-, idx, backend, hforwarded⟩
  · have hnothing : packetStep H config p lb = lb := by
      simp [packetStep, hkernel, hsubmitted]
    rwa [hnothing]
  · have hsame := udplb_sameSelection H config lb.kernel p
    have hbackend := eq_of_arrayLookup hforwarded.backend_eq
    have hid : ∀ i, (packetStep H config p lb).backendId i = lb.backendId i := by
      intro i
      simp only [backendId, packetStep, hsame.backendList_eq]
    have hidx : ∀ session,
        backendIdx config (packetStep H config p lb).kernel session =
          backendIdx config lb.kernel session := hsame.backendIdx_eq
    refine h.of_mono rfl rfl rfl hid ?_ ?_ ?_
    · intro a ha
      simp only [inFlight, packetStep, List.mem_append] at ha ⊢
      exact ha.imp_left Or.inl
    · intro a ha
      simp only [inFlight, packetStep, List.mem_append, Option.mem_toList,
        hforwarded.submitted_eq, Option.ite_none_right_eq_some,
        Option.some.injEq] at ha
      simp only [hid, hidx]
      rcases ha with (ha | ⟨-, rfl⟩) | ha
      · exact h.records a (by simp [inFlight, ha])
      · exact ⟨idx, hforwarded.idx_eq, by simp [backendId, hbackend]⟩
      · exact h.records a (by simp [inFlight, ha])
    · intro session i hi
      rw [hid]
      simp only [packetStep, hforwarded.kernel_eq] at hi
      split at hi
      · rename_i hinsert
        rw [Bool.and_eq_true] at hinsert
        rw [Kernel.activeSessions_updateSession] at hi
        by_cases hsession : session = sessionId p.frame
        · subst hsession
          rw [AList.lookup_insert, Option.some.injEq] at hi
          subst hi
          have hsubmitted : (udplb H config lb.kernel p).submitted =
              some ⟨lb.backendId idx, sessionId p.frame⟩ := by
            rw [hforwarded.submitted_eq, hinsert.1, hcareful hinsert.2]
            simp [backendId, hbackend]
          exact Or.inr (by simp [inFlight, packetStep, hsubmitted])
        · rw [AList.lookup_insert_ne hsession] at hi
          exact Or.inl hi
      · exact Or.inl hi

theorem handover_read (h : Handover config lb) {a : Assignment}
    {ring : List Assignment} (hring : lb.ring = a :: ring) :
    Handover config { lb with ring := ring, queue := lb.queue ++ [a] } := by
  have hmem : ∀ b, b ∈ lb.inFlight ↔ b ∈ inFlight
      { lb with ring := ring, queue := lb.queue ++ [a] } := by
    intro b
    simp only [inFlight, hring, List.mem_append, List.mem_cons,
      List.not_mem_nil, or_false]
    tauto
  refine h.of_mono rfl rfl rfl (fun _ => rfl) (fun b => (hmem b).mp) ?_ ?_
  · exact fun b hb => h.records b ((hmem b).mpr hb)
  · exact fun session idx hidx => Or.inl hidx

/-! ### Deliveries -/

theorem mem_inFlight_eraseIdx {j : Nat} {a b : Assignment}
    (hqueue : lb.queue[j]? = some a) (hne : b ≠ a) (hb : b ∈ lb.inFlight) :
    b ∈ lb.ring ++ lb.queue.eraseIdx j := by
  rw [inFlight, List.mem_append] at hb
  rw [List.mem_append]
  refine hb.imp_right ?_
  intro hmem
  obtain ⟨k, hk⟩ := List.mem_iff_getElem?.mp hmem
  refine List.mem_eraseIdx_iff_getElem?.mpr ⟨k, ?_, hk⟩
  rintro rfl
  exact hne (Option.some.inj (hk.symm.trans hqueue))

theorem accounted_handleAssignment {a : Assignment} {id : UUID}
    (hid : id = a.backendId) {queue : List Assignment} :
    Accounted
      { lb with
        queue := queue
        controller := lb.controller.handleAssignment a } a.sessionId id := by
  subst hid
  by_cases hmem : a.backendId ∈ lb.ids
  · obtain ⟨b, hb, hbid⟩ := Controller.getElem?_position hmem
    refine Or.inr (Or.inr ⟨Controller.position a.backendId lb.controller.backends,
      ?_, Or.inl ?_⟩)
    · simp only [Controller.handleAssignment, Controller.findIdx?_position hmem]
      exact AList.lookup_insert _
    · simp [ids, hb, hbid]
  · exact Or.inr (Or.inl (by simpa [ids] using hmem))

theorem handover_deliver (h : Handover config lb) {j : Nat} {a : Assignment}
    (hqueue : lb.queue[j]? = some a) (hidle : lb.pending = none) :
    Handover config
      { lb with
        queue := lb.queue.eraseIdx j
        controller := lb.controller.handleAssignment a } := by
  have hsettled := h.settled (by simp [hidle])
  refine ⟨?_, ?_, ?_, ?_⟩
  · intro b hb
    apply h.records b
    simp only [inFlight, List.mem_append] at hb ⊢
    exact hb.imp_right fun hmem => List.eraseIdx_subset hmem
  · intro _ session idx hidx
    have haccounted := hsettled session idx hidx
    change Accounted _ session (lb.backendId idx)
    by_cases hsession : session = a.sessionId
    · subst hsession
      obtain ⟨idx', hidx', hid⟩ := h.records a
        (List.mem_append_right _ (List.mem_of_getElem? hqueue))
      rw [backendIdx_of_lookup hidx, Option.some.injEq] at hidx'
      subst hidx'
      exact accounted_handleAssignment hid
    · refine haccounted.of_eq ?_ (by simp [ids]) rfl
        (Controller.lookup_handleAssignment_ne (Ne.symm hsession))
      apply mem_inFlight_eraseIdx hqueue
      exact fun heq => hsession (congrArg Assignment.sessionId heq)
  · intro objs pc hpending
    simp [hidle] at hpending
  · intro objs pc hpending
    simp [hidle] at hpending

/-! ### Recomputations -/

@[simp] theorem ids_updated (lb : LoadBalancer) (e : Controller.Event) :
    (lb.updated e).backends.map (·.id) = lb.ids :=
  Controller.ids_update e lb.controller.backends

theorem handover_quiet (h : Handover config lb) (e : Controller.Event)
    (hidle : lb.pending = none) :
    Handover config { lb with controller := lb.updated e } := by
  refine ⟨h.records, ?_, ?_, ?_⟩
  · intro _ session idx hidx
    exact (h.settled (by simp [hidle]) session idx hidx).of_eq (fun h => h)
      (ids_updated lb e) rfl rfl
  · intro objs pc hpending
    simp [hidle] at hpending
  · intro objs pc hpending
    simp [hidle] at hpending

theorem isSome_lookup_remap {c : Controller} {session id : UUID} {j : Nat}
    (hlookup : c.sessionMap.lookup session = some j)
    (hid : (c.backends.map (·.id))[j]? = some id)
    (havailable : id ∈ (Controller.filterAvailable c.backends).map (·.id)) :
    (c.remap.sessionMap.lookup session).isSome = true := by
  rw [List.getElem?_map, Option.map_eq_some_iff] at hid
  obtain ⟨b, hb, hbid⟩ := hid
  rw [Controller.lookup_remap, hlookup, Option.bind_some, Controller.remapIndex, hb,
    Option.bind_some, Option.isSome_iff_ne_none, ne_eq,
    AssocMap.lookup_indexBy_eq_none]
  intro hnone
  obtain ⟨b', hb', hbid'⟩ := List.mem_map.mp havailable
  exact hnone b' hb' (hbid'.trans hbid.symm)

theorem handover_passes (h : Handover config lb) (e : Controller.Event)
    (hidle : lb.pending = none) (haligned : lb.passed <+: lb.ids)
    {lookupTable : List Nat} {backendList : List BackendSpecT}
    (hlist : transformBackendList
      (Controller.filterAvailable (lb.updated e).backends) = .ok backendList) :
    Handover config
      { lb with
        controller := (lb.updated e).remap
        pending := some (⟨backendList, lookupTable,
          (lb.updated e).remap.sessionMap⟩, .setBackendList)
        passed := (Controller.filterAvailable (lb.updated e).backends).map (·.id) } := by
  have hids := transformBackendList_ids hlist
  refine ⟨h.records, ?_, ?_, ?_⟩
  · intro hafter
    cases hafter _ _ rfl
  · intro objs pc hpending _ session idx hidx hmem
    cases hpending
    change lb.backendId idx ∈ backendList.map (·.id) at hmem
    rw [hids] at hmem
    rcases h.settled (by simp [hidle]) session idx hidx with
      hflight | hunknown | ⟨j, hlookup, hj⟩
    · exact Or.inl hflight
    · have hknown := (List.filter_sublist.map _).subset hmem
      rw [ids_updated] at hknown
      exact absurd hknown hunknown
    · have hindex : lb.ids[j]? = some (lb.backendId idx) := by
        rcases hj with hj | hj
        · exact hj
        · obtain ⟨rest, hrest⟩ := haligned
          have hlt := (List.getElem?_eq_some_iff.mp hj).1
          rw [← hrest, List.getElem?_append_left hlt]
          exact hj
      rw [← ids_updated lb e] at hindex
      exact Or.inr (isSome_lookup_remap hlookup hindex hmem)
  · intro objs pc hpending
    cases hpending
    exact ⟨rfl, hids⟩

/-! ### Statements of `setObjects` -/

theorem pending_managerStep_of_before {E : EbpfStruct} {objs : EventObjects}
    {pc : SetPc}
    (hok : (setObjectsStep E objs pc lb.kernel).1.failed = false)
    (hafter : (setObjectsStep E objs pc lb.kernel).1.afterSwitchover = false) :
    (managerStep E objs pc lb).pending =
      some (objs, (setObjectsStep E objs pc lb.kernel).1) := by
  simp only [managerStep]
  split
  · rename_i err heq
    cases err with
    | none => simp [heq, SetPc.afterSwitchover] at hafter
    | some err => simp [heq, SetPc.failed] at hok
  · rfl

theorem handover_managerStep_same (h : Handover config lb) {E : EbpfStruct}
    {objs : EventObjects} {pc : SetPc} (hready : Ready objs pc lb.kernel)
    (hpending : lb.pending = some (objs, pc)) (hpc : pc.switches = false)
    (hok : (setObjectsStep E objs pc lb.kernel).1.failed = false) :
    Handover config (managerStep E objs pc lb) := by
  have hsame : (managerStep E objs pc lb).kernel.selected = lb.kernel.selected :=
    selected_setObjectsStep E hready hpc
  have hsessions : (managerStep E objs pc lb).kernel.activeSessions =
      lb.kernel.activeSessions := congrArg Selection.sessions hsame
  have hid : ∀ idx, (managerStep E objs pc lb).backendId idx = lb.backendId idx :=
    fun idx => congrArg (fun list => (list idx).id)
      (congrArg Selection.backendList hsame)
  have hafter := afterSwitchover_setObjectsStep E objs pc lb.kernel
  rw [hpc, Bool.false_or] at hafter
  refine ⟨?_, ?_, ?_, ?_⟩
  · intro a ha
    simp only [backendIdx_congr hsame, hid]
    exact h.records a ha
  · intro hswitched session idx hidx
    rw [hsessions] at hidx
    rw [hid]
    have hbefore : pc.afterSwitchover = true := by
      cases hpc' : pc.afterSwitchover with
      | true => rfl
      | false =>
          rw [hpc'] at hafter
          exact absurd (hswitched _ _ (pending_managerStep_of_before hok hafter))
            (by simp [hafter])
    refine (h.settled ?_ session idx hidx).of_eq (fun h => h) rfl rfl rfl
    intro objs' pc' hpending'
    rw [hpending] at hpending'
    cases hpending'
    exact hbefore
  · intro objs' pc' hpending' hbefore session idx hidx
    obtain ⟨rfl, rfl⟩ := pending_managerStep hpending'
    rw [hsessions] at hidx
    rw [hid]
    exact h.awaited _ pc hpending (hafter ▸ hbefore) session idx hidx
  · intro objs' pc' hpending'
    obtain ⟨rfl, -⟩ := pending_managerStep hpending'
    exact h.objects _ pc hpending

theorem handover_managerStep_switch (hsound : Sound config lb)
    (h : Handover config lb) {E : EbpfStruct} {objs : EventObjects} {pc : SetPc}
    (hpending : lb.pending = some (objs, pc)) (hpc : pc.switches = true)
    (hempty : lb.inFlight = []) :
    Handover config (managerStep E objs pc lb) := by
  have hholds : (managerStep E objs pc lb).kernel.selected.Holds objs :=
    holds_setObjectsStep E (hsound.ready objs pc hpending) hpc
  have hwell := hsound.wellFormed objs pc hpending
  obtain ⟨hmap, hpassed⟩ := h.objects objs pc hpending
  refine ⟨?_, ?_, ?_, ?_⟩
  · intro a ha
    change a ∈ lb.inFlight at ha
    simp [hempty] at ha
  · intro _ session idx hidx
    have hlookup : objs.sessionMap.lookup session = some idx :=
      (hholds.sessions session).symm.trans hidx
    have hlt := hwell.sessionMap_lt session idx hlookup
    have hget := hholds.backendList idx _ (List.getElem?_eq_getElem hlt)
    refine Or.inr (Or.inr ⟨idx, ?_, Or.inr ?_⟩)
    · exact hmap ▸ hlookup
    · change lb.passed[idx]? = some ((managerStep E objs pc lb).kernel.selected.backendList
        idx).id
      rw [hget, ← hpassed]
      simp [hlt]
  · intro objs' pc' hpending' hbefore
    obtain ⟨rfl, rfl⟩ := pending_managerStep hpending'
    rw [afterSwitchover_setObjectsStep, hpc] at hbefore
    cases hbefore
  · intro objs' pc' hpending'
    obtain ⟨rfl, -⟩ := pending_managerStep hpending'
    exact ⟨hmap, hpassed⟩

theorem takes_handover (hsound : Sound config lb) (h : Handover config lb)
    {out : List XdpResult} {event : Event} (hcareful : lb.Careful out event)
    (htakes : Takes H config lb event next) : Handover config next := by
  cases htakes with
  | packet p => exact handover_packetStep h p hcareful
  | read a ring hring => exact handover_read h hring
  | deliver j a hqueue hidle => exact handover_deliver h hqueue hidle
  | drop j a hqueue => exact hcareful.elim
  | quiet e hevent hidle => exact handover_quiet h e hidle
  | passes e order table list hevent hidle hrecomputes hsome htable hlist =>
      refine handover_passes h e hidle ?_ hlist
      cases event with
      | health entry order =>
          cases hevent
          exact hcareful hrecomputes
      | start order => exact hcareful
      | packet | read | deliver | drop | manager => cases hevent
  | manager E objs pc hpending =>
      simp only [Careful, hpending] at hcareful
      cases hpc : pc.switches with
      | false =>
          exact handover_managerStep_same h (hsound.ready objs pc hpending) hpending
            hpc hcareful.1
      | true =>
          exact handover_managerStep_switch hsound h hpending hpc (hcareful.2 hpc)

end Step

theorem handover_init (config : KernelConfig) (c : Controller) :
    Handover config (init c) := by
  refine ⟨?_, ?_, ?_, ?_⟩
  · intro a ha
    cases ha
  · intro _ session idx hidx
    cases hidx
  · intro objs pc hpending
    cases hpending
  · intro objs pc hpending
    cases hpending

def exampleSession : UUID := Vector.replicate 16 9

/-- A new session, then the other backend goes down, up to the switchover. -/
def untilSwitchover (delivery : List Event) : List Event :=
  applies .manager (.start .ascending) ++ .packet examplePacket :: delivery ++
    .health ⟨Controller.exampleId "10.0.0.11", .unavailable⟩ .ascending ::
      List.replicate 3 (.manager (.inMemory true true true))

end Udplb.LoadBalancer
