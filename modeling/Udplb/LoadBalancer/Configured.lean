import Udplb.Bpf.Affinity
import Udplb.LoadBalancer.Machine

/-!
# What is switched in

From the first switchover on, everything that the XDP program can read names a
backend of the list switched in last.
-/

namespace Udplb.LoadBalancer

open Udplb.Foundation Udplb.Bpf

structure WellFormed (config : KernelConfig) (objs : EventObjects) : Prop where
  length_lookupTable : objs.lookupTable.length = config.lookupTableSize.toNat
  lookupTable_lt : ∀ value ∈ objs.lookupTable, value < objs.backendList.length
  sessionMap_lt : ∀ session idx, objs.sessionMap.lookup session = some idx →
    idx < objs.backendList.length

/-- What is selected can only name backends of the list. -/
structure Serves (config : KernelConfig) (list : List BackendSpecT)
    (selection : Selection) : Prop where
  backendList : ArrayHolds list selection.backendList
  lookupTable_lt : ∀ key, key < config.lookupTableSize.toNat →
    selection.lookupTable key < list.length
  sessions_lt : ∀ session idx, selection.sessions.lookup session = some idx →
    idx < list.length

/-! ## The objects of a call -/

theorem serves_of_holds {config : KernelConfig} {objs : EventObjects}
    {selection : Selection} (hobjs : WellFormed config objs)
    (h : selection.Holds objs) : Serves config objs.backendList selection := by
  refine ⟨h.backendList, ?_, ?_⟩
  · intro key hkey
    rw [← hobjs.length_lookupTable] at hkey
    rw [h.lookupTable key _ (List.getElem?_eq_getElem hkey)]
    exact hobjs.lookupTable_lt _ (List.getElem_mem hkey)
  · intro session idx hidx
    exact hobjs.sessionMap_lt session idx ((h.sessions session).symm.trans hidx)

/-! ## A packet -/

section Packet

variable {config : KernelConfig} {list : List BackendSpecT} {kernel : Kernel}

theorem backendIdx_lt (hpos : 0 < config.lookupTableSize.toNat)
    (h : Serves config list kernel.selected) {session : UUID} {idx : Nat}
    (hidx : backendIdx config kernel session = some idx) : idx < list.length := by
  unfold backendIdx at hidx
  split at hidx
  · cases hidx
    exact h.sessions_lt session _ ‹_›
  · rw [← eq_of_arrayLookup hidx]
    exact h.lookupTable_lt _ (hashModulo_lt session hpos)

theorem forwarded_of_serves {H : Helpers} {p : Packet}
    (hpos : 0 < config.lookupTableSize.toNat) (h : Serves config list kernel.selected)
    (htx : (udplb H config kernel p).action = .tx) :
    ∃ backend ∈ list, RewrittenTo backend (udplb H config kernel p).frame := by
  rcases udplb_handled H config kernel p with ⟨hne, -⟩ | ⟨-, idx, backend, hforwarded⟩
  · exact absurd htx hne
  · have hlt := backendIdx_lt hpos h hforwarded.idx_eq
    have hget := h.backendList idx _ (List.getElem?_eq_getElem hlt)
    have hbackend : backend = list[idx] :=
      (eq_of_arrayLookup hforwarded.backend_eq).symm.trans hget
    exact ⟨list[idx], List.getElem_mem hlt, hbackend ▸ hforwarded.rewritten⟩

theorem serves_updateSession (h : Serves config list kernel.selected)
    (session : UUID) {idx : Nat} (hidx : idx < list.length) :
    Serves config list (kernel.updateSession session idx).selected := by
  refine ⟨h.backendList, h.lookupTable_lt, ?_⟩
  intro other idx' hlookup
  change (kernel.updateSession session idx).activeSessions.lookup other = _ at hlookup
  rw [Kernel.activeSessions_updateSession] at hlookup
  by_cases hother : other = session
  · subst hother
    rw [AList.lookup_insert, Option.some.injEq] at hlookup
    exact hlookup ▸ hidx
  · rw [AList.lookup_insert_ne hother] at hlookup
    exact h.sessions_lt other idx' hlookup

end Packet

/-! ## Any run -/

/-- The pending call and the maps agree with the config of the program. -/
structure Sound (config : KernelConfig) (lb : LoadBalancer) : Prop where
  size_eq : config.lookupTableSize = lb.controller.lookupTableSize
  wellFormed : ∀ objs pc, lb.pending = some (objs, pc) → WellFormed config objs
  ready : ∀ objs pc, lb.pending = some (objs, pc) → Ready objs pc lb.kernel
  serves : ∀ list, lb.switched = some list → Serves config list lb.kernel.selected

theorem sound_init {config : KernelConfig} {controller : Controller}
    (hsize : config.lookupTableSize = controller.lookupTableSize) :
    Sound config (init controller) := by
  refine ⟨hsize, ?_, ?_, ?_⟩
  · intro objs pc h
    cases h
  · intro objs pc h
    cases h
  · intro list h
    cases h

section Step

variable {H : Helpers} {config : KernelConfig} {lb next : LoadBalancer}

theorem sound_udplb (hpos : 0 < config.lookupTableSize.toNat) (h : Sound config lb)
    (p : Packet) (ring : List Assignment) :
    Sound config { lb with kernel := (udplb H config lb.kernel p).kernel, ring := ring } := by
  rcases udplb_kernel H config lb.kernel p with hkernel | ⟨session, idx, hidx, hkernel⟩
  · rw [hkernel]
    exact ⟨h.size_eq, h.wellFormed, h.ready, h.serves⟩
  · rw [hkernel]
    refine ⟨h.size_eq, h.wellFormed, ?_, ?_⟩
    · intro objs pc hpending
      exact ready_updateSession (h.ready objs pc hpending) session idx
    · intro list hlist
      have hserves := h.serves list hlist
      exact serves_updateSession hserves session (backendIdx_lt hpos hserves hidx)

theorem pending_managerStep {E : EbpfStruct} {objs objs' : EventObjects}
    {pc pc' : SetPc} (h : (managerStep E objs pc lb).pending = some (objs', pc')) :
    objs' = objs ∧ pc' = (setObjectsStep E objs pc lb.kernel).1 := by
  simp only [managerStep] at h
  split at h
  · cases h
  · cases h
    exact ⟨rfl, rfl⟩

theorem sound_managerStep (h : Sound config lb) (E : EbpfStruct)
    {objs : EventObjects} {pc : SetPc} (hpending : lb.pending = some (objs, pc)) :
    Sound config (managerStep E objs pc lb) := by
  have hready := h.ready objs pc hpending
  have hobjs := h.wellFormed objs pc hpending
  refine ⟨h.size_eq, ?_, ?_, ?_⟩
  · intro objs' pc' hpending'
    obtain ⟨rfl, -⟩ := pending_managerStep hpending'
    exact hobjs
  · intro objs' pc' hpending'
    obtain ⟨rfl, rfl⟩ := pending_managerStep hpending'
    exact setObjectsStep_ready E hready
  · intro list hlist
    cases hswitches : pc.switches with
    | false =>
        simp only [managerStep, hswitches, Bool.false_eq_true, if_false] at hlist ⊢
        rw [selected_setObjectsStep E hready hswitches]
        exact h.serves list hlist
    | true =>
        simp only [managerStep, hswitches, if_true, Option.some.injEq] at hlist ⊢
        subst hlist
        exact serves_of_holds hobjs (holds_setObjectsStep E hready hswitches)

theorem wellFormed_of_passes {c : Controller} {order : Rlt.IterOrder}
    {lookupTable : List Nat} {backendList : List BackendSpecT}
    (hsize : config.lookupTableSize = c.lookupTableSize)
    (hsome : Controller.filterAvailable c.backends ≠ [])
    (htable : Rlt.reverseCoordinatesLookupTable order
      (Controller.filterAvailable c.backends) c.lookupTableSize = .ok lookupTable)
    (hlist : transformBackendList (Controller.filterAvailable c.backends) =
      .ok backendList) :
    WellFormed config ⟨backendList, lookupTable, c.remap.sessionMap⟩ := by
  have hconsistent := Controller.recomputes_consistent
    (.called order true lookupTable hsome htable) hsize rfl
  have hlength := length_transformBackendList hlist
  refine ⟨hconsistent.length_lookupTable, ?_, ?_⟩
  · rw [hlength]
    exact hconsistent.lookupTable_lt
  · rw [hlength]
    exact hconsistent.sessionMap_lt

theorem takes_sound (hpos : 0 < config.lookupTableSize.toNat)
    (h : Sound config lb) {event : Event} (htakes : Takes H config lb event next) :
    Sound config next := by
  cases htakes with
  | packet p => exact sound_udplb hpos h p _
  | read | drop | quiet => exact ⟨h.size_eq, h.wellFormed, h.ready, h.serves⟩
  | deliver j a hqueue hidle =>
      exact ⟨by simpa using h.size_eq, h.wellFormed, h.ready, h.serves⟩
  | passes e order table list hevent hidle hrecomputes hsome htable hlist =>
      refine ⟨h.size_eq, ?_, ?_, h.serves⟩
      · intro objs pc hpending
        cases hpending
        exact wellFormed_of_passes h.size_eq hsome htable hlist
      · intro objs pc hpending
        cases hpending
        trivial
  | manager E objs pc hpending => exact sound_managerStep h E hpending

end Step

theorem sound_of_new {host : Controller.Host} {config : Config} {c : Controller}
    {kernelConfig : KernelConfig}
    (hnew : Controller.new host config = .ok (c, kernelConfig)) :
    0 < kernelConfig.lookupTableSize.toNat ∧ Sound kernelConfig (init c) := by
  obtain ⟨backends, -, -, hsize⟩ := Controller.new_spec hnew
  exact ⟨Controller.lookupTableSize_pos_of_new hnew, sound_init hsize⟩

theorem new_exampleController :
    Controller.new Controller.exampleHost
        (Controller.exampleConfig ["10.0.0.10", "10.0.0.11"]) =
      .ok (Controller.exampleController, testConfig) :=
  Controller.new_eq_ok (by decide +kernel)

/-- A recomputation and the six statements of its `setObjects`. -/
def applies {α : Type} (manager : EbpfStruct → α) (event : α) : List α :=
  event :: List.replicate 6 (manager (.inMemory true true true))

def examplePacket : Packet := ⟨buildPacket (Vector.replicate 16 9), true, true⟩

end Udplb.LoadBalancer
