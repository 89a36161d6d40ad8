import Udplb.Controller.Loops

/-!
# The objects handed to the kernel

The backend list, the lookup table and the session map of a `SetObjects` call
are computed from one list of available backends, and the table has the size
that the program was loaded with.  Hence the kernel's unchecked array reads stay
inside the list, whatever assignments and health entries came before.
-/

namespace Udplb.Controller

open Udplb.Foundation

structure Consistent (config : Bpf.KernelConfig) (call : SetObjectsArgs) : Prop where
  backendList_ne_nil : call.backendList ≠ []
  length_lookupTable : call.lookupTable.length = config.lookupTableSize.toNat
  lookupTable_lt : ∀ value ∈ call.lookupTable, value < call.backendList.length
  sessionMap_lt : ∀ session idx, call.sessionMap.lookup session = some idx →
    idx < call.backendList.length
  spec_available : ∀ b ∈ call.backendList, b.spec.state = .available
  status_available : ∀ b ∈ call.backendList, b.status.state = .available

theorem isAvailable_iff (b : Backend) :
    isAvailable b = true ↔
      b.spec.state = .available ∧ b.status.state = .available := by
  simp [isAvailable]

@[simp] theorem mem_filterAvailable {b : Backend} {backends : List Backend} :
    b ∈ filterAvailable backends ↔ b ∈ backends ∧ isAvailable b = true :=
  List.mem_filter

@[simp] theorem lookup_remap (c : Controller) (session : UUID) :
    c.remap.sessionMap.lookup session =
      (c.sessionMap.lookup session).bind
        (remapIndex c.backends (filterAvailable c.backends)) :=
  AssocMap.lookup_filterMapValues _ _ _

theorem remapIndex_eq_some {backends available : List Backend}
    {oldIdx newIdx : Nat} (h : remapIndex backends available oldIdx = some newIdx) :
    ∃ old new, backends[oldIdx]? = some old ∧ available[newIdx]? = some new ∧
      new.id = old.id := by
  simp only [remapIndex, Option.bind_eq_some_iff] at h
  obtain ⟨old, hold, hlookup⟩ := h
  obtain ⟨new, hnew, hid⟩ := AssocMap.getElem?_of_lookup_indexBy _ hlookup
  exact ⟨old, new, hold, hnew, hid⟩

theorem recomputes_consistent {config : Bpf.KernelConfig} {c next : Controller}
    {r : Recomputation} (hr : Recomputes c next r)
    (hsize : config.lookupTableSize = c.lookupTableSize) {call : SetObjectsArgs}
    (hcall : r.call = some call) :
    Consistent config call := by
  cases hr with
  | skipped => cases hcall
  | called order applied table hsome htable =>
      cases hcall
      obtain ⟨hlength, hlt⟩ := (Rlt.reverseCoordinatesLookupTable_valid order
        (filterAvailable c.backends) c.lookupTableSize hsome).of_eq_ok htable
      refine ⟨hsome, by rw [hlength, hsize], hlt, ?_, ?_, ?_⟩
      · intro session idx hidx
        rw [lookup_remap, Option.bind_eq_some_iff] at hidx
        obtain ⟨oldIdx, -, hremap⟩ := hidx
        obtain ⟨old, new, -, hnew, -⟩ := remapIndex_eq_some hremap
        exact (List.getElem?_eq_some_iff.mp hnew).1
      · intro b hb
        exact ((isAvailable_iff b).mp (mem_filterAvailable.mp hb).2).1
      · intro b hb
        exact ((isAvailable_iff b).mp (mem_filterAvailable.mp hb).2).2

theorem run_consistent {config : Bpf.KernelConfig} {c : Controller}
    (hsize : config.lookupTableSize = c.lookupTableSize) (events : List Event) :
    Returns (c.run events) fun result =>
      config.lookupTableSize = result.1.lookupTableSize ∧
        ∀ r ∈ result.2, ∀ call, r.call = some call → Consistent config call := by
  refine run_returns
    (fun c : Controller => config.lookupTableSize = c.lookupTableSize)
    (fun r : Recomputation => ∀ call, r.call = some call → Consistent config call)
    ?_ hsize events
  intro c event hsize
  refine (step_returns c event).mono ?_
  rintro ⟨next, out⟩ hsteps
  refine ⟨hsize.trans (steps_lookupTableSize hsteps).symm, ?_⟩
  cases hsteps with
  | assigned => simp
  | unchanged => simp
  | recomputed h hr =>
      intro r' hr' call hcall
      rw [List.mem_singleton] at hr'
      subst hr'
      exact recomputes_consistent hr hsize hcall

theorem Consistent.hash_selects {config : Bpf.KernelConfig} {call : SetObjectsArgs}
    (h : Consistent config call) (hpos : 0 < config.lookupTableSize.toNat)
    (session : UUID) :
    ∃ idx b,
      call.lookupTable[(Bpf.hashModulo session config.lookupTableSize).toNat]? =
        some idx ∧
      call.backendList[idx]? = some b ∧ isAvailable b = true := by
  have hkey : (Bpf.hashModulo session config.lookupTableSize).toNat <
      call.lookupTable.length := by
    rw [h.length_lookupTable]
    exact Bpf.hashModulo_lt session hpos
  have hidx := h.lookupTable_lt _ (List.getElem_mem hkey)
  refine ⟨_, _, List.getElem?_eq_getElem hkey, List.getElem?_eq_getElem hidx, ?_⟩
  rw [isAvailable_iff]
  exact ⟨h.spec_available _ (List.getElem_mem hidx),
    h.status_available _ (List.getElem_mem hidx)⟩

/--
From an accepted configuration, no sequence of events stops the controller, and
every `SetObjects` call passes objects that agree with each other and with the
config the kernel program was loaded with.
-/
theorem setObjects_calls_consistent {host : Host} {config : Config}
    {c : Controller} {kernelConfig : Bpf.KernelConfig}
    (hnew : new host config = .ok (c, kernelConfig)) (events : List Event) :
    Returns (c.run events) fun result =>
      ∀ r ∈ result.2, ∀ call, r.call = some call →
        Consistent kernelConfig call ∧
        ∀ session, ∃ idx b,
          call.lookupTable[
            (Bpf.hashModulo session kernelConfig.lookupTableSize).toNat]? =
              some idx ∧
          call.backendList[idx]? = some b ∧ isAvailable b = true := by
  have hpos := lookupTableSize_pos_of_new hnew
  obtain ⟨backends, -, rfl, hsize⟩ := new_spec hnew
  refine (run_consistent hsize events).mono ?_
  rintro ⟨last, out⟩ ⟨-, hconsistent⟩ r hr call hcall
  have h := hconsistent r hr call hcall
  exact ⟨h, h.hash_selects hpos⟩

theorem setObjects_calls_consistent_after_failover :
    ∃ c kernelConfig,
      new exampleHost (exampleConfig ["10.0.0.10", "10.0.0.11"]) =
        .ok (c, kernelConfig) ∧
      Returns (c.run [.start .ascending true,
          .health ⟨exampleId "10.0.0.10", .unavailable⟩ .ascending true]) fun result =>
        ∀ r ∈ result.2, ∀ call, r.call = some call →
          Consistent kernelConfig call ∧
          ∀ session, ∃ idx b,
            call.lookupTable[
              (Bpf.hashModulo session kernelConfig.lookupTableSize).toNat]? =
                some idx ∧
            call.backendList[idx]? = some b ∧ isAvailable b = true := by
  have haccepted : (new exampleHost (exampleConfig
      ["10.0.0.10", "10.0.0.11"])).toOption.map (fun _ => ()) = some () := by
    decide +kernel
  obtain ⟨⟨c, kernelConfig⟩, hnew, -⟩ := returns_of_toOption haccepted
  exact ⟨c, kernelConfig, hnew, setObjects_calls_consistent hnew _⟩

end Udplb.Controller
