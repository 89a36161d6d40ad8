import Udplb.Controller.Accepted
import Udplb.Controller.LastCall

/-!
# The capacities of the kernel maps

The kernel declares its maps with a fixed number of entries.  The controller's
lookup table always fits.  The backend list fits when the configuration has no
more enabled entries than the kernel's list, and the session map as long as no
session is added to a full one: nothing in the controller ever checks either.
-/

namespace Udplb.Controller

open Udplb.Foundation
open Udplb.Bpf (backendListMaxEntries lookupTableMaxLength)

def sessionsMaxLength : Nat := 1 <<< 16

/-- The objects of a call can be written to the maps of the kernel. -/
structure WithinCapacity (call : SetObjectsArgs) : Prop where
  backendList_le : call.backendList.length ≤ backendListMaxEntries
  lookupTable_le : call.lookupTable.length ≤ lookupTableMaxLength
  sessionMap_le : AssocMap.size call.sessionMap ≤ sessionsMaxLength

/-- A session that an assignment adds to the map finds room there. -/
def RoomForSession (c : Controller) (_ : List Recomputation) : Event → Prop
  | .assignment a =>
      (∃ b ∈ c.backends, b.id = a.backendId) → a.sessionId ∉ c.sessionMap →
        AssocMap.size c.sessionMap < sessionsMaxLength
  | .health _ _ _ | .start _ _ => True

/-- What the configuration and the condition bound in a state of the controller. -/
structure Bounded (c : Controller) : Prop where
  backends_le : c.backends.length ≤ backendListMaxEntries
  lookupTableSize_le : c.lookupTableSize.toNat ≤ lookupTableMaxLength
  sessionMap_le : AssocMap.size c.sessionMap ≤ sessionsMaxLength

theorem computeLookupTableSize_le (n : Nat) :
    (computeLookupTableSize n).toNat ≤ lookupTableMaxLength := by
  have hprimes : ∀ p ∈ lookupTablePrimes, p.toNat ≤ lookupTableMaxLength := by
    simp [lookupTablePrimes, lookupTableMaxLength]
  exact hprimes _ (computeLookupTableSize_mem n)

theorem bounded_init {backends : List Backend}
    (h : backends.length ≤ backendListMaxEntries) : Bounded (init backends) :=
  ⟨h, computeLookupTableSize_le _, Nat.zero_le _⟩

/-! ## One iteration -/

theorem length_update (event : Event) (backends : List Backend) :
    (event.update backends).length = backends.length := by
  simpa using congrArg List.length (ids_update event backends)

theorem size_remap_le (c : Controller) :
    AssocMap.size c.remap.sessionMap ≤ AssocMap.size c.sessionMap :=
  AssocMap.size_filterMapValues_le _ _

theorem recomputes_bounded {c next : Controller} {r : Recomputation}
    (hr : Recomputes c next r) (h : Bounded c) :
    Bounded next ∧ ∀ call, r.call = some call → WithinCapacity call := by
  cases hr with
  | skipped => exact ⟨h, by simp⟩
  | called order applied table hsome htable =>
      have hsessions := (size_remap_le c).trans h.sessionMap_le
      refine ⟨⟨h.backends_le, h.lookupTableSize_le, hsessions⟩, ?_⟩
      intro call hcall
      cases hcall
      have hlength := ((Rlt.reverseCoordinatesLookupTable_valid order
        (filterAvailable c.backends) c.lookupTableSize hsome).of_eq_ok htable).1
      have hbackends : (filterAvailable c.backends).length ≤ c.backends.length :=
        List.length_filter_le _ _
      exact ⟨hbackends.trans h.backends_le, hlength ▸ h.lookupTableSize_le,
        hsessions⟩

theorem handleAssignment_bounded {c : Controller} {a : Assignment} (h : Bounded c)
    (hroom : (∃ b ∈ c.backends, b.id = a.backendId) → a.sessionId ∉ c.sessionMap →
      AssocMap.size c.sessionMap < sessionsMaxLength) :
    Bounded (handleAssignment c a) := by
  unfold handleAssignment
  split
  · rename_i i hfind
    refine ⟨h.backends_le, h.lookupTableSize_le, ?_⟩
    change AssocMap.size (c.sessionMap.insert a.sessionId i) ≤ _
    by_cases hmem : a.sessionId ∈ c.sessionMap
    · rw [AssocMap.size_insert_of_mem i hmem]
      exact h.sessionMap_le
    · obtain ⟨hlt, hid, -⟩ := List.findIdx?_eq_some_iff_getElem.mp hfind
      have hfree := hroom ⟨_, List.getElem_mem hlt, by simpa using hid⟩ hmem
      have hinsert := AssocMap.size_insert_le c.sessionMap a.sessionId i
      omega
  · exact h

theorem steps_bounded {c next : Controller} {event : Event}
    {out now : List Recomputation} (hsteps : Steps c event next now)
    (h : Bounded c) (hroom : RoomForSession c out event) :
    Bounded next ∧
      ∀ r ∈ now, ∀ call, r.call = some call → WithinCapacity call := by
  cases hsteps with
  | assigned a => exact ⟨handleAssignment_bounded h hroom, by simp⟩
  | unchanged => exact ⟨h, by simp⟩
  | recomputed hevent hr =>
      have hupdated : Bounded { c with backends := event.update c.backends } :=
        ⟨(length_update event c.backends).trans_le h.backends_le,
          h.lookupTableSize_le, h.sessionMap_le⟩
      obtain ⟨hnext, hcalls⟩ := recomputes_bounded hr hupdated
      exact ⟨hnext, by simpa using hcalls⟩

/-! ## A whole run -/

theorem run_withinCapacity {c : Controller} {events : List Event} (h : Bounded c)
    (hroom : Along step RoomForSession c [] events) :
    Returns (c.run events) fun result =>
      ∀ r ∈ result.2, ∀ call, r.call = some call → WithinCapacity call := by
  obtain ⟨last, out, hrun⟩ := run_total c events
  refine ⟨(last, out), hrun, ?_⟩
  refine (run_induction (fun s now => Bounded s ∧
    ∀ r ∈ now, ∀ call, r.call = some call → WithinCapacity call)
    ⟨h, by simp⟩ ?_ hroom hrun).2
  rintro s now event next later ⟨hs, hnow⟩ hcond hstep
  obtain ⟨hnext, hlater⟩ := steps_bounded (steps_of_step_eq_ok hstep) hs hcond
  refine ⟨hnext, ?_⟩
  intro r hr
  rcases List.mem_append.mp hr with hr | hr
  · exact hnow r hr
  · exact hlater r hr

/-- The first recomputation passes the whole configuration. -/
theorem run_start_passes_all {newSHA1 : UUID → Bytes → UUID} {config : Config}
    {backends : List Backend} (hbuild : buildBackends newSHA1 config = .ok backends)
    (hsome : backends ≠ []) :
    Returns ((init backends).run [.start .ascending true]) fun result =>
      ∃ r ∈ result.2, ∃ call, r.call = some call ∧ call.backendList = backends := by
  have hall : filterAvailable backends = backends :=
    List.filter_eq_self.mpr (buildBackends_spec hbuild).2
  obtain ⟨last, out, hrun⟩ := run_total (init backends) [.start .ascending true]
  refine ⟨(last, out), hrun, ?_⟩
  obtain ⟨next, now, later, hstep, hrest, rfl⟩ := run_cons_eq_ok.mp hrun
  cases hrest
  cases steps_of_step_eq_ok hstep with
  | recomputed hevent hr =>
      have havailable : filterAvailable (init backends).backends ≠ [] := by
        rw [show (init backends).backends = backends from rfl, hall]
        exact hsome
      obtain ⟨call, hcall⟩ := recomputes_passed hr havailable
      refine ⟨_, by simp, call, hcall.call_eq, ?_⟩
      rw [hcall.backendList_eq, recomputes_backends hr]
      exact hall

/--
For an accepted configuration, the calls of every run that adds no session to a
full map stay within the capacities of the kernel if and only if the
configuration has at most 64 enabled entries.
-/
theorem calls_withinCapacity_iff {newSHA1 : UUID → Bytes → UUID} {config : Config}
    {backends : List Backend}
    (hbuild : buildBackends newSHA1 config = .ok backends) :
    (∀ events, Along step RoomForSession (init backends) [] events →
      Returns ((init backends).run events) fun result =>
        ∀ r ∈ result.2, ∀ call, r.call = some call → WithinCapacity call) ↔
      (enabledEntries config).length ≤ backendListMaxEntries := by
  have hlength : (enabledEntries config).length = backends.length :=
    (buildBackends_builtFrom hbuild).length_eq
  rw [hlength]
  constructor
  · intro hruns
    by_cases hsome : backends = []
    · simp [hsome]
    obtain ⟨result, hrun, r, hr, call, hcall, hlist⟩ :=
      run_start_passes_all hbuild hsome
    have hwithin := (hruns [.start .ascending true]
      ⟨trivial, by split <;> trivial⟩).of_eq_ok hrun
    rw [← hlist]
    exact (hwithin r hr call hcall).backendList_le
  · intro hle events hroom
    exact run_withinCapacity (bounded_init hle) hroom

theorem calls_withinCapacity_iff_two_entries :
    ∃ backends,
      buildBackends exampleSHA1 (exampleConfig ["10.0.0.10", "10.0.0.11"]) =
        .ok backends ∧
      (enabledEntries (exampleConfig ["10.0.0.10", "10.0.0.11"])).length ≤
        backendListMaxEntries ∧
      ∀ events, Along step RoomForSession (init backends) [] events →
        Returns ((init backends).run events) fun result =>
          ∀ r ∈ result.2, ∀ call, r.call = some call → WithinCapacity call := by
  have haccepted : (buildBackends exampleSHA1 (exampleConfig
      ["10.0.0.10", "10.0.0.11"])).toOption.map (fun _ => ()) = some () := by
    decide +kernel
  have hle : (enabledEntries (exampleConfig ["10.0.0.10", "10.0.0.11"])).length ≤
      backendListMaxEntries := by
    decide
  obtain ⟨backends, hbuild, -⟩ := returns_of_toOption haccepted
  exact ⟨backends, hbuild, hle, (calls_withinCapacity_iff hbuild).mpr hle⟩

/-! ## One backend too many -/

theorem buildBackend_returns (newSHA1 : UUID → Bytes → UUID) (i : Nat)
    {bc : BackendConfig} (hip : (Net.parseIP bc.ip).isSome = true)
    (hmac : (Net.parseMAC bc.mac).isSome = true) :
    Returns (buildBackend newSHA1 i bc) fun _ => True := by
  obtain ⟨ip, hip⟩ := Option.isSome_iff_exists.mp hip
  obtain ⟨mac, hmac⟩ := Option.isSome_iff_exists.mp hmac
  simp only [buildBackend, hip, hmac]
  exact .ok trivial

/-- A configuration whose entries all parse is accepted, whatever the hash. -/
theorem buildBackends_returns (newSHA1 : UUID → Bytes → UUID) {config : Config}
    (h : ∀ bc ∈ config.backends, (Net.parseIP bc.ip).isSome = true ∧
      (Net.parseMAC bc.mac).isSome = true) :
    Returns (buildBackends newSHA1 config) fun _ => True := by
  apply foldlM_returns trivial
  intro out entry hentry _
  obtain ⟨hip, hmac⟩ := h entry.1 (List.fst_mem_of_mem_zipIdx hentry)
  unfold appendBackend
  split
  · exact (buildBackend_returns newSHA1 entry.2 hip hmac).bind fun b _ => .ok trivial
  · exact .ok trivial

def exampleSixtyFive : Config :=
  exampleConfig ((List.range 65).map fun i => "10.0.1." ++ toString i)

/-- With 65 entries the first call already exceeds the kernel's backend list. -/
theorem sixty_five_entries_exceed_capacity :
    ∃ backends, buildBackends exampleSHA1 exampleSixtyFive = .ok backends ∧
      Returns ((init backends).run [.start .ascending true]) fun result =>
        ∃ r ∈ result.2, ∃ call, r.call = some call ∧
          call.backendList.length = 65 ∧ ¬WithinCapacity call := by
  have hparse : ∀ bc ∈ exampleSixtyFive.backends,
      (Net.parseIP bc.ip).isSome = true ∧ (Net.parseMAC bc.mac).isSome = true := by
    have hips : ∀ i ∈ List.range 65,
        (Net.parseIP ("10.0.1." ++ toString i)).isSome = true := by
      decide +kernel
    have hmac : (Net.parseMAC "aa:bb:cc:dd:ee:ff").isSome = true := by
      decide
    simp only [exampleSixtyFive, exampleConfig, exampleEntry, List.forall_mem_map]
    exact fun i hi => ⟨hips i hi, hmac⟩
  obtain ⟨backends, hbuild, -⟩ := buildBackends_returns exampleSHA1 hparse
  have hlength : backends.length = 65 := by
    rw [← (buildBackends_builtFrom hbuild).length_eq]
    decide +kernel
  have hsome : backends ≠ [] := List.ne_nil_of_length_pos (by omega)
  refine ⟨backends, hbuild, (run_start_passes_all hbuild hsome).mono ?_⟩
  rintro result ⟨r, hr, call, hcall, rfl⟩
  refine ⟨r, hr, call, hcall, hlength, ?_⟩
  intro hwithin
  have hle := hwithin.backendList_le
  rw [hlength] at hle
  exact absurd hle (by decide)

end Udplb.Controller
