import Udplb.Controller.Affinity
import Udplb.Rlt.Distribution

/-!
# Draining a backend

A backend that becomes unschedulable is to keep the sessions it has and to get
no new ones.  The list of a `SetObjects` call holds the available backends only,
so that no slot of the table refers to the backend, and no session either.
-/

namespace Udplb.Controller

open Udplb.Foundation

/-- The index of the session leads to the backend with the id. -/
def HasSession (c : Controller) (session id : UUID) : Prop :=
  ∃ i b, c.sessionMap.lookup session = some i ∧ c.backends[i]? = some b ∧ b.id = id

def RefersTo (call : SetObjectsArgs) (id : UUID) : Prop :=
  ∃ i ∈ call.lookupTable, ∃ b, call.backendList[i]? = some b ∧ b.id = id

/-- The call keeps the sessions of the backend and sends no new ones to it. -/
structure Drains (c : Controller) (id : UUID) (call : SetObjectsArgs) : Prop where
  sessions_kept : ∀ session, HasSession c session id → MapsTo call session id
  no_slot : ¬RefersTo call id

theorem hasSession_congr {c c' : Controller} {session id : UUID}
    (hids : c'.backends.map (·.id) = c.backends.map (·.id))
    (hsessions : c'.sessionMap = c.sessionMap) :
    HasSession c' session id ↔ HasSession c session id := by
  have hiff : ∀ d : Controller, HasSession d session id ↔
      ∃ i, d.sessionMap.lookup session = some i ∧
        (d.backends.map (·.id))[i]? = some id := by
    intro d
    simp [HasSession]
  rw [hiff, hiff, hsessions, hids]

/-- A session is passed on exactly when its backend's id is an available one. -/
theorem mapsTo_called_iff (c : Controller) (table : List Nat) (session id : UUID) :
    MapsTo ⟨filterAvailable c.backends, table, c.remap.sessionMap⟩ session id ↔
      HasSession c session id ∧ IdAvailable id c.backends := by
  constructor
  · rintro ⟨i, b, hlookup, hb, rfl⟩
    rw [lookup_remap, Option.bind_eq_some_iff] at hlookup
    obtain ⟨oldIdx, hold, hremap⟩ := hlookup
    obtain ⟨old, new, hget, hnew, hid⟩ := remapIndex_eq_some hremap
    cases hb.symm.trans hnew
    exact ⟨⟨oldIdx, old, hold, hget, hid.symm⟩,
      List.mem_map.mpr ⟨_, List.mem_of_getElem? hb, rfl⟩⟩
  · rintro ⟨⟨i, b, hlookup, hb, rfl⟩, havailable⟩
    obtain ⟨b', hb', hid'⟩ := List.mem_map.mp havailable
    cases hindex : (AssocMap.indexBy (·.id)
        (filterAvailable c.backends)).lookup b.id with
    | none =>
        exact absurd hid'
          ((AssocMap.lookup_indexBy_eq_none (·.id)).mp hindex b' hb')
    | some newIdx =>
        obtain ⟨new, hnew, hid⟩ := AssocMap.getElem?_of_lookup_indexBy _ hindex
        refine ⟨newIdx, new, ?_, hnew, hid⟩
        simp [hlookup, remapIndex, hb, hindex]

theorem not_refersTo_of_not_idAvailable {backends : List Backend} {id : UUID}
    {table : List Nat} {sessions : AssocMap UUID Nat}
    (h : ¬IdAvailable id backends) :
    ¬RefersTo ⟨filterAvailable backends, table, sessions⟩ id := by
  rintro ⟨i, -, b, hb, hid⟩
  exact h (List.mem_map.mpr ⟨b, List.mem_of_getElem? hb, hid⟩)

/--
In the stable share-out of the slots the backends with the id get none, and the slots that are
left over do not come to their turn.
-/
def WithoutSlots (backends : List Backend) (m : UInt32) (id : UUID) : Prop :=
  ∃ share, (Rlt.sharing backends m.toNat).Stable share ∧
    ∀ i b, backends[i]? = some b → b.id = id →
      (Rlt.sharing backends m.toNat).held share i
          (Rlt.sharing backends m.toNat).demands.length = ∅ ∧
        (Rlt.leftOver m.toNat share).length ≤ i

theorem not_refersTo_iff {order : Rlt.IterOrder} {backends : List Backend} {m : UInt32}
    {table : List Nat} {sessions : AssocMap UUID Nat} (hne : backends ≠ [])
    (htable : Rlt.reverseCoordinatesLookupTable order backends m = .ok table) (id : UUID) :
    ¬RefersTo ⟨backends, table, sessions⟩ id ↔ WithoutSlots backends m id := by
  obtain ⟨p, hphase, -⟩ := Rlt.coordinatePhase_returns backends m.toNat
  constructor
  · intro hnone
    obtain ⟨share, hshare⟩ := Rlt.coordinatePhase_shares m.toNat_lt hphase
    refine ⟨share, hshare.stable, fun i b hb hid => ?_⟩
    refine (Rlt.not_mem_lookupTable_iff order hne hphase hshare htable
      (List.getElem?_eq_some_iff.mp hb).1).mp fun hmem => ?_
    exact hnone ⟨i, hmem, b, hb, hid⟩
  · rintro ⟨share, hstable, hslots⟩ ⟨i, hmem, b, hb, hid⟩
    have htracks := Rlt.tracks_of_stable m.toNat_lt hphase hstable
    exact (Rlt.not_mem_lookupTable_iff order hne hphase htracks htable
      (List.getElem?_eq_some_iff.mp hb).1).mpr (hslots i b hb hid) hmem

theorem updateStatus_changed {entry : BackendStatusEntry} {backends : List Backend}
    {b : Backend} (hfirst : backends.find? (fun b' => b'.id = entry.backendId) = some b)
    (hstate : b.status.state ≠ entry.state) :
    (updateStatus entry backends).2 = true := by
  induction backends with
  | nil => simp at hfirst
  | cons head rest ih =>
      by_cases hid : head.id = entry.backendId
      · rw [List.find?_cons_of_pos (by simpa using hid), Option.some.injEq] at hfirst
        subst hfirst
        simp [updateStatus, hid, hstate]
      · rw [List.find?_cons_of_neg (by simpa using hid)] at hfirst
        simpa [updateStatus, hid] using ih hfirst

/--
The call made when a backend becomes unschedulable drains it exactly when it has
no session; unless another backend with its id stays available, which then must
not come to a slot of the table.
-/
theorem drains_iff (c : Controller) (b : Backend) (order : Rlt.IterOrder)
    (applied : Bool) (hfirst : c.backends.find? (fun b' => b'.id = b.id) = some b)
    (hstate : b.status.state = .available)
    (hother : filterAvailable
      (updateStatus ⟨b.id, .unschedulable⟩ c.backends).1 ≠ []) :
    Returns (step c (.health ⟨b.id, .unschedulable⟩ order applied)) fun result =>
      ∃ r call, result.2 = [r] ∧ r.call = some call ∧
        (Drains c b.id call ↔
          (¬IdAvailable b.id (updateStatus ⟨b.id, .unschedulable⟩ c.backends).1 ∧
              ∀ session, ¬HasSession c session b.id) ∨
            (IdAvailable b.id (updateStatus ⟨b.id, .unschedulable⟩ c.backends).1 ∧
              WithoutSlots
                (filterAvailable (updateStatus ⟨b.id, .unschedulable⟩ c.backends).1)
                c.lookupTableSize b.id)) := by
  refine (step_returns c _).mono ?_
  rintro ⟨next, out⟩ hsteps
  have hchanged : (updateStatus ⟨b.id, .unschedulable⟩ c.backends).2 = true :=
    updateStatus_changed hfirst (by simp [hstate])
  cases hsteps with
  | unchanged entry order applied h => simp [hchanged] at h
  | recomputed h hr =>
      cases hr with
      | skipped order applied hnone => exact absurd hnone hother
      | called order applied table hsome htable =>
          refine ⟨_, _, rfl, rfl, ?_⟩
          have hsession : ∀ session, HasSession
              { c with backends := (updateStatus ⟨b.id, .unschedulable⟩ c.backends).1 }
              session b.id ↔ HasSession c session b.id :=
            fun session => hasSession_congr (map_id_updateStatus _ _) rfl
          have hmaps := fun session => mapsTo_called_iff
            { c with backends := (updateStatus ⟨b.id, .unschedulable⟩ c.backends).1 }
            table session b.id
          simp only [hsession] at hmaps
          by_cases havailable :
              IdAvailable b.id (updateStatus ⟨b.id, .unschedulable⟩ c.backends).1
          · constructor
            · intro hdrains
              exact Or.inr ⟨havailable, (not_refersTo_iff hsome htable b.id).mp hdrains.no_slot⟩
            · rintro (⟨hnot, -⟩ | ⟨-, hslot⟩)
              · exact absurd havailable hnot
              · exact ⟨fun session hs => (hmaps session).mpr ⟨hs, havailable⟩,
                  (not_refersTo_iff hsome htable b.id).mpr hslot⟩
          · constructor
            · intro hdrains
              refine Or.inl ⟨havailable, fun session hs => havailable ?_⟩
              exact ((hmaps session).mp (hdrains.sessions_kept session hs)).2
            · rintro (⟨-, hnone⟩ | ⟨h, -⟩)
              · exact ⟨fun session hs => absurd hs (hnone session),
                  not_refersTo_of_not_idAvailable havailable⟩
              · exact absurd h havailable

def exampleBackend (ip : String) : Backend :=
  (exampleBackends [ip]).headD (newBackend (Vector.replicate 16 0) ⟨[], 0, [], .unknown⟩
    ⟨.unknown⟩)

def drain (ip : String) : Event :=
  .health ⟨exampleId ip, .unschedulable⟩ .ascending true

theorem drains_iff_without_sessions :
    ∃ b, (exampleBackends ["10.0.0.10", "10.0.0.11"]).find?
        (fun b' => b'.id = b.id) = some b ∧
      b.status.state = .available ∧
      filterAvailable (updateStatus ⟨b.id, .unschedulable⟩
        (exampleBackends ["10.0.0.10", "10.0.0.11"])).1 ≠ [] ∧
      Returns (step (init (exampleBackends ["10.0.0.10", "10.0.0.11"]))
          (.health ⟨b.id, .unschedulable⟩ .ascending true)) fun result =>
        ∃ r call, result.2 = [r] ∧ r.call = some call ∧
          Drains (init (exampleBackends ["10.0.0.10", "10.0.0.11"])) b.id call := by
  have hfirst : (exampleBackends ["10.0.0.10", "10.0.0.11"]).find?
      (fun b' => b'.id = (exampleBackend "10.0.0.10").id) =
      some (exampleBackend "10.0.0.10") := by
    decide +kernel
  have hother : filterAvailable (updateStatus
      ⟨(exampleBackend "10.0.0.10").id, .unschedulable⟩
      (exampleBackends ["10.0.0.10", "10.0.0.11"])).1 ≠ [] := by
    decide +kernel
  refine ⟨exampleBackend "10.0.0.10", hfirst, rfl, hother, ?_⟩
  refine (drains_iff (init (exampleBackends ["10.0.0.10", "10.0.0.11"]))
    (exampleBackend "10.0.0.10") .ascending true hfirst rfl hother).mono ?_
  rintro result ⟨r, call, hout, hcall, hiff⟩
  refine ⟨r, call, hout, hcall, hiff.mpr (Or.inl ⟨?_, ?_⟩)⟩
  · unfold IdAvailable
    decide +kernel
  · rintro session ⟨i, b, hlookup, -⟩
    simp [init] at hlookup

/-- The session of a draining backend is not passed on. -/
theorem draining_drops_session :
    ((init (exampleBackends ["10.0.0.10", "10.0.0.11"])).run
        [.start .ascending true,
          .assignment ⟨exampleId "10.0.0.10", Vector.replicate 16 9⟩,
          drain "10.0.0.10"]).toOption.map
      (fun result => result.2.map fun r => r.call.map fun call =>
        (call.backendList.map (·.id),
          call.sessionMap.lookup (Vector.replicate 16 9))) =
      some [some ([exampleId "10.0.0.10", exampleId "10.0.0.11"], none),
        some ([exampleId "10.0.0.11"], none)] := by
  decide +kernel

end Udplb.Controller
