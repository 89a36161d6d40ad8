import Mathlib.Tactic.ByContra
import Udplb.Controller.LastCall

/-!
# Session affinity in the controller

The assignment loop stores positions in the list of all backends.  A
recomputation replaces them by positions in the list of the available ones, and
the next recomputation reads them as positions in the list of all backends
again.  A session stays with its backend as long as the two positions agree, and
once they differ it never comes back: its index has moved to the left.
-/

namespace Udplb.Controller

open Udplb.Foundation

def position (id : UUID) (backends : List Backend) : Nat :=
  (backends.map (·.id)).idxOf id

def listedBefore (id : UUID) (backends : List Backend) : List Backend :=
  backends.take (position id backends)

def IdAvailable (id : UUID) (backends : List Backend) : Prop :=
  id ∈ (filterAvailable backends).map (·.id)

/-- The session map of a call sends the session to the backend with the id. -/
def MapsTo (call : SetObjectsArgs) (session id : UUID) : Prop :=
  ∃ i b, call.sessionMap.lookup session = some i ∧
    call.backendList[i]? = some b ∧ b.id = id

theorem IdAvailable.mem_ids {id : UUID} {backends : List Backend}
    (h : IdAvailable id backends) : id ∈ backends.map (·.id) :=
  (List.filter_sublist.map _).subset h

/-! ## One recomputation -/

theorem getElem?_position {id : UUID} {backends : List Backend}
    (h : id ∈ backends.map (·.id)) :
    ∃ b, backends[position id backends]? = some b ∧ b.id = id := by
  have hlt : position id backends < backends.length := by
    simpa [position] using List.idxOf_lt_length_iff.mpr h
  refine ⟨_, List.getElem?_eq_getElem hlt, ?_⟩
  have hget : (backends.map (·.id))[position id backends]? = some id := by
    simp [position, h]
  simpa [hlt] using hget

theorem remapIndex_filterAvailable {backends : List Backend}
    (hnodup : (backends.map (·.id)).Nodup) (i : Nat) :
    remapIndex backends (filterAvailable backends) i =
      backends[i]?.bind fun b =>
        if isAvailable b then some (filterAvailable (backends.take i)).length
        else none := by
  unfold remapIndex
  cases hb : backends[i]? with
  | none => rfl
  | some b => exact AssocMap.lookup_indexBy_filter _ hnodup isAvailable hb

/-- The session has the position of its backend among all backends. -/
def Stays (session id : UUID) (c : Controller) : Prop :=
  c.sessionMap.lookup session = some (position id c.backends)

/-- The session has no position, or one to the left of its backend. -/
def Strays (session id : UUID) (c : Controller) : Prop :=
  ∀ i, c.sessionMap.lookup session = some i → i < position id c.backends

section Remap

variable {c : Controller} {session id : UUID}

theorem isAvailable_of_idAvailable (hnodup : (c.backends.map (·.id)).Nodup)
    (havailable : IdAvailable id c.backends) {b : Backend} (hb : b ∈ c.backends)
    (hid : b.id = id) : isAvailable b = true := by
  obtain ⟨b', hb', hid'⟩ := List.mem_map.mp havailable
  rw [mem_filterAvailable] at hb'
  have hsame : b = b' := List.inj_on_of_nodup_map hnodup hb hb'.1
    (hid.trans hid'.symm)
  rw [hsame]
  exact hb'.2

theorem lookup_remap_of_stays (hnodup : (c.backends.map (·.id)).Nodup)
    (havailable : IdAvailable id c.backends) (h : Stays session id c) :
    c.remap.sessionMap.lookup session =
      some (filterAvailable (listedBefore id c.backends)).length := by
  obtain ⟨b, hb, hid⟩ := getElem?_position havailable.mem_ids
  have hup := isAvailable_of_idAvailable hnodup havailable
    (List.mem_of_getElem? hb) hid
  rw [lookup_remap, h, Option.bind_some, remapIndex_filterAvailable hnodup, hb,
    Option.bind_some, if_pos hup, listedBefore]

theorem length_listedBefore (hmem : id ∈ c.backends.map (·.id)) :
    (listedBefore id c.backends).length = position id c.backends := by
  obtain ⟨b, hb, -⟩ := getElem?_position hmem
  have hlt := (List.getElem?_eq_some_iff.mp hb).1
  simp [listedBefore]
  omega

theorem stays_remap_iff (hnodup : (c.backends.map (·.id)).Nodup)
    (havailable : IdAvailable id c.backends) (h : Stays session id c) :
    (∀ b ∈ listedBefore id c.backends, isAvailable b = true) ↔
      Stays session id c.remap := by
  rw [Stays, lookup_remap_of_stays hnodup havailable h, Option.some.injEq]
  change _ ↔ _ = position id c.backends
  rw [← length_listedBefore havailable.mem_ids]
  exact List.length_filter_eq_length_iff.symm

theorem strays_remap_of_stays (hnodup : (c.backends.map (·.id)).Nodup)
    (havailable : IdAvailable id c.backends) (h : Stays session id c)
    (hnot : ¬ ∀ b ∈ listedBefore id c.backends, isAvailable b = true) :
    Strays session id c.remap := by
  intro i hi
  rw [lookup_remap_of_stays hnodup havailable h, Option.some.injEq] at hi
  subst hi
  change _ < position id c.backends
  rw [← length_listedBefore havailable.mem_ids]
  have hle := List.length_filter_le isAvailable (listedBefore id c.backends)
  have hne := mt List.length_filter_eq_length_iff.mp hnot
  exact Nat.lt_of_le_of_ne hle hne

theorem strays_remap_of_strays (hnodup : (c.backends.map (·.id)).Nodup)
    (h : Strays session id c) : Strays session id c.remap := by
  intro i hi
  rw [lookup_remap, Option.bind_eq_some_iff] at hi
  obtain ⟨oldIdx, hold, hi⟩ := hi
  rw [remapIndex_filterAvailable hnodup, Option.bind_eq_some_iff] at hi
  obtain ⟨b, -, hi⟩ := hi
  have hlt := h oldIdx hold
  have hle : (filterAvailable (c.backends.take oldIdx)).length ≤ oldIdx :=
    Nat.le_trans (List.length_filter_le _ _) (List.length_take_le _ _)
  split at hi
  · cases hi
    exact Nat.lt_of_le_of_lt hle hlt
  · cases hi

theorem mapsTo_remap_iff (hnodup : (c.backends.map (·.id)).Nodup)
    (havailable : IdAvailable id c.backends) (lookupTable : List Nat) :
    MapsTo ⟨filterAvailable c.backends, lookupTable, c.remap.sessionMap⟩
        session id ↔
      Stays session id c := by
  obtain ⟨b, hb, hid⟩ := getElem?_position havailable.mem_ids
  constructor
  · rintro ⟨i, new, hi, hnew, hnewid⟩
    change c.remap.sessionMap.lookup session = some i at hi
    rw [lookup_remap, Option.bind_eq_some_iff] at hi
    obtain ⟨oldIdx, hold, hi⟩ := hi
    obtain ⟨old, new', hget, hnew', hsame⟩ := remapIndex_eq_some hi
    cases hnew.symm.trans hnew'
    have hold' : (c.backends.map (·.id))[oldIdx]? = some id := by
      simp [hget, ← hsame, hnewid]
    have hposition : (c.backends.map (·.id))[position id c.backends]? = some id := by
      simp [hb, hid]
    have hlt := (List.getElem?_eq_some_iff.mp hold').1
    rw [Stays, hold, (List.getElem?_inj hlt hnodup).mp (hold'.trans hposition.symm)]
  · intro hstays
    have hlookup := lookup_remap_of_stays hnodup havailable hstays
    have hremap := hlookup
    rw [lookup_remap, hstays, Option.bind_some] at hremap
    obtain ⟨old, new, hget, hnew, hsame⟩ := remapIndex_eq_some hremap
    cases hb.symm.trans hget
    exact ⟨_, new, hlookup, hnew, hsame.trans hid⟩

end Remap

/-! ## A whole run -/

def LeadersAvailable (id : UUID) (r : Recomputation) : Prop :=
  ∀ b ∈ listedBefore id r.backends, isAvailable b = true

/-- How the session stands after the recomputations since its delivery. -/
structure Tracked (ids : List UUID) (session id : UUID) (c : Controller)
    (out : List Recomputation) : Prop where
  ids_eq : c.backends.map (·.id) = ids
  stays : (∀ r ∈ out, IdAvailable id r.backends) →
    (∀ r ∈ out, LeadersAvailable id r) → Stays session id c
  strays : (∀ r ∈ out, IdAvailable id r.backends) →
    (¬ ∀ r ∈ out, LeadersAvailable id r) → Strays session id c

section Run

variable {ids : List UUID} {session id : UUID} {c next : Controller}
  {out : List Recomputation}

theorem Tracked.congr (h : Tracked ids session id c out)
    (hids : next.backends.map (·.id) = c.backends.map (·.id))
    (hlookup : next.sessionMap.lookup session = c.sessionMap.lookup session) :
    Tracked ids session id next out := by
  refine ⟨hids.trans h.ids_eq, ?_, ?_⟩
  · intro havailable hleaders
    rw [Stays, hlookup, position, hids]
    exact h.stays havailable hleaders
  · intro havailable hleaders
    rw [Strays, hlookup, position, hids]
    exact h.strays havailable hleaders

theorem Tracked.recomputed {r : Recomputation} (hnodup : ids.Nodup)
    (h : Tracked ids session id c out) (hr : Recomputes c next r) :
    Tracked ids session id next (out ++ [r]) := by
  obtain ⟨rfl, hstays, hstrays⟩ := h
  cases hr with
  | skipped order applied hnone =>
      have hcontra : ¬ ∀ r ∈ out ++ [⟨c.backends, order, none, applied⟩],
          IdAvailable id r.backends := by
        intro havailable
        simpa [IdAvailable, hnone] using havailable _ List.mem_concat_self
      exact ⟨rfl, fun h => absurd h hcontra, fun h => absurd h hcontra⟩
  | called order applied table hsome htable =>
      refine ⟨rfl, ?_, ?_⟩ <;>
        rw [List.forall_mem_append, List.forall_mem_append,
          List.forall_mem_singleton, List.forall_mem_singleton] <;>
        rintro ⟨hout, havailable⟩
      · rintro ⟨hleaders, hleader⟩
        exact (stays_remap_iff hnodup havailable (hstays hout hleaders)).mp hleader
      · intro hnot
        by_cases hleaders : ∀ r ∈ out, LeadersAvailable id r
        · exact strays_remap_of_stays hnodup havailable (hstays hout hleaders)
            fun hleader => hnot ⟨hleaders, hleader⟩
        · exact strays_remap_of_strays hnodup (hstrays hout hleaders)

theorem lookup_handleAssignment_ne {a : Assignment} (h : a.sessionId ≠ session) :
    (handleAssignment c a).sessionMap.lookup session =
      c.sessionMap.lookup session := by
  unfold handleAssignment
  split
  · exact AList.lookup_insert_ne (Ne.symm h)
  · rfl

theorem Tracked.steps {event : Event} {now : List Recomputation}
    (hnodup : ids.Nodup) (h : Tracked ids session id c out)
    (hother : ∀ a, event = .assignment a → a.sessionId ≠ session)
    (hsteps : Steps c event next now) :
    Tracked ids session id next (out ++ now) := by
  cases hsteps with
  | assigned a =>
      rw [List.append_nil]
      exact h.congr (by simp) (lookup_handleAssignment_ne (hother a rfl))
  | unchanged => simpa using h
  | recomputed hevent hr =>
      apply Tracked.recomputed hnodup _ hr
      exact h.congr (ids_update event c.backends) rfl

theorem findIdx?_position {backends : List Backend}
    (hid : id ∈ backends.map (·.id)) :
    backends.findIdx? (fun b => b.id = id) = some (position id backends) := by
  induction backends with
  | nil => simp at hid
  | cons b rest ih =>
      by_cases hb : b.id = id
      · simp [position, List.findIdx?_cons, hb]
      · have hrest : id ∈ rest.map (·.id) := by
          simpa [Ne.symm hb] using hid
        simp [position, List.findIdx?_cons, hb, ih hrest]

theorem tracked_handleAssignment (hids : c.backends.map (·.id) = ids)
    (hid : id ∈ ids) :
    Tracked ids session id (handleAssignment c ⟨id, session⟩) [] := by
  subst hids
  refine ⟨by simp, ?_, fun _ h => absurd (by simp) h⟩
  intro _ _
  rw [Stays, handleAssignment, findIdx?_position hid]
  exact AList.lookup_insert _

end Run

theorem recomputes_seen {c next : Controller} {r : Recomputation}
    (hr : Recomputes c next r) : r.backends = c.backends := by
  cases hr <;> rfl

theorem length_le_one_of_step {c next : Controller} {event : Event}
    {now : List Recomputation} (h : step c event = .ok (next, now)) :
    now.length ≤ 1 := by
  cases steps_of_step_eq_ok h <;> simp

theorem Tracked.mapsTo_iff {ids : List UUID} {session id : UUID}
    {c next : Controller} {out : List Recomputation} {r : Recomputation}
    {call : SetObjectsArgs} (hnodup : ids.Nodup)
    (h : Tracked ids session id c out) (hr : Recomputes c next r)
    (hcall : r.call = some call) (hout : ∀ r ∈ out, IdAvailable id r.backends)
    (havailable : IdAvailable id r.backends) :
    MapsTo call session id ↔ ∀ r' ∈ out, LeadersAvailable id r' := by
  obtain ⟨rfl, hstays, hstrays⟩ := h
  cases hr with
  | skipped => cases hcall
  | called order applied table hsome htable =>
      cases hcall
      rw [mapsTo_remap_iff hnodup havailable table]
      constructor
      · intro hc
        by_contra hnot
        exact Nat.lt_irrefl _ (hstrays hout hnot _ hc)
      · exact hstays hout

/--
After the last delivery of a session, and while its backend is available at
every recomputation, a call sends the session to that backend exactly when at
each earlier recomputation all backends listed before it were available too.
-/
theorem session_affinity_iff (backends : List Backend)
    (hnodup : (backends.map (·.id)).Nodup) (before : List Event)
    (session id : UUID) (after : List Event)
    (hlast : ∀ a, .assignment a ∈ after → a.sessionId ≠ session) :
    ∃ c out last out',
      (init backends).run before = .ok (c, out) ∧
      c.run (.assignment ⟨id, session⟩ :: after) = .ok (last, out') ∧
      ∀ earlier r later call, out' = earlier ++ r :: later →
        r.call = some call →
        (∀ r' ∈ earlier ++ [r], IdAvailable id r'.backends) →
        (MapsTo call session id ↔ ∀ r' ∈ earlier, LeadersAvailable id r') := by
  obtain ⟨c, out, hbefore⟩ := run_total (init backends) before
  obtain ⟨last, out', hafter⟩ := run_total c (.assignment ⟨id, session⟩ :: after)
  refine ⟨c, out, last, out', hbefore, hafter, ?_⟩
  rintro earlier r later call rfl hcall havailable
  obtain ⟨next, now, rest, hassign, hrest, heq⟩ := run_cons_eq_ok.mp hafter
  cases hassign
  rw [List.nil_append] at heq
  subst heq
  obtain ⟨first, event, rest, middle, next, rfl, hfirst, hemit⟩ :=
    run_emits (fun _ _ _ _ h => length_le_one_of_step h) hrest
  rw [List.forall_mem_append, List.forall_mem_singleton] at havailable
  cases steps_of_step_eq_ok hemit with
  | recomputed hevent hr =>
      have hids : c.backends.map (·.id) = backends.map (·.id) := run_ids hbefore
      have hmiddle := (run_ids hfirst).trans
        (congrArg (List.map (·.id)) (backends_handleAssignment c _))
      have hid : id ∈ backends.map (·.id) := by
        have hmem := havailable.2.mem_ids
        rw [recomputes_seen hr, ids_update, hmiddle, hids] at hmem
        exact hmem
      have htracked : Tracked (backends.map (·.id)) session id middle earlier := by
        have hothers : Along step
            (fun _ _ event => ∀ a, event = .assignment a → a.sessionId ≠ session)
            (handleAssignment c ⟨id, session⟩) [] first := by
          apply Along.of_forall
          rintro _ _ event hmem a rfl
          exact hlast a (by simp [hmem])
        refine run_induction (Tracked (backends.map (·.id)) session id)
          (tracked_handleAssignment hids hid) ?_ hothers hfirst
        exact fun s now event next later h hother hstep =>
          h.steps hnodup hother (steps_of_step_eq_ok hstep)
      have hupdated : Tracked (backends.map (·.id)) session id
          { middle with backends := event.update middle.backends } earlier :=
        htracked.congr (ids_update event _) rfl
      exact hupdated.mapsTo_iff hnodup hr hcall havailable.1 havailable.2

/-- The first of three backends goes down and comes back. -/
def flap : List Event :=
  [.health ⟨exampleId "10.0.0.10", .unavailable⟩ .ascending true,
   .health ⟨exampleId "10.0.0.10", .available⟩ .ascending true]

theorem session_affinity_iff_flap :
    ∃ c out last down up call,
      (init (exampleBackends ["10.0.0.10", "10.0.0.11", "10.0.0.12"])).run
        [.start .ascending true] = .ok (c, out) ∧
      c.run (.assignment ⟨exampleId "10.0.0.12", Vector.replicate 16 9⟩ :: flap) =
        .ok (last, [down, up]) ∧
      up.call = some call ∧
      (∀ r ∈ [down, up], IdAvailable (exampleId "10.0.0.12") r.backends) ∧
      (MapsTo call (Vector.replicate 16 9) (exampleId "10.0.0.12") ↔
        ∀ r ∈ [down], LeadersAvailable (exampleId "10.0.0.12") r) := by
  have hran : ((init (exampleBackends ["10.0.0.10", "10.0.0.11", "10.0.0.12"])).run
      [.start .ascending true]).toOption.map (fun started =>
        (started.1.run (.assignment ⟨exampleId "10.0.0.12", Vector.replicate 16 9⟩ ::
          flap)).toOption.map fun result => result.2.map fun r =>
            (decide (exampleId "10.0.0.12" ∈ (filterAvailable r.backends).map (·.id)),
              r.call.isSome)) = some (some [(true, true), (true, true)]) := by
    decide +kernel
  obtain ⟨⟨c', out₀⟩, hbefore', hafter⟩ := returns_of_toOption hran
  obtain ⟨⟨last', out₁⟩, hafter', hout⟩ := returns_of_toOption hafter
  obtain ⟨c, out, last, out', hbefore, hafter, h⟩ := session_affinity_iff
    (exampleBackends ["10.0.0.10", "10.0.0.11", "10.0.0.12"]) (by decide +kernel)
    [.start .ascending true] (Vector.replicate 16 9) (exampleId "10.0.0.12") flap
    (by simp [flap])
  cases hbefore'.symm.trans hbefore
  cases hafter'.symm.trans hafter
  obtain ⟨down, rest, rfl, hdown, hrest⟩ := List.map_eq_cons_iff.mp hout
  obtain ⟨up, rest, rfl, hup, hnil⟩ := List.map_eq_cons_iff.mp hrest
  obtain rfl := List.map_eq_nil_iff.mp hnil
  obtain ⟨hdown, -⟩ := Prod.mk.inj hdown
  obtain ⟨hup, hcalled⟩ := Prod.mk.inj hup
  obtain ⟨call, hcall⟩ := Option.isSome_iff_exists.mp hcalled
  have havailable : ∀ r ∈ [down, up], IdAvailable (exampleId "10.0.0.12") r.backends := by
    simp only [List.mem_cons, List.not_mem_nil, or_false, forall_eq_or_imp, forall_eq,
      IdAvailable]
    exact ⟨of_decide_eq_true hdown, of_decide_eq_true hup⟩
  exact ⟨c', out₀, last', down, up, call, hbefore, hafter, hcall, havailable,
    h [down] up [] call rfl hcall havailable⟩

/--
The session of the third backend is passed with the second one after the flap,
although its own backend is available at every recomputation.
-/
theorem session_moves_after_flap :
    ((init (exampleBackends ["10.0.0.10", "10.0.0.11", "10.0.0.12"])).run
        (.start .ascending true ::
          .assignment ⟨exampleId "10.0.0.12", Vector.replicate 16 9⟩ ::
          flap)).toOption.map
      (fun result => result.2.map fun r =>
        (decide (exampleId "10.0.0.12" ∈ (filterAvailable r.backends).map (·.id)),
          r.call.bind fun call =>
            (call.sessionMap.lookup (Vector.replicate 16 9)).bind fun i =>
              call.backendList[i]?.map (·.id))) =
      some [(true, none), (true, some (exampleId "10.0.0.12")),
        (true, some (exampleId "10.0.0.11"))] := by
  decide +kernel

end Udplb.Controller
