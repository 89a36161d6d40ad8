import Udplb.Rlt.Allotment

/-!
# Dependence of the table on the iteration order

Two nodes with the same backend list run the same coordinate phase, but each
node's runtime picks its own order for the `unset` map.  The table is a function
of the backend list exactly when the fill loop has nothing to choose: there is
one backend only, or the stable share-out leaves at most one slot over.
-/

namespace Udplb.Rlt

open Udplb.Foundation

/-- Every node that builds the table of this backend list gets the same one. -/
def PlacementAgrees (backends : List Backend) (m : UInt32) : Prop :=
  ∃ table, ∀ order,
    reverseCoordinatesLookupTable order backends m = .ok table

def swapFirst : List Nat → List Nat
  | first :: second :: rest => second :: first :: rest
  | short => short

theorem swapFirst_perm (keys : List Nat) : (swapFirst keys).Perm keys := by
  match keys with
  | [] => exact .refl _
  | [_] => exact .refl _
  | first :: second :: rest => exact .swap first second rest

def IterOrder.swapped : IterOrder where
  keys := swapFirst
  perm := swapFirst_perm

theorem keys_eq_of_length_le_one (order : IterOrder) {unset : List Nat}
    (h : unset.length ≤ 1) : order.keys unset = unset := by
  have hperm := order.perm unset
  match unset with
  | [] => exact hperm.eq_nil
  | [_] => exact List.perm_singleton.mp hperm
  | _ :: _ :: _ => simp at h

theorem placementAgrees_of_one_backend {backends : List Backend} {m : UInt32}
    {p : Progress} (hphase : coordinatePhase backends m.toNat = .ok p)
    (hone : backends.length = 1) : PlacementAgrees backends m := by
  have hne : backends ≠ [] := by
    rintro rfl
    simp at hone
  obtain ⟨table, htable, -, hdealt, hkept⟩ :=
    reverseCoordinatesLookupTable_spec .ascending hne hphase
  refine ⟨table, fun order => ?_⟩
  obtain ⟨table', htable', -, hdealt', hkept'⟩ :=
    reverseCoordinatesLookupTable_spec order hne hphase
  rw [htable']
  congr 1
  apply List.ext_getElem?
  intro k
  by_cases hk : k ∈ p.unset
  · obtain ⟨j, hj⟩ := List.mem_iff_getElem?.mp hk
    obtain ⟨j', hj'⟩ := List.mem_iff_getElem?.mp
      ((order.perm p.unset).mem_iff.mpr hk)
    rw [hdealt j k hj, hdealt' j' k hj', hone, Nat.mod_one, Nat.mod_one]
  · rw [hkept k hk, hkept' k hk]

theorem placementAgrees_of_one_slot {backends : List Backend} {m : UInt32}
    {p : Progress} (hne : backends ≠ [])
    (hphase : coordinatePhase backends m.toNat = .ok p)
    (hslot : p.unset.length ≤ 1) : PlacementAgrees backends m := by
  obtain ⟨table, htable, -⟩ :=
    reverseCoordinatesLookupTable_spec .ascending hne hphase
  refine ⟨table, fun order => ?_⟩
  rw [← htable]
  unfold reverseCoordinatesLookupTable
  rw [hphase]
  change fillRemaining _ (order.keys p.unset) 0 p.out =
    fillRemaining _ (IterOrder.ascending.keys p.unset) 0 p.out
  rw [keys_eq_of_length_le_one order hslot,
    keys_eq_of_length_le_one .ascending hslot]

/-- With two backends the first two slots of the iteration can be exchanged. -/
theorem not_placementAgrees {backends : List Backend} {m : UInt32}
    {p : Progress} (hphase : coordinatePhase backends m.toNat = .ok p)
    (hbackends : 2 ≤ backends.length) (hslots : 2 ≤ p.unset.length) :
    ¬PlacementAgrees backends m := by
  have hne : backends ≠ [] := by
    rintro rfl
    simp at hbackends
  rintro ⟨table, hagree⟩
  obtain ⟨first, second, rest, hunset⟩ :
      ∃ first second rest, p.unset = first :: second :: rest := by
    match hunset : p.unset with
    | [] => simp [hunset] at hslots
    | [_] => simp [hunset] at hslots
    | first :: second :: rest => exact ⟨first, second, rest, rfl⟩
  obtain ⟨table₁, htable₁, -, hdealt₁, -⟩ :=
    reverseCoordinatesLookupTable_spec .ascending hne hphase
  obtain ⟨table₂, htable₂, -, hdealt₂, -⟩ :=
    reverseCoordinatesLookupTable_spec .swapped hne hphase
  have heq₁ := htable₁.symm.trans (hagree .ascending)
  have heq₂ := htable₂.symm.trans (hagree .swapped)
  cases heq₁
  cases heq₂
  have hfirst := hdealt₁ 0 first (by simp [IterOrder.ascending, hunset])
  have hsecond := hdealt₂ 1 first (by
    simp [IterOrder.swapped, swapFirst, hunset])
  rw [hfirst, Option.some.injEq, Nat.zero_mod,
    Nat.mod_eq_of_lt (by omega)] at hsecond
  omega

/--
Placement without coordination holds exactly when there is one backend, or the stable
share-out of the slots leaves at most one slot over.  It does if `m` leaves a remainder of at
most 1 and every backend has enough slots of its own.
-/
theorem placementAgrees_iff (backends : List Backend) (m : UInt32)
    (hne : backends ≠ []) :
    (PlacementAgrees backends m ↔
      backends.length = 1 ∨ ∃ share, (sharing backends m.toNat).Stable share ∧
        (leftOver m.toNat share).length ≤ 1) ∧
    ((∀ i < backends.length,
        m.toNat / backends.length ≤ (ownSlots backends m.toNat i).card) →
      m.toNat % backends.length ≤ 1 → PlacementAgrees backends m) := by
  have hn : 0 < backends.length := List.length_pos_iff.mpr hne
  obtain ⟨p, hphase, hvalid⟩ := coordinatePhase_returns backends m.toNat
  obtain ⟨share, hshare⟩ := coordinatePhase_shares m.toNat_lt hphase
  refine ⟨⟨?_, ?_⟩, ?_⟩
  · intro hagree
    by_contra hcond
    rw [not_or] at hcond
    refine not_placementAgrees hphase (by omega) ?_ hagree
    by_contra hslots
    exact hcond.2 ⟨share, hshare.stable, by rw [← hshare.unset_eq]; omega⟩
  · rintro (hone | ⟨share', hstable, hslots⟩)
    · exact placementAgrees_of_one_backend hphase hone
    · have htracks := tracks_of_stable m.toNat_lt hphase hstable
      rw [← htracks.unset_eq] at hslots
      exact placementAgrees_of_one_slot hne hphase hslots
  · intro hown hrest
    refine placementAgrees_of_one_slot hne hphase ?_
    rw [length_unset_of_claimed hvalid fun i hi => ?_]
    · exact hrest
    · rw [hshare.claimed_eq]
      exact held_of_ownSlots hshare.stable (hown i hi)

/-- A backend whose id holds these four coordinates. -/
def coordinateBackend (c₀ c₁ c₂ c₃ : UInt8) : Backend :=
  newBackend #v[c₀, 0, 0, 0, c₁, 0, 0, 0, c₂, 0, 0, 0, c₃, 0, 0, 0] ⟨[], 0, [], .unknown⟩
    ⟨.unknown⟩

/-- Two backends with the residues 0, 1, 2 and 3, 4, 5, 6 modulo 7 and modulo 5. -/
def ownBackends : List Backend := [coordinateBackend 0 1 2 1, coordinateBackend 3 4 33 13]

theorem placementAgrees_iff_own_slots :
    PlacementAgrees ownBackends 7 ∧
    ∃ share, (sharing ownBackends (7 : UInt32).toNat).Stable share ∧
      (leftOver (7 : UInt32).toNat share).length ≤ 1 := by
  obtain ⟨hiff, howned⟩ := placementAgrees_iff ownBackends 7 (by simp [ownBackends])
  have hagree := howned (by decide +kernel) (by decide)
  exact ⟨hagree, (hiff.mp hagree).resolve_left (by decide)⟩

theorem two_backends_placement_disagrees :
    ¬PlacementAgrees [makeBackend 0, makeBackend 1] 7 := by
  rintro ⟨table, hagree⟩
  have hne : reverseCoordinatesLookupTable .ascending
        [makeBackend 0, makeBackend 1] 7 ≠
      reverseCoordinatesLookupTable .swapped
        [makeBackend 0, makeBackend 1] 7 := by
    decide +kernel
  exact hne ((hagree .ascending).trans (hagree .swapped).symm)

end Udplb.Rlt
