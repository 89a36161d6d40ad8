import Udplb.Rlt.FillOrder

/-!
# Removing a backend

Minimal disruption compares the tables of a list and of the list without one
backend, both with the unset slots taken in ascending order.  A slot of another
backend should keep its backend.  The removal changes the quotas of all backends,
frees slots that others demand, and shifts the ranks of the slots that are left over.
Nobody else is disturbed where the slots of the removed backend can be handed on, so that
the share-out is stable for the shorter list as well.
-/

namespace Udplb.Rlt

open Udplb.Foundation

def without (backends : List Backend) (b : Backend) : List Backend :=
  backends.filter (·.id ≠ b.id)

/-- The id of the backend that a table gives slot `k` to. -/
def ownerId (backends : List Backend) (table : List Nat) (k : Nat) : Option UUID :=
  table[k]?.bind fun i => backends[i]?.map (·.id)

/-- No slot of another backend changes hands when `b` is removed. -/
def Undisturbed (backends : List Backend) (m : UInt32) (b : Backend) : Prop :=
  ∃ table table',
    reverseCoordinatesLookupTable .ascending backends m = .ok table ∧
    reverseCoordinatesLookupTable .ascending (without backends b) m = .ok table' ∧
    ∀ k < m.toNat, ownerId backends table k ≠ some b.id →
      ownerId (without backends b) table' k = ownerId backends table k

/-- The backend of slot `k`: it claimed the slot, or its turn comes at the rank of
the slot among the unset ones. -/
def Progress.owner (n : Nat) (p : Progress) (k : Nat) : Option Nat :=
  if k ∈ p.unset then some (p.unset.idxOf k % n) else p.out[k]?

def Progress.ownerId (backends : List Backend) (p : Progress) (k : Nat) :
    Option UUID :=
  (p.owner backends.length k).bind fun i => backends[i]?.map (·.id)

theorem getElem?_ascending {backends : List Backend} {m : UInt32} {p : Progress}
    {table : List Nat} (hne : backends ≠ [])
    (hphase : coordinatePhase backends m.toNat = .ok p)
    (htable : reverseCoordinatesLookupTable .ascending backends m = .ok table)
    (k : Nat) : table[k]? = p.owner backends.length k := by
  obtain ⟨-, hdealt, hkept⟩ :=
    (reverseCoordinatesLookupTable_spec .ascending hne hphase).of_eq_ok htable
  unfold Progress.owner
  by_cases hk : k ∈ p.unset
  · rw [if_pos hk]
    exact hdealt _ k (List.getElem?_idxOf hk)
  · rw [if_neg hk]
    exact hkept k hk

theorem ownerId_ascending {backends : List Backend} {m : UInt32} {p : Progress}
    {table : List Nat} (hne : backends ≠ [])
    (hphase : coordinatePhase backends m.toNat = .ok p)
    (htable : reverseCoordinatesLookupTable .ascending backends m = .ok table)
    (k : Nat) : ownerId backends table k = p.ownerId backends k := by
  rw [ownerId, getElem?_ascending hne hphase htable, Progress.ownerId]

/-! ## Lists of distinct backends -/

/-- A backend of the list that is not `b`. -/
theorem exists_mem_without {backends : List Backend} {b : Backend}
    (hids : (backends.map (·.id)).Nodup) (htwo : 2 ≤ backends.length) :
    ∃ c, c ∈ without backends b := by
  match backends with
  | [] => simp at htwo
  | [_] => simp at htwo
  | first :: second :: rest =>
      have hdistinct : first.id ≠ second.id := by
        intro heq
        simp [heq] at hids
      by_cases hfirst : first.id = b.id
      · exact ⟨second, by simp [without, ← hfirst, Ne.symm hdistinct]⟩
      · exact ⟨first, by simp [without, hfirst]⟩

theorem length_without_lt {backends : List Backend} {b : Backend}
    (hmem : b ∈ backends) : (without backends b).length < backends.length :=
  List.length_filter_lt_length_iff_exists.mpr ⟨b, hmem, by simp⟩

/-- The only other backend takes over the whole table. -/
theorem undisturbed_of_two {backends : List Backend} {m : UInt32} {b : Backend}
    (hmem : b ∈ backends) (hids : (backends.map (·.id)).Nodup)
    (htwo : backends.length = 2) : Undisturbed backends m b := by
  have hne : backends ≠ [] := List.ne_nil_of_mem hmem
  obtain ⟨c, hc⟩ := exists_mem_without (b := b) hids (Nat.le_of_eq htwo.symm)
  have hother : without backends b = [c] := by
    have hlt := length_without_lt hmem
    match hwithout : without backends b with
    | [] => simp [hwithout] at hc
    | [_] =>
        rw [hwithout, List.mem_singleton] at hc
        rw [hc]
    | _ :: _ :: _ =>
        simp only [hwithout, List.length_cons] at hlt
        omega
  obtain ⟨table, htable, hlength, hentries⟩ :=
    reverseCoordinatesLookupTable_valid .ascending backends m hne
  obtain ⟨table', htable', hlength', hentries'⟩ :=
    reverseCoordinatesLookupTable_valid .ascending (without backends b) m
      (List.ne_nil_of_mem hc)
  refine ⟨table, table', htable, htable', ?_⟩
  intro k hk howner
  have htaken : ownerId (without backends b) table' k = some c.id := by
    have hget := List.getElem?_eq_getElem (hlength'.symm ▸ hk : k < table'.length)
    have hzero : table'[k] = 0 := by
      have := hentries' _ (List.getElem_mem (hlength'.symm ▸ hk))
      rw [hother] at this
      simpa using this
    rw [ownerId, hget, hzero, hother]
    rfl
  have hbefore : ownerId backends table k = some c.id := by
    have hget := List.getElem?_eq_getElem (hlength.symm ▸ hk : k < table.length)
    have hlt := hentries _ (List.getElem_mem (hlength.symm ▸ hk))
    have hid : ownerId backends table k = some (backends[table[k]]).id := by
      rw [ownerId, hget, Option.bind_some, List.getElem?_eq_getElem hlt]
      rfl
    have hmem' : backends[table[k]] ∈ without backends b := by
      refine List.mem_filter.mpr ⟨List.getElem_mem hlt, ?_⟩
      simpa [hid] using howner
    rw [hother, List.mem_singleton] at hmem'
    rw [hid, hmem']
  rw [htaken, hbefore]

/-! ## The demands of the other backends -/

/-- The place of `b` in the list. -/
def place (backends : List Backend) (b : Backend) : Nat :=
  backends.findIdx (·.id = b.id)

/-- The former index of a backend when the one at `removed` has gone. -/
def formerIndex (removed i : Nat) : Nat := if i < removed then i else i + 1

theorem formerIndex_injective (removed : Nat) : (formerIndex removed).Injective := by
  intro i j hij
  unfold formerIndex at hij
  split at hij <;> split at hij <;> omega

section Split

variable {front back : List Backend} {b : Backend}

theorem split_of_mem {backends : List Backend} (hmem : b ∈ backends)
    (hids : (backends.map (·.id)).Nodup) :
    ∃ front back, backends = front ++ b :: back ∧ without backends b = front ++ back ∧
      place backends b = front.length := by
  obtain ⟨front, back, rfl⟩ := List.append_of_mem hmem
  simp only [List.map_append, List.map_cons, List.nodup_append, List.nodup_cons,
    List.mem_map, List.mem_cons] at hids
  obtain ⟨-, ⟨hback, -⟩, hfront⟩ := hids
  have hfront' : ∀ c ∈ front, c.id ≠ b.id := fun c hc =>
    hfront _ ⟨c, hc, rfl⟩ _ (Or.inl rfl)
  have hback' : ∀ c ∈ back, c.id ≠ b.id := fun c hc heq => hback ⟨c, hc, heq⟩
  refine ⟨front, back, rfl, ?_, ?_⟩
  · rw [without, List.filter_append, List.filter_cons_of_neg (by simp),
      List.filter_eq_self.mpr (by simpa using hfront'),
      List.filter_eq_self.mpr (by simpa using hback')]
  · rw [place, List.findIdx_append, if_neg]
    · simp [List.findIdx_cons]
    · simpa [List.findIdx_lt_length] using hfront'

theorem getElem?_formerIndex (i : Nat) :
    (front ++ b :: back)[formerIndex front.length i]? = (front ++ back)[i]? := by
  unfold formerIndex
  split
  · rename_i hlt
    rw [List.getElem?_append_left hlt, List.getElem?_append_left hlt]
  · rename_i hge
    rw [List.getElem?_append_right (by omega), List.getElem?_append_right (by omega),
      Nat.sub_add_comm (by omega), List.getElem?_cons_succ]

theorem visits_without :
    (visits (front ++ back)).map (Prod.map (formerIndex front.length) id) =
      (visits (front ++ b :: back)).filter (·.1 ≠ front.length) := by
  unfold visits
  rw [List.zipIdx_append, List.zipIdx_append, List.flatMap_append, List.flatMap_append,
    List.zipIdx_cons, List.flatMap_cons, List.filter_append, List.filter_append,
    List.map_append, Nat.zero_add, List.zipIdx_succ, List.map_flatMap, List.map_flatMap,
    List.filter_flatMap, List.filter_flatMap]
  have hremoved : (b.coordinates.toList.map (Prod.mk front.length)).filter
      (·.1 ≠ front.length) = [] := by simp
  rw [hremoved, List.nil_append, List.flatMap_map]
  congr 1
  · refine List.flatMap_congr fun entry hentry => ?_
    have hlt : entry.2 < front.length := by
      simpa using List.snd_lt_of_mem_zipIdx hentry
    simp [List.filter_map, Function.comp_def, formerIndex, hlt, hlt.ne]
  · refine List.flatMap_congr fun entry hentry => ?_
    have hle : front.length ≤ entry.2 := List.le_snd_of_mem_zipIdx hentry
    have hne : ¬entry.2 + 1 = front.length := by omega
    simp [List.filter_map, Function.comp_def, formerIndex, hle.not_gt, hne]

theorem sharing_without (m : Nat) :
    (sharing (front ++ back) m).relabel (formerIndex front.length) =
      (sharing (front ++ b :: back) m).without front.length
        (m / ((front ++ b :: back).length - 1)) := by
  have hdemands : ∀ rounds,
      (demandsOf (front ++ back) m rounds).map
          (fun d => ⟨formerIndex front.length d.agent, d.reach⟩) =
        (demandsOf (front ++ b :: back) m rounds).filter (·.agent ≠ front.length) := by
    intro rounds
    unfold demandsOf
    rw [List.map_flatMap, List.filter_flatMap]
    congr 1
    funext prime
    rw [List.filter_map]
    change _ = ((visits _).filter (·.1 ≠ front.length)).map _
    rw [← visits_without, List.map_map, List.map_map]
    rfl
  have hlength : (front ++ b :: back).length - 1 = (front ++ back).length := by simp
  rw [hlength, Sharing.relabel, Sharing.without]
  simp only [sharing, hdemands]

end Split

/-! ## A backend that can go -/

/-- The backend whose turn comes at the rank of slot `k` among `slots`. -/
def turnId (backends : List Backend) (slots : List Nat) (k : Nat) : Option UUID :=
  backends[slots.idxOf k % backends.length]?.map (·.id)

/--
The slots are shared out, and `b` can go: when only its slots change hands the share-out is
stable for the other backends, with their quota, and the slots that are left over are the same
backends' turns as before.
-/
structure Expendable (backends : List Backend) (m : Nat) (b : Backend)
    (share share' : Sharing.ShareOut Nat) : Prop where
  handedOn : (sharing backends m).HandedOn share (place backends b) share'
    (m / (backends.length - 1))
  turns : ∀ k ∈ leftOver m share, turnId backends (leftOver m share) k ≠ some b.id →
    turnId (without backends b) (leftOver m share') k = turnId backends (leftOver m share) k

section Tracks

variable {backends : List Backend} {m t k : Nat} {share : Sharing.ShareOut Nat} {p : Progress}

theorem Tracks.ownerId_of_left (h : Tracks backends m share t p) (hk : k < m)
    (hleft : share k = none) :
    p.ownerId backends k = turnId backends (leftOver m share) k := by
  rw [Progress.ownerId, Progress.owner, if_pos ((h.unset_iff k hk).mpr hleft), h.unset_eq]
  rfl

theorem Tracks.ownerId_of_given (h : Tracks backends m share t p) (hk : k < m) {u : Nat}
    (hgiven : share k = some u) :
    p.ownerId backends k =
      ((sharing backends m).owner share k).bind fun i => backends[i]?.map (·.id) := by
  have hunset : k ∉ p.unset := by
    rw [h.unset_iff k hk, hgiven]
    exact Option.some_ne_none u
  rw [Progress.ownerId, Progress.owner, if_neg hunset, h.out_eq k hk u hgiven,
    Sharing.owner, hgiven, Option.bind_some]

end Tracks

section HandedOn

variable {front back : List Backend} {b : Backend} {m : Nat} {share share' : Sharing.ShareOut Nat}

theorem stable_without (h : (sharing (front ++ b :: back) m).HandedOn share front.length share'
    (m / ((front ++ b :: back).length - 1))) : (sharing (front ++ back) m).Stable share' := by
  have hstable := h.stable_after
  rw [← sharing_without] at hstable
  exact hstable.of_relabel (formerIndex_injective _)

theorem owner_without (h : (sharing (front ++ b :: back) m).HandedOn share front.length share'
    (m / ((front ++ b :: back).length - 1))) {k : Nat} (hk : k < m)
    (howner : (sharing (front ++ b :: back) m).owner share k ≠ some front.length) :
    ((sharing (front ++ back) m).owner share' k).bind
          (fun i => (front ++ back)[i]?.map (·.id)) =
      ((sharing (front ++ b :: back) m).owner share k).bind
        fun i => (front ++ b :: back)[i]?.map (·.id) := by
  rw [← h.owner_eq (Finset.mem_range.mpr hk) howner, ← sharing_without,
    Sharing.owner_relabel, Option.bind_map]
  simp only [Function.comp_def, getElem?_formerIndex]

end HandedOn

theorem undisturbed_of_expendable {backends : List Backend} {m : UInt32} {b : Backend}
    {share share' : Sharing.ShareOut Nat} (hmem : b ∈ backends)
    (hids : (backends.map (·.id)).Nodup) (htwo : 2 ≤ backends.length)
    (h : Expendable backends m.toNat b share share') : Undisturbed backends m b := by
  obtain ⟨c, hc⟩ := exists_mem_without (b := b) hids htwo
  have hne : backends ≠ [] := List.ne_nil_of_mem hmem
  have hne' : without backends b ≠ [] := List.ne_nil_of_mem hc
  obtain ⟨p, hphase, -⟩ := coordinatePhase_returns backends m.toNat
  obtain ⟨p', hphase', -⟩ := coordinatePhase_returns (without backends b) m.toNat
  obtain ⟨table, htable, -⟩ := reverseCoordinatesLookupTable_spec .ascending hne hphase
  obtain ⟨table', htable', -⟩ := reverseCoordinatesLookupTable_spec .ascending hne' hphase'
  refine ⟨table, table', htable, htable', ?_⟩
  intro k hk
  rw [ownerId_ascending hne hphase htable, ownerId_ascending hne' hphase' htable']
  obtain ⟨hhanded, hturns⟩ := h
  obtain ⟨front, back, rfl, hwithout, hplace⟩ := split_of_mem hmem hids
  rw [hplace] at hhanded
  rw [hwithout] at hphase' hturns ⊢
  have htracks := tracks_of_stable m.toNat_lt hphase hhanded.stable
  have htracks' := tracks_of_stable m.toNat_lt hphase' (stable_without hhanded)
  have hkept := hhanded.kept k (Finset.mem_range.mpr hk)
  cases hgiven : share k with
  | none =>
      have hleft : share' k = none := by
        rw [hkept (by simp [Sharing.owner, hgiven]), hgiven, Option.map_none]
      rw [htracks.ownerId_of_left hk hgiven, htracks'.ownerId_of_left hk hleft]
      exact hturns k (by simpa [leftOver, hgiven] using hk)
  | some u =>
      rw [htracks.ownerId_of_given hk hgiven]
      intro hother
      have howner :
          (sharing (front ++ b :: back) m.toNat).owner share k ≠ some front.length := by
        intro howner
        simp [howner] at hother
      rw [htracks'.ownerId_of_given hk (by rw [hkept howner, hgiven, Option.map_some]),
        owner_without hhanded hk howner]

/-! ## Residues that differ -/

/-- No two backends have a residue in common in the rounds in which it is their only slot. -/
def Apart (backends : List Backend) (m : Nat) : Prop :=
  ∀ prime ∈ earlyPrimes m, ∀ visit ∈ visits backends,
    visit.2.toNat % prime ∈ ownSlots backends m visit.1

instance (backends : List Backend) (m : Nat) : Decidable (Apart backends m) := by
  unfold Apart
  infer_instance

/-- With its quota in hand after these rounds a backend gets nothing later. -/
theorem early_of_given {backends : List Backend} {m : Nat} {share : Sharing.ShareOut Nat}
    (hstable : (sharing backends m).Stable share) {i k : Nat}
    (hown : m / backends.length ≤ (ownSlots backends m i).card) (hk : k < m)
    (howner : (sharing backends m).owner share k = some i) :
    ∃ prime ∈ earlyPrimes m, ∃ visit ∈ visits backends,
      visit.1 = i ∧ visit.2.toNat % prime = k := by
  obtain ⟨u, hu, hagent⟩ := Option.bind_eq_some_iff.mp howner
  obtain ⟨-, d, hd, hreach, hquota⟩ := hstable.served k (Finset.mem_range.mpr hk) u hu
  obtain rfl : d.agent = i := by
    rwa [Sharing.agentAt, Option.mem_def.mp hd, Option.map_some, Option.some.injEq] at hagent
  have hlt : u < (demandsOf backends m (earlyPrimes m)).length := by
    by_contra hge
    exact hquota (held_early hstable hown (Nat.le_of_not_lt hge))
  obtain ⟨prime, hprime, visit, hvisit, rfl⟩ := mem_early_of_lt hlt hd
  exact ⟨prime, hprime, visit, hvisit, rfl, (mem_reach_early hprime).mp hreach⟩

/-- Nobody else wants the slots of `b`. -/
theorem expendable_of_apart {backends : List Backend} {m : Nat} {b : Backend}
    (hm : m < 2 ^ 32) (hapart : Apart backends m)
    (hown : ∀ i < backends.length, m / backends.length ≤ (ownSlots backends m i).card)
    (hrest : m % backends.length = 0) (hquota : m / backends.length = m / (backends.length - 1))
    (hplace : place backends b < backends.length) :
    ∃ share share', Expendable backends m b share share' := by
  obtain ⟨p, hphase, hvalid⟩ := coordinatePhase_returns backends m
  obtain ⟨share, hshare⟩ := coordinatePhase_shares hm hphase
  have hstable : (sharing backends m).Stable share := hshare.stable
  refine ⟨share, (sharing backends m).withdraw share (place backends b), ?_, ?_⟩
  · rw [← hquota]
    refine hstable.handedOn ?_
    intro t _ d hd hb hleft k hk hreach howner
    have hlt : t < (demandsOf backends m (earlyPrimes m)).length := by
      by_contra hge
      exact hleft (held_early hshare.stable (hown _ (agent_lt (List.mem_of_getElem? hd)))
        (Nat.le_of_not_lt hge))
    obtain ⟨prime, hprime, visit, hvisit, rfl⟩ := mem_early_of_lt hlt hd
    rw [mem_reach_early hprime] at hreach
    obtain ⟨prime', hprime', visit', hvisit', hagent, hresidue⟩ :=
      early_of_given hshare.stable (hown _ hplace) (Finset.mem_range.mp hk) howner
    obtain ⟨-, -, halone⟩ := Finset.mem_filter.mp (hapart prime hprime visit hvisit)
    have hsame := halone prime' hprime' visit' hvisit' (hresidue.trans hreach.symm)
    exact hb (hsame.symm.trans hagent)
  · have hlength : p.unset.length = m % backends.length :=
      length_unset_of_claimed hvalid fun i hi => by
        rw [hshare.claimed_eq]
        exact held_of_ownSlots hshare.stable (hown i hi)
    rw [hrest, hshare.unset_eq, List.length_eq_zero_iff] at hlength
    rw [hlength]
    simp

/-- Four backends with the residues 0 and 5, 1 and 6, 2 and 7, 3 and 4. -/
def apartBackends : List Backend :=
  [coordinateBackend 0 5 0 5, coordinateBackend 1 6 1 6, coordinateBackend 2 247 2 247,
    coordinateBackend 3 4 3 4]

/-- Three backends, the last of which holds the slots 2 and 3 of seven. -/
def threeBackends : List Backend :=
  [coordinateBackend 1 1 1 4, coordinateBackend 4 0 5 7, coordinateBackend 9 11 10 5]

end Udplb.Rlt
