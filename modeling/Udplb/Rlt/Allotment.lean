import Mathlib.Data.Nat.Count
import Udplb.Foundation.ShareOut
import Udplb.Rlt.Claims

/-!
# The coordinate phase as a share-out

Seen from outside, the coordinate phase shares out the slots.  A coordinate demands, in the
round of a prime, the multiples of its residue; the demands come in the order of the loops,
and the quota of a backend is `m / n`.  Which demands there are depends on the coordinates
and on `m` only.  The phase arrives at the stable share-out: the early end of the rounds, the
test of the quota before a coordinate and the wrap of the counter make no difference to it.
-/

namespace Udplb.Rlt

open Udplb.Foundation

/-- The coordinates with the index of their backend, in the order of the loops. -/
def visits (backends : List Backend) : List (Nat × UInt32) :=
  backends.zipIdx.flatMap fun entry => entry.1.coordinates.toList.map (Prod.mk entry.2)

def demand (m prime : Nat) (visit : Nat × UInt32) : Demand Nat Nat where
  agent := visit.1
  reach := (Finset.range (m / prime)).image fun k => (k + 1) * (visit.2.toNat % prime)

/-- The primes of the rounds from `prime` on, if none of them is left out. -/
def roundPrimes (prime : Nat) : List Nat := prime :: primes.reverse.filter (· < prime)

def demandsOf (backends : List Backend) (m : Nat) (rounds : List Nat) : List (Demand Nat Nat) :=
  rounds.flatMap fun prime => (visits backends).map (demand m prime)

def sharing (backends : List Backend) (m : Nat) : Sharing Nat Nat where
  demands := demandsOf backends m (roundPrimes m)
  items := Finset.range m
  quota := m / backends.length

/-! ## The claims of a coordinate -/

/-- Backend `i` has claimed what was unset of `slots`. -/
structure Claims (i : Nat) (slots : List Nat) (p p' : Progress) : Prop where
  unset_iff : ∀ k, k ∈ p'.unset ↔ k ∈ p.unset ∧ k ∉ slots
  out_claimed : ∀ k ∈ p.unset, k ∈ slots → p'.out[k]? = some i
  out_kept : ∀ k, ¬(k ∈ p.unset ∧ k ∈ slots) → p'.out[k]? = p.out[k]?

theorem claimSlot_claims {n m i idx : Nat} {p p' : Progress} (hp : p.Valid n m)
    (h : claimSlot i p idx = .ok p') : Claims i [idx] p p' := by
  unfold claimSlot at h
  split at h
  · rename_i hidx
    split at h
    · rename_i hlt
      cases h
      refine ⟨?_, ?_, ?_⟩
      · intro k
        rw [hp.nodup_unset.mem_erase_iff, List.mem_singleton, and_comm]
      · intro k _ hk
        rw [List.mem_singleton.mp hk, List.getElem?_set_self hlt]
      · intro k hk
        refine List.getElem?_set_ne ?_
        rintro rfl
        exact hk ⟨hidx, List.mem_singleton_self _⟩
    · cases h
  · rename_i hidx
    cases h
    have hnone : ∀ k ∈ p.unset, k ∉ [idx] := by
      rintro k hk hmem
      exact hidx (List.mem_singleton.mp hmem ▸ hk)
    exact ⟨fun k => ⟨fun hk => ⟨hk, hnone k hk⟩, And.left⟩,
      fun k hk hmem => absurd hmem (hnone k hk), fun _ _ => rfl⟩

theorem Claims.cons {i idx : Nat} {slots : List Nat} {p p' p'' : Progress}
    (hfirst : Claims i [idx] p p') (hrest : Claims i slots p' p'') :
    Claims i (idx :: slots) p p'' := by
  refine ⟨?_, ?_, ?_⟩
  · intro k
    rw [hrest.unset_iff, hfirst.unset_iff, List.mem_singleton, List.mem_cons, not_or, and_assoc]
  · intro k hk hmem
    by_cases hkept : k ∈ p'.unset ∧ k ∈ slots
    · exact hrest.out_claimed k hkept.1 hkept.2
    · rw [hrest.out_kept k hkept]
      refine hfirst.out_claimed k hk ?_
      by_contra hne
      have hunset := (hfirst.unset_iff k).mpr ⟨hk, hne⟩
      rcases List.mem_cons.mp hmem with rfl | hmem
      · exact hne (List.mem_singleton_self _)
      · exact hkept ⟨hunset, hmem⟩
  · intro k hk
    have hlater : ¬(k ∈ p'.unset ∧ k ∈ slots) := by
      rintro ⟨hunset, hmem⟩
      exact hk ⟨((hfirst.unset_iff k).mp hunset).1, List.mem_cons_of_mem _ hmem⟩
    have hnow : ¬(k ∈ p.unset ∧ k ∈ [idx]) := by
      rintro ⟨hunset, hmem⟩
      exact hk ⟨hunset, List.mem_singleton.mp hmem ▸ List.mem_cons_self⟩
    rw [hrest.out_kept k hlater, hfirst.out_kept k hnow]

theorem claimSlots_claims {n m i : Nat} (hi : i < n) {slots : List Nat} {p p' : Progress}
    (hp : p.Valid n m) (h : slots.foldlM (claimSlot i) p = .ok p') : Claims i slots p p' := by
  induction slots generalizing p with
  | nil =>
      cases h
      exact ⟨by simp, by simp, fun _ _ => rfl⟩
  | cons idx slots ih =>
      rw [List.foldlM_cons, bind_eq_ok] at h
      obtain ⟨p₁, hfirst, hrest⟩ := h
      have hp₁ := (claimSlot_valid hi hp).of_eq_ok hfirst
      exact (claimSlot_claims hp hfirst).cons (ih hp₁ hrest)

/-- The multiples of a residue fit 32 bits. -/
theorem claimMultiples_eq {m prime i c : Nat} (hm : m < 2 ^ 32) (hprime : prime ≠ 0)
    (p : Progress) :
    claimMultiples m prime i (c % prime) p =
      ((List.range (m / prime)).map fun k => (k + 1) * (c % prime)).foldlM (claimSlot i) p := by
  have hfits : ((List.range (m / prime)).map fun k => uint32 ((k + 1) * (c % prime))) =
      (List.range (m / prime)).map fun k => (k + 1) * (c % prime) := by
    apply List.map_congr_left
    intro k hk
    exact Nat.mod_eq_of_lt
      (Nat.lt_trans (multiple_lt hprime (List.mem_range.mp hk)) hm)
  rw [← hfits, List.foldlM_map]
  rfl

/-! ## The phase and the shares -/

/-- The progress of the phase when the demands before `t` have been served. -/
structure Tracks (backends : List Backend) (m : Nat) (share : Sharing.ShareOut Nat) (t : Nat)
    (p : Progress) : Prop where
  stable : (sharing backends m).StableUpTo share t
  balanced : Balanced backends.length m p
  unset_iff : ∀ k < m, k ∈ p.unset ↔ share k = none
  out_eq : ∀ k < m, ∀ u ∈ share k, p.out[k]? = (sharing backends m).agentAt u

section Tracks

variable {backends : List Backend} {m t : Nat} {share : Sharing.ShareOut Nat} {p p' : Progress}

theorem tracks_init (backends : List Backend) (hm : m < 2 ^ 32) :
    Tracks backends m (fun _ => none) 0 (Progress.init backends.length m) where
  stable := Sharing.stableUpTo_zero _
  balanced := balanced_init _ hm
  unset_iff := by simp [Progress.init]
  out_eq := by simp

/-- The slots that are given to nobody, in ascending order. -/
def leftOver (m : Nat) (share : Sharing.ShareOut Nat) : List Nat :=
  (List.range m).filter (share · = none)

theorem Tracks.unset_eq (h : Tracks backends m share t p) : p.unset = leftOver m share := by
  rw [h.balanced.unset_eq, leftOver]
  apply List.filter_congr
  intro k hk
  simp only [h.unset_iff k (List.mem_range.mp hk)]

theorem Tracks.claimed_eq (h : Tracks backends m share t p) (i : Nat) :
    p.claimed i = ((sharing backends m).held share i t).card := by
  have hcount : ((sharing backends m).held share i t).card = (List.range m).countP fun k =>
      ∃ u ∈ share k, u < t ∧ (sharing backends m).agentAt u = some i := by
    rw [← Nat.count, Nat.count_eq_card_filter_range]
    rfl
  rw [Progress.claimed, h.balanced.valid.length_out, hcount]
  apply List.countP_congr
  intro k hk
  have hk := List.mem_range.mp hk
  simp only [decide_eq_true_eq, h.unset_iff k hk]
  constructor
  · rintro ⟨hsome, hout⟩
    obtain ⟨u, hu⟩ := Option.ne_none_iff_exists'.mp hsome
    refine ⟨u, hu, (h.stable.served k (Finset.mem_range.mpr hk) u hu).1, ?_⟩
    rw [← h.out_eq k hk u hu, hout]
  · rintro ⟨u, hu, -, hagent⟩
    refine ⟨by simp [Option.mem_def.mp hu], ?_⟩
    rw [h.out_eq k hk u hu, hagent]

/-- A coordinate is passed over exactly when its backend holds the quota. -/
theorem Tracks.spent_iff (hm : m < 2 ^ 32) (h : Tracks backends m share t p) {i : Nat}
    (hi : i < backends.length) :
    p.distribution.getD i 0 < 1 ↔
      ((sharing backends m).held share i t).card = (sharing backends m).quota := by
  rw [h.balanced.spent_iff hm hi, h.claimed_eq]
  rfl

theorem claimCoordinate_balanced {n prime i : Nat} {coord : UInt32} (hi : i < n)
    (hp : Balanced n m p) (hp' : claimCoordinate m prime i p coord = .ok p') :
    Balanced n m p' :=
  claimCoordinate_keeps (fun _ _ _ hclaim hp => claimSlot_balanced hi hclaim hp) hp' hp

theorem Tracks.give (hm : m < 2 ^ 32) (h : Tracks backends m share t p) {prime : Nat}
    {visit : Nat × UInt32} (hprime : prime ≠ 0)
    (hdemand : (sharing backends m).demands[t]? = some (demand m prime visit))
    (hleft : ((sharing backends m).held share visit.1 t).card ≠ (sharing backends m).quota)
    (hbalanced : Balanced backends.length m p') (hi : visit.1 < backends.length)
    (hp' : claimMultiples m prime visit.1 (visit.2.toNat % prime) p = .ok p') :
    Tracks backends m (Sharing.give share (demand m prime visit) t) (t + 1) p' := by
  rw [claimMultiples_eq hm hprime] at hp'
  have hclaims := claimSlots_claims hi h.balanced.valid hp'
  have hreach : ∀ k, k ∈ (List.range (m / prime)).map
      (fun k => (k + 1) * (visit.2.toNat % prime)) ↔ k ∈ (demand m prime visit).reach := by
    simp [demand]
  refine ⟨h.stable.give hdemand hleft, hbalanced, ?_, ?_⟩
  · intro k hk
    rw [hclaims.unset_iff, hreach, h.unset_iff k hk, Sharing.give]
    split
    · rename_i hfree
      simp [hfree.2]
    · rename_i hkept
      constructor
      · exact And.left
      · exact fun hnone => ⟨hnone, fun hmem => hkept ⟨hnone, hmem⟩⟩
  · intro k hk u hu
    by_cases hfree : share k = none ∧ k ∈ (demand m prime visit).reach
    · rw [Sharing.give, if_pos hfree, Option.mem_some_iff] at hu
      subst hu
      rw [hclaims.out_claimed k ((h.unset_iff k hk).mpr hfree.1) ((hreach k).mpr hfree.2),
        Sharing.agentAt, hdemand]
      rfl
    · rw [Sharing.give, if_neg hfree] at hu
      rw [hclaims.out_kept, h.out_eq k hk u hu]
      rw [h.unset_iff k hk, hreach]
      exact hfree

theorem Tracks.coordinate (hm : m < 2 ^ 32) (h : Tracks backends m share t p) {prime : Nat}
    {visit : Nat × UInt32}
    (hdemand : (sharing backends m).demands[t]? = some (demand m prime visit))
    (hi : visit.1 < backends.length)
    (hp' : claimCoordinate m prime visit.1 p visit.2 = .ok p') :
    ∃ share', Tracks backends m share' (t + 1) p' := by
  have hbalanced := claimCoordinate_balanced hi h.balanced hp'
  unfold claimCoordinate at hp'
  split at hp'
  · rename_i hspent
    cases hp'
    refine ⟨share, h.stable.skip (Nat.le_succ t) ?_, h.balanced, h.unset_iff, h.out_eq⟩
    intro u hu hlt d hd
    cases Nat.le_antisymm hu (Nat.lt_succ_iff.mp hlt)
    cases hdemand.symm.trans hd
    exact (h.spent_iff hm hi).mp hspent
  · rename_i hleft
    split at hp'
    · cases hp'
    · rename_i hprime
      exact ⟨_, h.give hm hprime hdemand (fun hfull => hleft ((h.spent_iff hm hi).mpr hfull))
        hbalanced hi hp'⟩

/-! ## Rounds -/

theorem visit_lt {visit : Nat × UInt32} (hvisit : visit ∈ visits backends) :
    visit.1 < backends.length := by
  simp only [visits, List.mem_flatMap, List.mem_map] at hvisit
  obtain ⟨⟨backend, i⟩, hmem, coord, -, rfl⟩ := hvisit
  exact index_lt_of_mem_zipIdx hmem

theorem claimRound_eq (backends : List Backend) (m prime : Nat) (p : Progress) :
    claimRound backends m prime p =
      (visits backends).foldlM (fun p visit => claimCoordinate m prime visit.1 p visit.2) p := by
  rw [visits, foldlM_flatMap]
  simp only [List.foldlM_map]
  rfl

theorem Tracks.round (hm : m < 2 ^ 32) {prime : Nat} {todo : List (Nat × UInt32)}
    {rest : List (Demand Nat Nat)} (h : Tracks backends m share t p)
    (hdrop : (sharing backends m).demands.drop t = todo.map (demand m prime) ++ rest)
    (htodo : ∀ visit ∈ todo, visit.1 < backends.length)
    (hp' : todo.foldlM (fun p visit => claimCoordinate m prime visit.1 p visit.2) p = .ok p') :
    ∃ share' t', Tracks backends m share' t' p' ∧ (sharing backends m).demands.drop t' = rest := by
  induction todo generalizing share t p with
  | nil =>
      cases hp'
      exact ⟨share, t, h, hdrop⟩
  | cons visit todo ih =>
      rw [List.foldlM_cons, bind_eq_ok] at hp'
      obtain ⟨p₁, hfirst, hrest⟩ := hp'
      rw [List.map_cons, List.cons_append] at hdrop
      have hdemand : (sharing backends m).demands[t]? = some (demand m prime visit) := by
        rw [← Nat.add_zero t, ← List.getElem?_drop, hdrop]
        rfl
      obtain ⟨share₁, h₁⟩ := h.coordinate hm hdemand (htodo visit (by simp)) hfirst
      refine ih h₁ ?_ (fun v hv => htodo v (List.mem_cons_of_mem _ hv)) hrest
      rw [← List.drop_drop, hdrop]
      rfl

/-- The primes of a descending list below a bound, from the first of them on. -/
theorem filter_lt_of_pairwise {entries : List Nat} (hdescending : entries.Pairwise (· > ·))
    (bound : Nat) :
    entries.filter (· < bound) =
      match entries.find? (· < bound) with
      | some first => first :: entries.filter (· < first)
      | none => [] := by
  induction entries with
  | nil => rfl
  | cons entry entries ih =>
      obtain ⟨hbelow, hdescending⟩ := List.pairwise_cons.mp hdescending
      by_cases hentry : entry < bound
      · have hall : entries.filter (· < bound) = entries.filter (· < entry) := by
          apply List.filter_congr
          intro x hx
          have := hbelow x hx
          simp only [decide_eq_decide]
          omega
        simp [hentry, hall]
      · rw [List.filter_cons_of_neg (by simpa using hentry), ih hdescending,
          List.find?_cons_of_neg (by simpa using hentry)]
        cases hfind : entries.find? (· < bound) with
        | none => rfl
        | some first =>
            have hfirst : first < bound := by simpa using List.find?_some hfind
            have hlast : ¬entry < first := by omega
            simp [hlast]

theorem roundPrimes_eq (prime : Nat) :
    roundPrimes prime = prime ::
      if (nextPrime prime).2 = true then roundPrimes (nextPrime prime).1 else [] := by
  have hdescending : primes.reverse.Pairwise (· > ·) := by decide
  rw [roundPrimes, filter_lt_of_pairwise hdescending, nextPrime]
  cases primes.reverse.find? (· < prime) <;> rfl

theorem agent_lt {rounds : List Nat} {d : Demand Nat Nat}
    (hd : d ∈ demandsOf backends m rounds) : d.agent < backends.length := by
  simp only [demandsOf, List.mem_flatMap, List.mem_map] at hd
  obtain ⟨prime, -, visit, hvisit, rfl⟩ := hd
  exact visit_lt hvisit

/-- No quota is left for the demands that are still to come. -/
theorem Tracks.finish (hm : m < 2 ^ 32) (h : Tracks backends m share t p)
    (hend : isNotFullyDistributed p.distribution = false ∨
      (sharing backends m).demands.drop t = []) :
    Tracks backends m share (sharing backends m).demands.length p := by
  refine ⟨?_, h.balanced, h.unset_iff, h.out_eq⟩
  rcases hend with hspent | hdone
  · have hfull : ∀ d ∈ (sharing backends m).demands,
        ((sharing backends m).held share d.agent t).card = (sharing backends m).quota := by
      intro d hd
      refine (h.spent_iff hm (agent_lt hd)).mp ?_
      rw [isNotFullyDistributed, List.any_eq_false] at hspent
      rw [List.getD_eq_getElem?_getD]
      cases hget : p.distribution[d.agent]? with
      | none => simp
      | some quota => simpa using hspent quota (List.mem_of_getElem? hget)
    exact (h.stable.skip (Nat.le_max_left t _)
      fun u _ _ d hd => hfull d (List.mem_of_getElem? hd)).stable (Nat.le_max_right _ _)
  · exact h.stable.stable (List.drop_eq_nil_iff.mp hdone)

theorem Tracks.rounds (hm : m < 2 ^ 32) (prime : Nat) (h : Tracks backends m share t p)
    (hdrop : (sharing backends m).demands.drop t = demandsOf backends m (roundPrimes prime))
    (hp' : coordinateRounds backends m prime p = .ok p') :
    ∃ share', Tracks backends m share' (sharing backends m).demands.length p' := by
  induction prime using Nat.strongRecOn generalizing share t p with
  | ind prime ih =>
      rw [coordinateRounds, bind_eq_ok] at hp'
      obtain ⟨p₁, hround, hrest⟩ := hp'
      rw [claimRound_eq] at hround
      rw [roundPrimes_eq, demandsOf, List.flatMap_cons] at hdrop
      obtain ⟨share₁, t₁, h₁, hdrop₁⟩ :=
        h.round hm hdrop (fun visit hvisit => visit_lt hvisit) hround
      split at hrest
      · rename_i hnext
        rw [if_pos hnext.1] at hdrop₁
        exact ih _ (nextPrime_lt hnext.1) h₁ hdrop₁ hrest
      · rename_i hnext
        cases hrest
        refine ⟨share₁, h₁.finish hm ?_⟩
        cases hdistributed : isNotFullyDistributed p'.distribution with
        | false => exact Or.inl rfl
        | true =>
            rw [if_neg fun hmore => hnext ⟨hmore, hdistributed⟩] at hdrop₁
            exact Or.inr hdrop₁

/-- The coordinate phase arrives at a stable share-out. -/
theorem coordinatePhase_shares (hm : m < 2 ^ 32)
    (hphase : coordinatePhase backends m = .ok p) :
    ∃ share, Tracks backends m share (sharing backends m).demands.length p :=
  (tracks_init backends hm).rounds hm m rfl hphase

/-- Any stable share-out is the one that the coordinate phase arrives at. -/
theorem tracks_of_stable (hm : m < 2 ^ 32) (hphase : coordinatePhase backends m = .ok p)
    (hstable : (sharing backends m).Stable share) :
    Tracks backends m share (sharing backends m).demands.length p := by
  obtain ⟨share', h⟩ := coordinatePhase_shares hm hphase
  have heq : ∀ k < m, share k = share' k := fun k hk =>
    hstable.unique h.stable (Finset.mem_range.mpr hk)
  refine ⟨hstable, h.balanced, ?_, ?_⟩
  · intro k hk
    rw [heq k hk]
    exact h.unset_iff k hk
  · intro k hk
    rw [heq k hk]
    exact h.out_eq k hk

/-- There always is a stable share-out; that there is one only says `Stable.unique`. -/
theorem exists_stable (backends : List Backend) (hm : m < 2 ^ 32) :
    ∃ share, (sharing backends m).Stable share := by
  obtain ⟨p, hphase, -⟩ := coordinatePhase_returns backends m
  obtain ⟨share, h⟩ := coordinatePhase_shares hm hphase
  exact ⟨share, h.stable⟩

end Tracks

/-! ## Slots of one's own -/

/-- The rounds in which a coordinate reaches one slot only. -/
def earlyPrimes (m : Nat) : List Nat := (roundPrimes m).filter (m < 2 * ·)

/-- The residues of its coordinates in these rounds that a backend has to itself. -/
def ownSlots (backends : List Backend) (m i : Nat) : Finset Nat :=
  {k ∈ Finset.range m |
    (∃ prime ∈ earlyPrimes m, ∃ visit ∈ visits backends,
      visit.1 = i ∧ visit.2.toNat % prime = k) ∧
    ∀ prime ∈ earlyPrimes m, ∀ visit ∈ visits backends, visit.2.toNat % prime = k → visit.1 = i}

/-- The multiples of the residues of its coordinates, over all rounds. -/
def reachable (backends : List Backend) (m i : Nat) : Finset Nat :=
  {k ∈ Finset.range m |
    ∃ prime ∈ roundPrimes m, ∃ visit ∈ visits backends, visit.1 = i ∧
      ∃ j < m / prime, (j + 1) * (visit.2.toNat % prime) = k}

theorem filter_append_filter_of_pairwise {entries : List Nat} {p : Nat → Bool}
    (hdescending : entries.Pairwise (· > ·)) (hp : ∀ x y, y < x → p y = true → p x = true) :
    entries.filter p ++ entries.filter (fun x => !p x) = entries := by
  induction entries with
  | nil => rfl
  | cons entry entries ih =>
      obtain ⟨hbelow, hdescending⟩ := List.pairwise_cons.mp hdescending
      by_cases hentry : p entry = true
      · simp [hentry, ih hdescending]
      · have hnone : ∀ x ∈ entries, ¬p x = true := fun x hx hpx =>
          hentry (hp entry x (hbelow x hx) hpx)
        have hall : ∀ x ∈ entries, (!p x) = true := fun x hx => by simpa using hnone x hx
        rw [List.filter_cons_of_neg hentry, List.filter_cons_of_pos (by simpa using hentry),
          List.filter_eq_nil_iff.mpr hnone, List.filter_eq_self.mpr hall, List.nil_append]

section Own

variable {backends : List Backend} {m : Nat} {share : Sharing.ShareOut Nat}

theorem earlyPrimes_append (m : Nat) :
    ∃ late, roundPrimes m = earlyPrimes m ++ late := by
  have hdescending : primes.reverse.Pairwise (· > ·) := by decide
  have hrounds : (roundPrimes m).Pairwise (· > ·) := by
    refine List.pairwise_cons.mpr ⟨?_, hdescending.filter _⟩
    intro prime hprime
    simpa using (List.mem_filter.mp hprime).2
  refine ⟨_, (filter_append_filter_of_pairwise hrounds ?_).symm⟩
  intro x y hlt hy
  simp only [decide_eq_true_eq] at hy ⊢
  omega

theorem mem_earlyPrimes {prime : Nat} (hprime : prime ∈ earlyPrimes m) :
    prime ≤ m ∧ m < 2 * prime := by
  obtain ⟨hround, hlt⟩ := List.mem_filter.mp hprime
  refine ⟨?_, by simpa using hlt⟩
  rcases List.mem_cons.mp hround with rfl | hround
  · exact Nat.le_refl _
  · exact Nat.le_of_lt (by simpa using (List.mem_filter.mp hround).2)

theorem mem_reach_early {prime : Nat} (hprime : prime ∈ earlyPrimes m) {visit : Nat × UInt32}
    {k : Nat} : k ∈ (demand m prime visit).reach ↔ visit.2.toNat % prime = k := by
  obtain ⟨hle, hlt⟩ := mem_earlyPrimes hprime
  have hone : m / prime = 1 := Nat.div_eq_of_lt_le (by omega) (by omega)
  simp [demand, hone, eq_comm]

theorem mem_early_iff {d : Demand Nat Nat} :
    d ∈ demandsOf backends m (earlyPrimes m) ↔
      ∃ prime ∈ earlyPrimes m, ∃ visit ∈ visits backends, demand m prime visit = d := by
  simp [demandsOf]

theorem demands_early (backends : List Backend) (m : Nat) :
    ∃ late, (sharing backends m).demands = demandsOf backends m (earlyPrimes m) ++ late := by
  obtain ⟨late, hlate⟩ := earlyPrimes_append m
  refine ⟨demandsOf backends m late, ?_⟩
  rw [sharing, hlate, demandsOf, List.flatMap_append]
  rfl

theorem mem_early_of_lt {u : Nat} (hu : u < (demandsOf backends m (earlyPrimes m)).length)
    {d : Demand Nat Nat} (hd : d ∈ (sharing backends m).demands[u]?) :
    ∃ prime ∈ earlyPrimes m, ∃ visit ∈ visits backends, demand m prime visit = d := by
  obtain ⟨late, hlate⟩ := demands_early backends m
  rw [hlate, List.getElem?_append_left hu] at hd
  exact mem_early_iff.mp (List.mem_of_getElem? hd)

/-- A backend with enough slots of its own has its quota after these rounds. -/
theorem held_early (hstable : (sharing backends m).Stable share) {i : Nat}
    (hown : m / backends.length ≤ (ownSlots backends m i).card) {t : Nat}
    (ht : (demandsOf backends m (earlyPrimes m)).length ≤ t) :
    ((sharing backends m).held share i t).card = m / backends.length := by
  obtain ⟨late, hlate⟩ := demands_early backends m
  refine hstable.held_of_full ?_ ht
  refine hstable.held_of_own (demandsOf backends m (earlyPrimes m)).length
    (ownSlots backends m i) ?_ ?_ ?_ ?_ ?_ hown
  · rw [hlate, List.length_append]
    exact Nat.le_add_right _ _
  · intro u hu d hd
    obtain ⟨prime, hprime, visit, -, rfl⟩ := mem_early_of_lt hu hd
    refine Finset.card_le_one.mpr fun k hk k' hk' => ?_
    rw [mem_reach_early hprime] at hk hk'
    exact hk.symm.trans hk'
  · exact Finset.filter_subset _ _
  · intro k hk
    obtain ⟨-, ⟨prime, hprime, visit, hvisit, hi, hresidue⟩, -⟩ := Finset.mem_filter.mp hk
    obtain ⟨u, hu⟩ := List.mem_iff_getElem?.mp
      (mem_early_iff.mpr ⟨prime, hprime, visit, hvisit, rfl⟩)
    have hlt := (List.getElem?_eq_some_iff.mp hu).1
    refine ⟨u, hlt, _, ?_, hi, (mem_reach_early hprime).mpr hresidue⟩
    rw [hlate, List.getElem?_append_left hlt]
    exact hu
  · intro k hk u hu d hd hreach
    obtain ⟨-, -, halone⟩ := Finset.mem_filter.mp hk
    obtain ⟨prime, hprime, visit, hvisit, rfl⟩ := mem_early_of_lt hu hd
    exact halone prime hprime visit hvisit ((mem_reach_early hprime).mp hreach)

/-- A backend with enough slots of its own gets exactly its quota. -/
theorem held_of_ownSlots (hstable : (sharing backends m).Stable share) {i : Nat}
    (hown : m / backends.length ≤ (ownSlots backends m i).card) :
    ((sharing backends m).held share i (sharing backends m).demands.length).card =
      m / backends.length := by
  obtain ⟨late, hlate⟩ := demands_early backends m
  refine held_early hstable hown ?_
  rw [hlate, List.length_append]
  exact Nat.le_add_right _ _

/-- A backend gets only slots that it can reach. -/
theorem held_le_reachable (hstable : (sharing backends m).Stable share) (i t : Nat) :
    ((sharing backends m).held share i t).card ≤ (reachable backends m i).card := by
  refine Finset.card_le_card fun k hk => ?_
  refine Finset.mem_filter.mpr ⟨(Sharing.mem_held.mp hk).1, ?_⟩
  obtain ⟨d, hd, rfl, hreach⟩ := hstable.exists_demand hk
  simp only [sharing, demandsOf, List.mem_flatMap, List.mem_map] at hd
  obtain ⟨prime, hprime, visit, hvisit, rfl⟩ := hd
  obtain ⟨j, hj, rfl⟩ := Finset.mem_image.mp hreach
  exact ⟨prime, hprime, visit, hvisit, rfl, j, Finset.mem_range.mp hj, rfl⟩

end Own

end Udplb.Rlt
