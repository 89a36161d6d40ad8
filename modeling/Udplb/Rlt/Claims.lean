import Mathlib.Algebra.BigOperators.Group.Finset.Piecewise
import Mathlib.Data.Nat.ModEq
import Udplb.Rlt.ReverseCoordinates

/-!
# Claims and quotas

What a backend holds during the coordinate phase, and the counter of its quota.  A claim
moves one unit from the counter to the holding, in 32 bits.
-/

namespace Udplb.Rlt

open Udplb.Foundation

/-- Slots that backend `i` holds after the coordinate phase. -/
def Progress.claimed (p : Progress) (i : Nat) : Nat :=
  (List.range p.out.length).countP fun k => k ∉ p.unset ∧ p.out[k]? = some i

theorem filter_unset_perm {n m : Nat} {p : Progress} (hp : p.Valid n m) :
    ((List.range m).filter (· ∈ p.unset)).Perm p.unset := by
  rw [List.perm_ext_iff_of_nodup (List.nodup_range.filter _) hp.nodup_unset]
  intro k
  simpa using hp.unset_lt k

theorem claimed_eq_countP_filter {n m : Nat} {p : Progress} (hp : p.Valid n m)
    (i : Nat) :
    p.claimed i =
      ((List.range m).filter (· ∉ p.unset)).countP (p.out[·]? = some i) := by
  rw [Progress.claimed, hp.length_out, List.countP_filter]
  apply List.countP_congr
  intro k _
  simp [and_comm]

theorem getD_set {α : Type} {l : List α} {i : Nat} (hi : i < l.length) (j : Nat)
    (x d : α) : (l.set i x).getD j d = if j = i then x else l.getD j d := by
  rw [List.getD_eq_getElem?_getD]
  by_cases hji : j = i
  · rw [if_pos hji, hji, List.getElem?_set_self hi, Option.getD_some]
  · rw [if_neg hji, List.getElem?_set_ne (Ne.symm hji), ← List.getD_eq_getElem?_getD]

theorem countP_succ_of_eq_off {q r : Nat → Bool} {slots : List Nat} {idx : Nat}
    (hnodup : slots.Nodup) (hidx : idx ∈ slots) (hq : q idx = false)
    (hr : r idx = true) (hoff : ∀ k, k ≠ idx → q k = r k) :
    slots.countP r = slots.countP q + 1 := by
  have hperm := List.perm_cons_erase hidx
  rw [hperm.countP_eq r, hperm.countP_eq q, List.countP_cons_of_pos hr,
    List.countP_cons_of_neg (by simp [hq])]
  congr 1
  apply List.countP_congr
  intro k hk
  rw [hoff k (hnodup.mem_erase_iff.mp hk).1]

theorem claimed_claim {n m idx i : Nat} {p : Progress} (hp : p.Valid n m)
    (hidx : idx ∈ p.unset) (distribution : List Nat) (j : Nat) :
    (Progress.mk (p.out.set idx i) (p.unset.erase idx) distribution).claimed j =
      p.claimed j + if j = i then 1 else 0 := by
  have hlt : idx < p.out.length := by
    rw [hp.length_out]
    exact hp.unset_lt idx hidx
  have hgone : idx ∉ p.unset.erase idx := hp.nodup_unset.not_mem_erase
  have hoff : ∀ k, k ≠ idx →
      (k ∉ p.unset ∧ p.out[k]? = some j ↔
        k ∉ p.unset.erase idx ∧ (p.out.set idx i)[k]? = some j) := by
    intro k hk
    rw [List.mem_erase_of_ne hk, List.getElem?_set_ne (Ne.symm hk)]
  unfold Progress.claimed
  simp only [List.length_set]
  by_cases hj : j = i
  · rw [if_pos hj]
    refine countP_succ_of_eq_off List.nodup_range (List.mem_range.mpr hlt) ?_ ?_ ?_
    · simp [hidx]
    · simp [hgone, hlt, hj]
    · intro k hk
      simp only [hoff k hk]
  · rw [if_neg hj, Nat.add_zero]
    apply List.countP_congr
    intro k _
    by_cases hk : k = idx
    · subst hk
      simp [hidx, hlt, Ne.symm hj]
    · simp only [hoff k hk]

/-- A claim moves one unit from the quota of its backend, in 32 bits. -/
structure Balanced (n m : Nat) (p : Progress) : Prop where
  valid : p.Valid n m
  length_distribution : p.distribution.length = n
  balance : ∀ i < n, p.claimed i + p.distribution.getD i 0 ≡ m / n [MOD 2 ^ 32]
  quota_lt : ∀ i, p.distribution.getD i 0 < 2 ^ 32
  unset_sublist : p.unset.Sublist (List.range m)

theorem claimed_add_quota_init {n i : Nat} (m : Nat) (hi : i < n) :
    (Progress.init n m).claimed i + (Progress.init n m).distribution.getD i 0 =
      m / n := by
  have hclaimed : (Progress.init n m).claimed i = 0 := by
    rw [Progress.claimed, List.countP_eq_zero]
    intro k hk
    simp only [Progress.init, List.length_replicate] at hk ⊢
    simp [List.mem_range.mp hk]
  have hquota : (Progress.init n m).distribution.getD i 0 = m / n := by
    simp [Progress.init, hi]
  rw [hclaimed, hquota, Nat.zero_add]

theorem balanced_init (n : Nat) {m : Nat} (hm : m < 2 ^ 32) :
    Balanced n m (Progress.init n m) := by
  refine ⟨Progress.valid_init n m, by simp [Progress.init], ?_, ?_, .refl _⟩
  · intro i hi
    rw [claimed_add_quota_init m hi]
  · intro i
    have hle : (Progress.init n m).distribution.getD i 0 ≤ m / n := by
      rw [Progress.init, List.getD_eq_getElem?_getD, List.getElem?_replicate]
      split <;> simp
    exact Nat.lt_of_le_of_lt (hle.trans (Nat.div_le_self m n)) hm

theorem uint32Pred_add_one (x : Nat) : uint32Pred x + 1 ≡ x [MOD 2 ^ 32] := by
  unfold uint32Pred
  split
  · subst x
    rfl
  · rw [Nat.sub_add_cancel (by omega)]

theorem uint32Pred_lt {x : Nat} (hx : x < 2 ^ 32) : uint32Pred x < 2 ^ 32 := by
  unfold uint32Pred
  split <;> omega

theorem claimSlot_balanced {n m i idx : Nat} {p p' : Progress} (hi : i < n)
    (hclaim : claimSlot i p idx = .ok p') (hp : Balanced n m p) :
    Balanced n m p' := by
  have hvalid := (claimSlot_valid hi hp.valid).of_eq_ok hclaim
  unfold claimSlot at hclaim
  split at hclaim
  · rename_i hidx
    split at hclaim
    · cases hclaim
      have hlt : i < p.distribution.length := by rwa [hp.length_distribution]
      refine ⟨hvalid, by simpa using hp.length_distribution, ?_, ?_,
        List.erase_sublist.trans hp.unset_sublist⟩
      · intro j hj
        have hbalance := hp.balance j hj
        rw [claimed_claim hp.valid hidx, getD_set hlt]
        by_cases hji : j = i
        · subst hji
          rw [if_pos rfl, if_pos rfl, Nat.add_assoc, Nat.add_comm 1]
          exact ((uint32Pred_add_one _).add_left _).trans hbalance
        · rw [if_neg hji, if_neg hji, Nat.add_zero]
          exact hbalance
      · intro j
        rw [getD_set hlt]
        split
        · exact uint32Pred_lt (hp.quota_lt i)
        · exact hp.quota_lt j
    · cases hclaim
  · cases hclaim
    exact hp

theorem sum_countP_owner {α : Type} {n : Nat} {owner : α → Option Nat} {slots : List α}
    (howner : ∀ k ∈ slots, ∃ i < n, owner k = some i) :
    ∑ i ∈ Finset.range n, slots.countP (owner · = some i) = slots.length := by
  induction slots with
  | nil => simp
  | cons k slots ih =>
      obtain ⟨i, hi, hk⟩ := howner k (by simp)
      have htail := ih fun k' hk' => howner k' (List.mem_cons_of_mem _ hk')
      simp only [List.countP_cons, Finset.sum_add_distrib, htail, hk]
      simp [hi]

/-- Every slot is claimed by one backend or still unset. -/
theorem sum_claimed {n m : Nat} {p : Progress} (hp : p.Valid n m) :
    ∑ i ∈ Finset.range n, p.claimed i + p.unset.length = m := by
  have hsum : ∑ i ∈ Finset.range n, p.claimed i =
      ((List.range m).filter (· ∉ p.unset)).length := by
    simp only [claimed_eq_countP_filter hp]
    apply sum_countP_owner
    intro k hk
    simp only [List.mem_filter, List.mem_range, decide_eq_true_eq] at hk
    have hlt : k < p.out.length := by
      rw [hp.length_out]
      exact hk.1
    have hget := List.getElem?_eq_getElem hlt
    exact ⟨p.out[k], hp.out_lt k _ hget hk.2, hget⟩
  have hsplit := List.length_eq_length_filter_add (l := List.range m) (· ∉ p.unset)
  simp only [decide_not, Bool.not_not, List.length_range,
    (filter_unset_perm hp).length_eq] at hsplit
  simp only [hsum, decide_not]
  exact hsplit.symm

theorem length_unset_of_claimed {n m : Nat} {p : Progress} (hp : p.Valid n m)
    (hclaimed : ∀ i < n, p.claimed i = m / n) : p.unset.length = m % n := by
  have hsum := sum_claimed hp
  rw [Finset.sum_const_nat fun i hi => hclaimed i (Finset.mem_range.mp hi),
    Finset.card_range] at hsum
  have hdiv := Nat.div_add_mod m n
  omega

theorem claimed_le {n m : Nat} {p : Progress} (hp : p.Valid n m) (i : Nat) :
    p.claimed i ≤ m := by
  rw [← hp.length_out]
  simpa [Progress.claimed] using List.countP_le_length (l := List.range p.out.length)

/-- The test of the quota fails exactly at a backend that holds `m / n` slots. -/
theorem Balanced.spent_iff {n m i : Nat} {p : Progress} (hm : m < 2 ^ 32)
    (hp : Balanced n m p) (hi : i < n) :
    p.distribution.getD i 0 < 1 ↔ p.claimed i = m / n := by
  have hbalance := hp.balance i hi
  have hclaimed := Nat.lt_of_le_of_lt (claimed_le hp.valid i) hm
  have hshare := Nat.lt_of_le_of_lt (Nat.div_le_self m n) hm
  constructor
  · intro hspent
    rw [Nat.lt_one_iff.mp hspent, Nat.add_zero] at hbalance
    exact hbalance.eq_of_lt_of_lt hclaimed hshare
  · intro heq
    rw [← heq] at hbalance
    have hzero : p.distribution.getD i 0 ≡ 0 [MOD 2 ^ 32] :=
      Nat.ModEq.add_left_cancel' (p.claimed i) hbalance
    rw [hzero.eq_of_lt_of_lt (hp.quota_lt i) (by decide)]
    exact Nat.one_pos

theorem Balanced.unset_eq {n m : Nat} {p : Progress} (hp : Balanced n m p) :
    p.unset = (List.range m).filter (· ∈ p.unset) := by
  have hsorted : (List.range m).Pairwise (· < ·) := List.pairwise_lt_range
  refine List.Perm.eq_of_pairwise (fun a b _ _ hab hba => absurd hab (Nat.lt_asymm hba))
    (hsorted.sublist hp.unset_sublist) (hsorted.filter _) (filter_unset_perm hp.valid).symm

end Udplb.Rlt
