import Mathlib.Data.Int.CardIntervalMod
import Udplb.Rlt.FillOrder

/-!
# How many slots each backend gets

A backend owns the slots it claimed in the coordinate phase and its turns of the
fill phase.  The fill phase starts from backend 0 whatever was claimed before, so
the shares even out where the turns bring each backend what it is short of, and in
particular where every backend claims its quota and no more.
-/

namespace Udplb.Rlt

open Udplb.Foundation

/-- Turns of backend `i` when `slots` slots are dealt to `n` backends. -/
def turns (n slots i : Nat) : Nat :=
  slots / n + if i < slots % n then 1 else 0

/-- `count` is the share of one of `n` backends, rounded down or up. -/
def FairShare (n m count : Nat) : Prop :=
  count = m / n ∨ count = (m + n - 1) / n

instance (n m count : Nat) : Decidable (FairShare n m count) := by
  unfold FairShare
  infer_instance

def EvenlyDistributed (n : Nat) (table : List Nat) : Prop :=
  ∀ i < n, FairShare n table.length (table.count i)

theorem count_eq_countP_range {α : Type} [BEq α] [LawfulBEq α] [DecidableEq α]
    (table : List α) (i : α) :
    table.count i =
      (List.range table.length).countP (table[·]? = some i) := by
  have hmap : (List.range table.length).map (table[·]?) = table.map some := by
    apply List.ext_getElem <;> simp
  calc table.count i = (table.map some).count (some i) :=
        (List.count_map_of_injective table some (Option.some_injective _) i).symm
    _ = (List.range table.length).countP (table[·]? = some i) := by
        rw [← hmap, List.count, List.countP_map]
        apply List.countP_congr
        simp

theorem countP_range_mod {n i : Nat} (slots : Nat) (hi : i < n) :
    (List.range slots).countP (fun j => j % n = i) = turns n slots i := by
  have hcount := slots.count_modEq_card (Nat.zero_lt_of_lt hi) i
  simp only [Nat.count, Nat.ModEq, Nat.mod_eq_of_lt hi] at hcount
  exact hcount

/-- The slots of the fill phase go to the backends in turn. -/
theorem countP_keys {table keys : List Nat} {n i : Nat} (hi : i < n)
    (hdealt : ∀ j k, keys[j]? = some k → table[k]? = some (j % n)) :
    keys.countP (table[·]? = some i) = turns n keys.length i := by
  have hmap : keys.map (table[·]?) =
      (List.range keys.length).map fun j => some (j % n) := by
    apply List.ext_getElem
    · simp
    · intro j hj _
      simpa using hdealt j _ (List.getElem?_eq_getElem (by simpa using hj))
  calc keys.countP (table[·]? = some i)
      = (keys.map (table[·]?)).countP (· = some i) := by
        rw [List.countP_map]
        rfl
    _ = (List.range keys.length).countP (fun j => j % n = i) := by
        rw [hmap, List.countP_map]
        simp [Function.comp_def]
    _ = turns n keys.length i := countP_range_mod keys.length hi

theorem count_lookupTable (order : IterOrder) {backends : List Backend}
    {m : UInt32} {p : Progress} {table : List Nat} (hne : backends ≠ [])
    (hphase : coordinatePhase backends m.toNat = .ok p)
    (htable : reverseCoordinatesLookupTable order backends m = .ok table)
    {i : Nat} (hi : i < backends.length) :
    table.count i = p.claimed i + turns backends.length p.unset.length i := by
  obtain ⟨hlength, hdealt, hkept⟩ :=
    (reverseCoordinatesLookupTable_spec order hne hphase).of_eq_ok htable
  have hp := coordinatePhase_valid hphase
  have hkeys := order.perm p.unset
  rw [count_eq_countP_range, hlength, claimed_eq_countP_filter hp,
    List.countP_eq_countP_filter_add _ _ (· ∉ p.unset)]
  congr 1
  · apply List.countP_congr
    intro k hk
    rw [hkept k (by simpa using (List.mem_filter.mp hk).2)]
  · simp only [decide_not, Bool.not_not]
    rw [(filter_unset_perm hp).countP_eq, ← hkeys.countP_eq,
      countP_keys hi hdealt, hkeys.length_eq]

theorem turns_eq_zero_iff {n slots i : Nat} (hi : i < n) :
    turns n slots i = 0 ↔ slots ≤ i := by
  unfold turns
  by_cases hslots : slots < n
  · rw [Nat.div_eq_of_lt hslots, Nat.mod_eq_of_lt hslots]
    split <;> omega
  · have := Nat.div_pos (Nat.le_of_not_lt hslots) (Nat.zero_lt_of_lt hi)
    omega

/-- A backend gets no slot if it claims none and the slots left over do not come to its turn. -/
theorem not_mem_lookupTable_iff (order : IterOrder) {backends : List Backend} {m : UInt32}
    {p : Progress} {share : Sharing.ShareOut Nat} {table : List Nat} (hne : backends ≠ [])
    (hphase : coordinatePhase backends m.toNat = .ok p)
    (htracks : Tracks backends m.toNat share (sharing backends m.toNat).demands.length p)
    (htable : reverseCoordinatesLookupTable order backends m = .ok table)
    {i : Nat} (hi : i < backends.length) :
    i ∉ table ↔
      (sharing backends m.toNat).held share i (sharing backends m.toNat).demands.length = ∅ ∧
        (leftOver m.toNat share).length ≤ i := by
  rw [← List.count_eq_zero, count_lookupTable order hne hphase htable hi,
    Nat.add_eq_zero_iff, turns_eq_zero_iff hi, htracks.claimed_eq, Finset.card_eq_zero,
    htracks.unset_eq]

/-- Claims of exactly the quota leave one turn for the first `m % n` backends. -/
theorem fairShare_of_claimed {n m : Nat} {p : Progress} (hp : p.Valid n m)
    (hclaimed : ∀ i < n, p.claimed i = m / n) {i : Nat} (hi : i < n) :
    FairShare n m (p.claimed i + turns n p.unset.length i) := by
  have hdiv := Nat.div_add_mod m n
  have hmod := Nat.mod_lt m (Nat.zero_lt_of_lt hi)
  rw [hclaimed i hi, length_unset_of_claimed hp hclaimed, turns,
    Nat.div_eq_of_lt hmod, Nat.mod_eq_of_lt hmod, Nat.zero_add, FairShare]
  by_cases hturn : i < m % n
  · rw [if_pos hturn]
    right
    symm
    apply Nat.div_eq_of_lt_le
    · rw [Nat.add_mul, Nat.mul_comm (m / n)]
      omega
    · rw [Nat.add_mul, Nat.add_mul, Nat.mul_comm (m / n)]
      omega
  · rw [if_neg hturn]
    exact Or.inl rfl

/-- A single backend gets what it claims and every slot that is left over. -/
theorem fairShare_of_one_backend {m : Nat} {p : Progress} (hp : p.Valid 1 m) {i : Nat}
    (hi : i < 1) : FairShare 1 m (p.claimed i + turns 1 p.unset.length i) := by
  obtain rfl : i = 0 := by omega
  have hsum := sum_claimed hp
  rw [Finset.sum_range_one] at hsum
  left
  simp only [turns, Nat.div_one, Nat.mod_one, Nat.lt_irrefl, if_false, Nat.add_zero]
  exact hsum

/-- What the share-out gives backend `i`, and its turns at the slots that are left over. -/
def allotted (backends : List Backend) (m : Nat) (share : Sharing.ShareOut Nat) (i : Nat) : Nat :=
  ((sharing backends m).held share i (sharing backends m).demands.length).card +
    turns backends.length (leftOver m share).length i

theorem count_eq_allotted (order : IterOrder) {backends : List Backend} {m : UInt32}
    {p : Progress} {share : Sharing.ShareOut Nat} {table : List Nat} (hne : backends ≠ [])
    (hphase : coordinatePhase backends m.toNat = .ok p)
    (hstable : (sharing backends m.toNat).Stable share)
    (htable : reverseCoordinatesLookupTable order backends m = .ok table)
    {i : Nat} (hi : i < backends.length) : table.count i = allotted backends m.toNat share i := by
  have htracks := tracks_of_stable m.toNat_lt hphase hstable
  rw [count_lookupTable order hne hphase htable hi, htracks.claimed_eq, htracks.unset_eq, allotted]

end Udplb.Rlt
