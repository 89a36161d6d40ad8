import Mathlib.Data.Finset.Max
import Mathlib.Order.Interval.Finset.Nat

/-!
# Linear probing in a cyclic table

Every entry of a table of `m` slots has a home.  An entry is put into the first empty slot from
its home on, starting again from 0 behind the last.  Which slots are empty in the end depends
on the number of entries with each home only, not on the order in which they came.
-/

namespace Udplb.Foundation

open Finset

universe u

/-- Slots to pass from `x` until slot `e`, starting again from 0 behind the last. -/
def distance (m e x : ℕ) : ℕ := if x ≤ e then e - x else m - x + e

theorem distance_lt {m e x : ℕ} (he : e < m) (hx : x ≤ m) : distance m e x < m := by
  unfold distance
  split <;> omega

theorem distance_inj {m e x y : ℕ} (hx : x < m) (hy : y < m)
    (h : distance m e x = distance m e y) : x = y := by
  unfold distance at h
  split at h <;> split at h <;> omega

@[simp] theorem distance_self (m x : ℕ) : distance m x x = 0 := by
  simp [distance]

theorem distance_pos {m e x : ℕ} (hx : x < m) (hne : x ≠ e) : 0 < distance m e x := by
  unfold distance
  split <;> omega

/-- Behind the last slot is the first. -/
theorem distance_end {m e : ℕ} (he : e < m) : distance m e m = distance m e 0 := by
  unfold distance
  split <;> split <;> omega

theorem distance_succ {m e x : ℕ} (hx : x < m) (hne : x ≠ e) :
    distance m e (x + 1) + 1 = distance m e x := by
  unfold distance
  split <;> split <;> omega

/-- The first slot with a property on the way round from `x`. -/
theorem exists_first {m x : ℕ} {p : ℕ → Prop} [DecidablePred p] (h : ∃ e < m, p e) :
    ∃ e < m, p e ∧ ∀ y < m, distance m y x < distance m e x → ¬p y := by
  obtain ⟨e₀, he₀, hp₀⟩ := h
  obtain ⟨e, he, hmin⟩ := exists_min_image {e ∈ range m | p e} (distance m · x)
    ⟨e₀, mem_filter.mpr ⟨mem_range.mpr he₀, hp₀⟩⟩
  obtain ⟨hlt, hp⟩ := mem_filter.mp he
  refine ⟨e, mem_range.mp hlt, hp, fun y hy hless hpy => ?_⟩
  exact absurd (hmin y (mem_filter.mpr ⟨mem_range.mpr hy, hpy⟩)) (Nat.not_le_of_lt hless)

section Probed

variable {κ : Type u} {m : ℕ} {home : κ → ℕ} {table : ℕ → Option κ}

/-- From `h` up to `x` no slot is empty. -/
def TakenUpTo (m : ℕ) (table : ℕ → Option κ) (h x : ℕ) : Prop :=
  ∀ y < m, distance m y h ≤ distance m x h → table y ≠ none

/-- Every entry has only taken slots between its home and itself. -/
def Probed (m : ℕ) (home : κ → ℕ) (table : ℕ → Option κ) : Prop :=
  ∀ x < m, ∀ v ∈ table x, TakenUpTo m table (home v) x

theorem TakenUpTo.update {h x e : ℕ} {v : κ} (htaken : TakenUpTo m table h x) :
    TakenUpTo m (Function.update table e (some v)) h x := by
  intro y hy hle
  by_cases hye : y = e
  · simp [hye]
  · rw [Function.update_of_ne hye]
    exact htaken y hy hle

/-- The next entry goes to the first empty slot behind the latest one of the same home. -/
theorem TakenUpTo.next {h x e : ℕ} {v : κ} (htaken : TakenUpTo m table h x) (hh : h < m)
    (hx : x < m) (he : e < m) (hempty : table e = none)
    (hfirst : ∀ y < m, distance m y (x + 1) < distance m e (x + 1) → table y ≠ none) :
    TakenUpTo m (Function.update table e (some v)) h e := by
  intro y hy hle
  by_cases hye : y = e
  · simp [hye]
  · rw [Function.update_of_ne hye]
    by_cases hbefore : distance m y h ≤ distance m x h
    · exact htaken y hy hbefore
    · refine hfirst y hy ?_
      have hbehind : distance m x h < distance m e h := by
        by_contra hnot
        exact htaken e he (Nat.le_of_not_lt hnot) hempty
      unfold distance at *
      split_ifs at * <;> omega

theorem Probed.update {e : ℕ} {v : κ} (h : Probed m home table)
    (hv : TakenUpTo m (Function.update table e (some v)) (home v) e) :
    Probed m home (Function.update table e (some v)) := by
  intro x hx w hw
  by_cases hxe : x = e
  · subst hxe
    rw [Function.update_self, Option.mem_some_iff] at hw
    subst hw
    exact hv
  · rw [Function.update_of_ne hxe] at hw
    exact (h x hx w hw).update

/-- The entries whose home is at most `t` slots before `x`. -/
def crowd (m : ℕ) (home : κ → ℕ) (table : ℕ → Option κ) (x t : ℕ) : Finset ℕ :=
  {y ∈ range m | ∃ v ∈ table y, distance m x (home v) ≤ t}

theorem card_le_card_behind {x d : ℕ} (hx : x < m) (hd : d ≤ m) :
    d ≤ #{y ∈ range m | distance m x y < d} := by
  have hcard : #(range d) ≤ #{y ∈ range m | distance m x y < d} := by
    refine card_le_card_of_injOn (fun i => if i ≤ x then x - i else m + x - i) ?_ ?_
    · intro i hi
      have hlt : i < d := by simpa using hi
      simp only [coe_filter, mem_range, Set.mem_ofPred_eq]
      unfold distance
      split <;> split <;> omega
    · intro i hi j hj hij
      have hlt : i < d := by simpa using hi
      have hlt' : j < d := by simpa using hj
      dsimp only at hij
      split at hij <;> split at hij <;> omega
  rwa [card_range] at hcard

section Homes

variable (h : Probed m home table) (hhome : ∀ y < m, ∀ v ∈ table y, home v < m) {x : ℕ}
  (hx : x < m)
include h hhome hx

/-- No entry got past an empty slot, so they all lie on the slots before it. -/
theorem Probed.card_crowd_le (hempty : table x = none) (t : ℕ) :
    #(crowd m home table x t) ≤ t := by
  have hcard : #(crowd m home table x t) ≤ #(Ioc 0 t) := by
    refine card_le_card_of_injOn (distance m x) ?_ ?_
    · intro y hy
      obtain ⟨hlt, v, hv, hnear⟩ := mem_filter.mp hy
      have hy' : y < m := mem_range.mp hlt
      have hv' := hhome y hy' v hv
      have hbefore : distance m y (home v) < distance m x (home v) := by
        by_contra hnot
        exact h y hy' v hv x hx (Nat.le_of_not_lt hnot) hempty
      simp only [coe_Ioc, Set.mem_Ioc]
      unfold distance at *
      split_ifs at * <;> omega
    · intro y hy y' hy' heq
      exact distance_inj (mem_range.mp (mem_filter.mp hy).1)
        (mem_range.mp (mem_filter.mp hy').1) heq
  rwa [Nat.card_Ioc] at hcard

/-- A taken slot ends a block of taken slots whose entries have their home in the block. -/
theorem Probed.exists_block (htaken : table x ≠ none) :
    ∃ d, 0 < d ∧ d ≤ m ∧ ∀ y < m, distance m x y < d →
      ∃ v ∈ table y, distance m x (home v) < d := by
  by_cases hfull : ∃ z < m, table z = none
  · -- the block begins behind the last empty slot before `x`
    obtain ⟨z₀, hz₀, hempty₀⟩ := hfull
    obtain ⟨z, hz, hmin⟩ := exists_min_image {z ∈ range m | table z = none} (distance m x)
      ⟨z₀, mem_filter.mpr ⟨mem_range.mpr hz₀, hempty₀⟩⟩
    obtain ⟨hlt, hempty⟩ := mem_filter.mp hz
    have hz' : z < m := mem_range.mp hlt
    have hne : z ≠ x := fun heq => htaken (heq ▸ hempty)
    refine ⟨distance m x z, distance_pos hz' hne, (distance_lt hx hz'.le).le,
      fun y hy hnear => ?_⟩
    obtain ⟨v, hv⟩ : ∃ v, v ∈ table y := by
      refine Option.ne_none_iff_exists'.mp fun hnone => ?_
      have := hmin y (mem_filter.mpr ⟨mem_range.mpr hy, hnone⟩)
      omega
    have hv' := hhome y hy v hv
    have hbefore : distance m y (home v) < distance m z (home v) := by
      by_contra hnot
      exact h y hy v hv z hz' (Nat.le_of_not_lt hnot) hempty
    refine ⟨v, hv, ?_⟩
    unfold distance at *
    split_ifs at * <;> omega
  · refine ⟨m, by omega, le_rfl, fun y hy _ => ?_⟩
    obtain ⟨v, hv⟩ := Option.ne_none_iff_exists'.mp fun hnone => hfull ⟨y, hy, hnone⟩
    exact ⟨v, hv, distance_lt hx (hhome y hy v hv).le⟩

/--
A slot is empty exactly when the entries with a home not far before it have room before it:
at most `t` of them have their home at most `t` slots away.
-/
theorem Probed.empty_iff :
    table x = none ↔ ∀ t < m, #(crowd m home table x t) ≤ t := by
  constructor
  · intro hempty t _
    exact h.card_crowd_le hhome hx hempty t
  · intro hroom
    by_contra htaken
    obtain ⟨d, hd, hdm, hblock⟩ := h.exists_block hhome hx htaken
    have hsub : {y ∈ range m | distance m x y < d} ⊆ crowd m home table x (d - 1) := by
      intro y hy
      obtain ⟨hlt, hnear⟩ := mem_filter.mp hy
      obtain ⟨v, hv, hless⟩ := hblock y (mem_range.mp hlt) hnear
      exact mem_filter.mpr ⟨hlt, v, hv, by omega⟩
    have := card_le_card hsub
    have := card_le_card_behind hx hdm
    have := hroom (d - 1) (by omega)
    omega

end Homes

end Probed

end Udplb.Foundation
