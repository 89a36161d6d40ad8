import Mathlib.Algebra.BigOperators.Group.Finset.Basic
import Mathlib.Algebra.GroupWithZero.Nat
import Udplb.Foundation.AssocMap

/-!
# Maps that count

A map from keys to numbers is a tally of a sequence when it holds, under each key
that was announced or has come up, how often the key has come up.
-/

namespace Udplb.Foundation.AssocMap

universe u

variable {κ : Type u} [DecidableEq κ]

/-- The count under a key; a missing entry reads as zero. -/
def tally (m : AssocMap κ Nat) (k : κ) : Nat := (m.lookup k).getD 0

def bump (m : AssocMap κ Nat) (k : κ) : AssocMap κ Nat := m.insert k (m.tally k + 1)

def Tallies (announced : List κ) (m : AssocMap κ Nat) (keys : List κ) : Prop :=
  ∀ k, m.lookup k = if k ∈ announced ++ keys then some (keys.count k) else none

theorem tallies_empty : Tallies [] (∅ : AssocMap κ Nat) [] := by
  intro k
  simp

/-- The entries are announced one by one with a count of zero. -/
theorem tallies_announced (announced : List κ) :
    Tallies announced (announced.foldl (fun m k => m.insert k 0) (∅ : AssocMap κ Nat)) [] := by
  induction announced using List.reverseRecOn with
  | nil => exact tallies_empty
  | append_singleton announced last ih =>
      intro k
      rw [List.foldl_append, List.foldl_cons, List.foldl_nil]
      by_cases hk : k = last
      · subst hk
        rw [AList.lookup_insert]
        simp
      · rw [AList.lookup_insert_ne hk, ih k]
        simp [hk]

namespace Tallies

variable {announced keys : List κ} {m : AssocMap κ Nat}

theorem tally_eq (h : Tallies announced m keys) (k : κ) : m.tally k = keys.count k := by
  rw [tally, h k]
  split
  · rfl
  · rename_i hk
    have hkeys : k ∉ keys := fun hmem => hk (List.mem_append_right _ hmem)
    rw [List.count_eq_zero_of_not_mem hkeys]
    rfl

theorem bump (h : Tallies announced m keys) (k : κ) :
    Tallies announced (m.bump k) (keys ++ [k]) := by
  intro k'
  rw [AssocMap.bump, h.tally_eq]
  by_cases hk : k' = k
  · subst hk
    rw [AList.lookup_insert, if_pos (by simp), List.count_append, List.count_singleton_self]
  · have hcount : (keys ++ [k]).count k' = keys.count k' := by
      have hnone : [k].count k' = 0 := List.count_eq_zero_of_not_mem (by simpa using hk)
      rw [List.count_append, hnone, Nat.add_zero]
    rw [AList.lookup_insert_ne hk, h k', hcount]
    simp [hk]

theorem mem_keys (h : Tallies announced m keys) (k : κ) :
    k ∈ m.keys ↔ k ∈ announced ++ keys := by
  rw [← AList.mem_keys, ← AList.lookup_isSome, h k]
  split <;> simp_all

/-- The counts add up to the length of the sequence. -/
theorem sum_eq_length (h : Tallies announced m keys) :
    (m.keys.map m.tally).sum = keys.length := by
  have hsubset : keys.toFinset ⊆ m.keys.toFinset := by
    intro k hk
    rw [List.mem_toFinset] at hk ⊢
    exact (h.mem_keys k).mpr (List.mem_append_right _ hk)
  calc (m.keys.map m.tally).sum = ∑ k ∈ m.keys.toFinset, m.tally k :=
        (List.sum_toFinset m.tally m.keys_nodup).symm
    _ = ∑ k ∈ m.keys.toFinset, keys.count k := Finset.sum_congr rfl fun k _ => h.tally_eq k
    _ = ∑ k ∈ keys.toFinset, keys.count k := by
        refine (Finset.sum_subset hsubset ?_).symm
        intro k _ hk
        rw [List.mem_toFinset] at hk
        exact List.count_eq_zero_of_not_mem hk
    _ = keys.length := List.sum_toFinset_count_eq_length keys

/-- There is an entry for each key that was announced or has come up. -/
theorem size_eq (h : Tallies announced m keys) :
    size m = (announced ++ keys).toFinset.card := by
  rw [← length_keys, ← List.toFinset_card_of_nodup m.keys_nodup]
  congr 1
  ext k
  rw [List.mem_toFinset, List.mem_toFinset]
  exact h.mem_keys k

/-- The tally of a part of the sequence, in whatever order, some of it still to come. -/
theorem tally_of_perm_filter {announced' keys' rest : List κ} {m' : AssocMap κ Nat}
    (h : Tallies announced m keys) (h' : Tallies announced' m' keys') {p : κ → Bool}
    (hperm : (keys' ++ rest).Perm (keys.filter p)) (k : κ) :
    m'.tally k + rest.countP (· = k) = if p k then m.tally k else 0 := by
  have hrest : rest.countP (· = k) = rest.count k := rfl
  rw [h'.tally_eq, h.tally_eq, hrest, ← List.count_append, hperm.count_eq]
  split
  · rename_i hk
    exact List.count_filter hk
  · rename_i hk
    apply List.count_eq_zero_of_not_mem
    intro hmem
    exact hk (List.mem_filter.mp hmem).2

end Tallies

end Udplb.Foundation.AssocMap
