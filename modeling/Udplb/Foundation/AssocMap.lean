import Mathlib.Data.List.AList
import Mathlib.Data.List.Induction

/-!
# Finite maps

A finite map is an association list whose keys are distinct, Mathlib's `AList`
at a constant family.  Two operations are added to it: transforming the values
while dropping some of the entries, and collecting the positions of a list under
a key.
-/

namespace Udplb.Foundation

universe u v

abbrev AssocMap (κ : Type u) (α : Type v) := AList fun _ : κ => α

namespace AssocMap

variable {κ : Type u} [DecidableEq κ] {α β : Type v}

/-! ## Transforming the values -/

def transformEntry (f : α → Option β) (entry : Sigma fun _ : κ => α) :
    Option (Sigma fun _ : κ => β) :=
  (f entry.2).map (Sigma.mk entry.1)

omit [DecidableEq κ] in
theorem keys_transform_sublist (f : α → Option β)
    (entries : List (Sigma fun _ : κ => α)) :
    (entries.filterMap (transformEntry f)).keys.Sublist entries.keys := by
  induction entries with
  | nil => simp
  | cons entry entries ih =>
      cases hf : f entry.2 with
      | none =>
          have hentry : transformEntry f entry = none := by
            simp [transformEntry, hf]
          rw [List.filterMap_cons_none hentry, List.keys_cons]
          exact ih.cons _
      | some value =>
          have hentry : transformEntry f entry = some ⟨entry.1, value⟩ := by
            simp [transformEntry, hf]
          rw [List.filterMap_cons_some hentry, List.keys_cons, List.keys_cons]
          exact ih.cons_cons _

/-- Apply `f` to every value and keep the entries on which it is defined. -/
def filterMapValues (f : α → Option β) (m : AssocMap κ α) : AssocMap κ β :=
  ⟨m.entries.filterMap (transformEntry f),
    (keys_transform_sublist f m.entries).nodup m.nodupKeys⟩

theorem lookup_filterMapValues (f : α → Option β) (m : AssocMap κ α) (k : κ) :
    (filterMapValues f m).lookup k = (m.lookup k).bind f := by
  obtain ⟨entries, hnodup⟩ := m
  change (entries.filterMap (transformEntry f)).dlookup k =
    (entries.dlookup k).bind f
  induction entries with
  | nil => rfl
  | cons entry entries ih =>
      obtain ⟨key, value⟩ := entry
      rw [List.nodupKeys_cons] at hnodup
      obtain ⟨hfresh, hnodup⟩ := hnodup
      have hrest := ih hnodup
      by_cases hk : k = key
      · subst hk
        cases hf : f value with
        | none =>
            have habsent : entries.dlookup k = none :=
              List.dlookup_eq_none.mpr hfresh
            rw [List.filterMap_cons_none (by simp [transformEntry, hf]), hrest,
              habsent]
            simp [hf]
        | some value' =>
            rw [List.filterMap_cons_some (b := ⟨k, value'⟩)
              (by simp [transformEntry, hf])]
            simp [hf]
      · cases hf : f value with
        | none =>
            rw [List.filterMap_cons_none (by simp [transformEntry, hf]), hrest,
              List.dlookup_cons_ne _ _ hk]
        | some value' =>
            rw [List.filterMap_cons_some (b := ⟨key, value'⟩)
              (by simp [transformEntry, hf]), List.dlookup_cons_ne _ _ hk,
              List.dlookup_cons_ne _ _ hk, hrest]

/-! ## The number of entries -/

def size (m : AssocMap κ α) : Nat := m.entries.length

omit [DecidableEq κ] in
theorem length_keys (m : AssocMap κ α) : m.keys.length = size m :=
  List.length_map _

theorem size_insert_of_mem {m : AssocMap κ α} {k : κ} (value : α) (h : k ∈ m) :
    size (m.insert k value) = size m := by
  have hpos : 0 < m.keys.length := List.length_pos_of_mem (AList.mem_keys.mp h)
  rw [← length_keys, ← length_keys, AList.keys_insert, List.length_cons,
    List.length_erase_of_mem (AList.mem_keys.mp h)]
  omega

theorem size_insert_le (m : AssocMap κ α) (k : κ) (value : α) :
    size (m.insert k value) ≤ size m + 1 := by
  rw [← length_keys, ← length_keys, AList.keys_insert, List.length_cons]
  have herase : (m.keys.erase k).length ≤ m.keys.length := List.length_erase_le
  omega

omit [DecidableEq κ] in
theorem size_filterMapValues_le (f : α → Option β) (m : AssocMap κ α) :
    size (filterMapValues f m) ≤ size m :=
  List.length_filterMap_le _ _

/-! ## Positions by key -/

/-- The map from the key of each list element to its position. -/
def indexBy (key : α → κ) (items : List α) : AssocMap κ Nat :=
  items.zipIdx.foldl (fun m entry => m.insert (key entry.1) entry.2) ∅

@[simp] theorem indexBy_nil (key : α → κ) :
    indexBy key ([] : List α) = ∅ := rfl

theorem indexBy_append_singleton (key : α → κ) (items : List α) (item : α) :
    indexBy key (items ++ [item]) =
      (indexBy key items).insert (key item) items.length := by
  simp [indexBy, List.zipIdx_append, List.foldl_append]

theorem getElem?_of_lookup_indexBy (key : α → κ) {items : List α} {k : κ}
    {position : Nat} (h : (indexBy key items).lookup k = some position) :
    ∃ item, items[position]? = some item ∧ key item = k := by
  induction items using List.reverseRecOn with
  | nil => simp at h
  | append_singleton items last ih =>
      rw [indexBy_append_singleton] at h
      by_cases hk : k = key last
      · subst hk
        rw [AList.lookup_insert, Option.some.injEq] at h
        subst h
        exact ⟨last, by simp, rfl⟩
      · rw [AList.lookup_insert_ne hk] at h
        obtain ⟨item, hitem, hkey⟩ := ih h
        have hlt : position < items.length :=
          (List.getElem?_eq_some_iff.mp hitem).1
        exact ⟨item, by rw [List.getElem?_append_left hlt]; exact hitem, hkey⟩

theorem lookup_indexBy_eq_none (key : α → κ) {items : List α} {k : κ} :
    (indexBy key items).lookup k = none ↔ ∀ item ∈ items, key item ≠ k := by
  induction items using List.reverseRecOn with
  | nil => simp
  | append_singleton items last ih =>
      rw [indexBy_append_singleton]
      by_cases hk : k = key last
      · subst hk
        simp
      · rw [AList.lookup_insert_ne hk, ih]
        simp only [List.mem_append, List.mem_singleton]
        constructor
        · rintro h item (hitem | rfl)
          · exact h item hitem
          · exact fun heq => hk heq.symm
        · exact fun h item hitem => h item (Or.inl hitem)

theorem lookup_indexBy_of_getElem? (key : α → κ) {items : List α}
    (hnodup : (items.map key).Nodup) {position : Nat} {item : α}
    (h : items[position]? = some item) :
    (indexBy key items).lookup (key item) = some position := by
  cases hlookup : (indexBy key items).lookup (key item) with
  | none =>
      exact absurd rfl ((lookup_indexBy_eq_none key).mp hlookup item
        (List.mem_of_getElem? h))
  | some position' =>
      obtain ⟨item', hitem', hkey⟩ := getElem?_of_lookup_indexBy key hlookup
      have hpos : (items.map key)[position]? = some (key item) := by
        simp [h]
      have hpos' : (items.map key)[position']? = some (key item) := by
        simp [hitem', hkey]
      have hlt : position < (items.map key).length :=
        (List.getElem?_eq_some_iff.mp hpos).1
      rw [(List.getElem?_inj hlt hnodup).mp (hpos.trans hpos'.symm)]

theorem lookup_indexBy_filter (key : α → κ) {items : List α}
    (hnodup : (items.map key).Nodup) (p : α → Bool) {position : Nat} {item : α}
    (h : items[position]? = some item) :
    (indexBy key (items.filter p)).lookup (key item) =
      if p item then some ((items.take position).filter p).length else none := by
  cases hp : p item with
  | true =>
      obtain ⟨hlt, hitem⟩ := List.getElem?_eq_some_iff.mp h
      have hsplit : items.filter p =
          (items.take position).filter p ++
            item :: (items.drop (position + 1)).filter p := by
        rw [← List.filter_cons_of_pos hp, ← List.filter_append, ← hitem,
          ← List.drop_eq_getElem_cons hlt, List.take_append_drop]
      have hfiltered : ((items.filter p).map key).Nodup :=
        hnodup.sublist (List.filter_sublist.map key)
      rw [if_pos rfl]
      apply lookup_indexBy_of_getElem? key hfiltered
      rw [hsplit, List.getElem?_append_right (Nat.le_refl _), Nat.sub_self,
        List.getElem?_cons_zero]
  | false =>
      rw [if_neg (by simp), lookup_indexBy_eq_none]
      intro other hother heq
      have hsame : other = item := List.inj_on_of_nodup_map hnodup
        (List.mem_of_mem_filter hother) (List.mem_of_getElem? h) heq
      rw [hsame, List.mem_filter, hp] at hother
      exact absurd hother.2 (by simp)

end AssocMap

end Udplb.Foundation
