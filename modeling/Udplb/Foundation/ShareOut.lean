import Mathlib.Data.Finset.Card

/-!
# Sharing out items by demands with a quota

A list of demands is served in order: each of them is made by an agent and reaches some
items.  An agent that holds exactly its quota gets nothing; otherwise a demand gets every
item it reaches that nobody has.

A stable share-out is described without that process, by what must hold of the final
shares: an item is given to a demand that reaches it, made by an agent that did not hold
its quota by then, and no such demand is passed over for a later one.  There is at most
one stable share-out, and serving the demands one by one arrives at it.
-/

namespace Udplb.Foundation

universe u v

/-- An entry of a filtered list stands behind the entries before it that are kept. -/
theorem exists_getElem?_of_filter {α : Type u} {p : α → Bool} {entries : List α} {x : α}
    {j : ℕ} (h : (entries.filter p)[j]? = some x) :
    ∃ t, entries[t]? = some x ∧ p x = true ∧ (entries.take t).countP p = j := by
  induction entries generalizing j with
  | nil => simp at h
  | cons entry entries ih =>
      by_cases hentry : p entry = true
      · rw [List.filter_cons_of_pos hentry] at h
        cases j with
        | zero =>
            cases h
            exact ⟨0, rfl, hentry, rfl⟩
        | succ j =>
            obtain ⟨t, ht, hx, hcount⟩ := ih h
            exact ⟨t + 1, ht, hx, by simp [hentry, hcount]⟩
      · rw [List.filter_cons_of_neg hentry] at h
        obtain ⟨t, ht, hx, hcount⟩ := ih h
        exact ⟨t + 1, ht, hx, by simp [hentry, hcount]⟩

structure Demand (ι : Type u) (κ : Type v) where
  agent : ι
  reach : Finset κ

structure Sharing (ι : Type u) (κ : Type v) where
  demands : List (Demand ι κ)
  items : Finset κ
  quota : ℕ

namespace Sharing

open Finset

variable {ι : Type u} {κ : Type v} [DecidableEq ι]

/-- A share-out gives an item to the demand with a number, or to none. -/
abbrev ShareOut (κ : Type v) := κ → Option ℕ

variable (S : Sharing ι κ) (share : ShareOut κ)

def agentAt (t : ℕ) : Option ι := S.demands[t]?.map (·.agent)

/-- The items that the demand with number `t` gets. -/
def given (t : ℕ) : Finset κ := {k ∈ S.items | share k = some t}

/-- The items that agent `i` got from the demands before `t`. -/
def held (i : ι) (t : ℕ) : Finset κ :=
  {k ∈ S.items | ∃ u ∈ share k, u < t ∧ S.agentAt u = some i}

/-- The agent that an item is given to. -/
def owner (k : κ) : Option ι := (share k).bind S.agentAt

/-- The share-out is stable as far as the demands before `t` are concerned. -/
structure StableUpTo (t : ℕ) : Prop where
  served : ∀ k ∈ S.items, ∀ u ∈ share k, u < t ∧
    ∃ d ∈ S.demands[u]?, k ∈ d.reach ∧ #(S.held share d.agent u) ≠ S.quota
  kept : ∀ u < t, ∀ d ∈ S.demands[u]?, #(S.held share d.agent u) ≠ S.quota →
    ∀ k ∈ S.items, k ∈ d.reach → ∃ u' ∈ share k, u' ≤ u

def Stable : Prop := S.StableUpTo share S.demands.length

variable {S : Sharing ι κ} {share share' : ShareOut κ} {t : ℕ}

theorem mem_held {i : ι} {k : κ} :
    k ∈ S.held share i t ↔
      k ∈ S.items ∧ ∃ u ∈ share k, u < t ∧ S.agentAt u = some i := by
  rw [held, mem_filter]

theorem held_mono (i : ι) {t' : ℕ} (h : t ≤ t') :
    S.held share i t ⊆ S.held share i t' := by
  intro k hk
  obtain ⟨hitem, u, hu, hlt, hagent⟩ := mem_held.mp hk
  exact mem_held.mpr ⟨hitem, u, hu, hlt.trans_le h, hagent⟩

theorem held_congr (h : ∀ k ∈ S.items, ∀ u < t, u ∈ share k ↔ u ∈ share' k) (i : ι) :
    S.held share i t = S.held share' i t := by
  refine filter_congr fun k hk => exists_congr fun u => ?_
  constructor
  · rintro ⟨hu, hlt, hagent⟩
    exact ⟨(h k hk u hlt).mp hu, hlt, hagent⟩
  · rintro ⟨hu, hlt, hagent⟩
    exact ⟨(h k hk u hlt).mpr hu, hlt, hagent⟩

/-! ## At most one stable share-out -/

theorem StableUpTo.gives (h : S.StableUpTo share t) (h' : S.StableUpTo share' t) {u : ℕ}
    {k : κ} (hheld : ∀ i, S.held share i u = S.held share' i u)
    (hearlier : ∀ u' < u, u' ∈ share' k → u' ∈ share k) (hk : k ∈ S.items)
    (hu : u ∈ share k) : u ∈ share' k := by
  obtain ⟨hlt, d, hd, hreach, hquota⟩ := h.served k hk u hu
  rw [hheld] at hquota
  obtain ⟨u', hu', hle⟩ := h'.kept u hlt d hd hquota k hk hreach
  rcases hle.lt_or_eq with hlt' | rfl
  · -- the item cannot be given to two demands
    cases Option.mem_unique hu (hearlier u' hlt' hu')
    exact absurd hlt' (lt_irrefl _)
  · exact hu'

theorem StableUpTo.agree (h : S.StableUpTo share t) (h' : S.StableUpTo share' t) (u : ℕ) :
    ∀ k ∈ S.items, u ∈ share k ↔ u ∈ share' k := by
  induction u using Nat.strongRecOn with
  | ind u ih =>
      intro k hk
      have hheld := held_congr fun k hk u' hu' => ih u' hu' k hk
      constructor
      · exact h.gives h' hheld (fun u' hu' => (ih u' hu' k hk).mpr) hk
      · exact h'.gives h (fun i => (hheld i).symm) (fun u' hu' => (ih u' hu' k hk).mp) hk

theorem Stable.unique (h : S.Stable share) (h' : S.Stable share') {k : κ}
    (hk : k ∈ S.items) : share k = share' k :=
  Option.ext fun u => h.agree h' u k hk

/-! ## Serving the demands one by one -/

theorem stableUpTo_zero (S : Sharing ι κ) : S.StableUpTo (fun _ => none) 0 where
  served := by simp
  kept := by simp

theorem StableUpTo.held_of_le (h : S.StableUpTo share t) (i : ι) {t' : ℕ} (hle : t ≤ t') :
    S.held share i t' = S.held share i t := by
  refine Subset.antisymm ?_ (held_mono i hle)
  intro k hk
  obtain ⟨hitem, u, hu, -, hagent⟩ := mem_held.mp hk
  exact mem_held.mpr ⟨hitem, u, hu, (h.served k hitem u hu).1, hagent⟩

/-- Demands of agents that hold their quota get nothing. -/
theorem StableUpTo.skip (h : S.StableUpTo share t) {t' : ℕ} (hle : t ≤ t')
    (hfull : ∀ u, t ≤ u → u < t' → ∀ d ∈ S.demands[u]?,
      #(S.held share d.agent t) = S.quota) : S.StableUpTo share t' where
  served := by
    intro k hk u hu
    obtain ⟨hlt, hserved⟩ := h.served k hk u hu
    exact ⟨hlt.trans_le hle, hserved⟩
  kept := by
    intro u hu d hd hquota
    rcases lt_or_ge u t with hlt | hge
    · exact h.kept u hlt d hd hquota
    · rw [h.held_of_le d.agent hge] at hquota
      exact absurd (hfull u hge hu d hd) hquota

theorem StableUpTo.stable (h : S.StableUpTo share t) (ht : S.demands.length ≤ t) :
    S.Stable share where
  served := by
    intro k hk u hu
    obtain ⟨-, d, hd, hserved⟩ := h.served k hk u hu
    exact ⟨(List.getElem?_eq_some_iff.mp hd).1, d, hd, hserved⟩
  kept := fun u hu => h.kept u (hu.trans_le ht)

theorem StableUpTo.exists_demand (h : S.StableUpTo share t) {i : ι} {t' : ℕ} {k : κ}
    (hk : k ∈ S.held share i t') : ∃ d ∈ S.demands, d.agent = i ∧ k ∈ d.reach := by
  obtain ⟨hitem, u, hu, -, hagent⟩ := mem_held.mp hk
  obtain ⟨-, d, hd, hreach, -⟩ := h.served k hitem u hu
  rw [agentAt, Option.mem_def.mp hd, Option.map_some, Option.some.injEq] at hagent
  exact ⟨d, List.mem_of_getElem? hd, hagent, hreach⟩

theorem StableUpTo.given_subset (h : S.StableUpTo share t) {d : Demand ι κ} {u : ℕ}
    (hd : d ∈ S.demands[u]?) : S.given share u ⊆ d.reach := by
  intro k hk
  obtain ⟨hitem, hu⟩ := mem_filter.mp hk
  obtain ⟨-, d', hd', hreach, -⟩ := h.served k hitem u hu
  cases Option.mem_unique hd hd'
  exact hreach

theorem StableUpTo.given_of_full (h : S.StableUpTo share t) {d : Demand ι κ} {u : ℕ}
    (hd : d ∈ S.demands[u]?) (hfull : #(S.held share d.agent u) = S.quota) :
    S.given share u = ∅ := by
  refine filter_false_of_mem fun k hk hu => ?_
  obtain ⟨-, d', hd', -, hquota⟩ := h.served k hk u hu
  cases Option.mem_unique hd hd'
  exact hquota hfull

section Serving

variable [DecidableEq κ]

instance : Decidable (S.StableUpTo share t) :=
  decidable_of_iff
    ((∀ k ∈ S.items, ∀ u ∈ share k, u < t ∧
        ∃ d ∈ S.demands[u]?, k ∈ d.reach ∧ #(S.held share d.agent u) ≠ S.quota) ∧
      ∀ u < t, ∀ d ∈ S.demands[u]?, #(S.held share d.agent u) ≠ S.quota →
        ∀ k ∈ S.items, k ∈ d.reach → ∃ u' ∈ share k, u' ≤ u)
    ⟨fun h => ⟨h.1, h.2⟩, fun h => ⟨h.served, h.kept⟩⟩

instance : Decidable (S.Stable share) :=
  inferInstanceAs (Decidable (S.StableUpTo share S.demands.length))

/-- The demand with number `t` gets what it reaches and nobody has. -/
def give (share : ShareOut κ) (d : Demand ι κ) (t : ℕ) : ShareOut κ := fun k =>
  if share k = none ∧ k ∈ d.reach then some t else share k

omit [DecidableEq ι] in
theorem mem_give_of_lt (d : Demand ι κ) {u : ℕ} (hu : u < t) (k : κ) :
    u ∈ give share d t k ↔ u ∈ share k := by
  unfold give
  split
  · rename_i hfree
    simp [hfree.1, hu.ne']
  · rfl

theorem StableUpTo.give {d : Demand ι κ} (h : S.StableUpTo share t) (hd : d ∈ S.demands[t]?)
    (hquota : #(S.held share d.agent t) ≠ S.quota) :
    S.StableUpTo (give share d t) (t + 1) := by
  have hheld : ∀ u ≤ t, ∀ i, S.held (Sharing.give share d t) i u = S.held share i u := by
    intro u hu
    exact held_congr fun k _ u' hu' => mem_give_of_lt d (hu'.trans_le hu) k
  constructor
  · intro k hk u hu
    by_cases hfree : share k = none ∧ k ∈ d.reach
    · rw [Sharing.give, if_pos hfree, Option.mem_some_iff] at hu
      subst hu
      exact ⟨Nat.lt_succ_self t, d, hd, hfree.2, by rwa [hheld t le_rfl]⟩
    · rw [Sharing.give, if_neg hfree] at hu
      obtain ⟨hlt, d', hd', hreach, hquota'⟩ := h.served k hk u hu
      exact ⟨hlt.trans (Nat.lt_succ_self t), d', hd', hreach, by rwa [hheld u hlt.le]⟩
  · intro u hu d' hd' hquota' k hk hreach
    rw [hheld u (Nat.lt_succ_iff.mp hu)] at hquota'
    rcases Nat.lt_succ_iff_lt_or_eq.mp hu with hlt | rfl
    · obtain ⟨u', hu', hle⟩ := h.kept u hlt d' hd' hquota' k hk hreach
      exact ⟨u', (mem_give_of_lt d (hle.trans_lt hlt) k).mpr hu', hle⟩
    · cases Option.mem_unique hd hd'
      cases hshare : share k with
      | none => exact ⟨u, by simp [Sharing.give, hshare, hreach], le_rfl⟩
      | some u' =>
          have hlt := (h.served k hk u' hshare).1
          exact ⟨u', (mem_give_of_lt d hlt k).mpr hshare, hlt.le⟩

/-! ## What an agent holds -/

theorem card_held_succ {d : Demand ι κ} (hd : d ∈ S.demands[t]?) (i : ι) :
    #(S.held share i (t + 1)) =
      #(S.held share i t) + if d.agent = i then #(S.given share t) else 0 := by
  have hagent : S.agentAt t = some d.agent := by
    rw [agentAt, Option.mem_def.mp hd, Option.map_some]
  split
  · rename_i hi
    rw [← card_union_of_disjoint]
    · congr 1
      ext k
      simp only [mem_held, mem_union, given, mem_filter, Nat.lt_succ_iff_lt_or_eq]
      constructor
      · rintro ⟨hk, u, hu, hlt | rfl, hu'⟩
        · exact Or.inl ⟨hk, u, hu, hlt, hu'⟩
        · exact Or.inr ⟨hk, hu⟩
      · rintro (⟨hk, u, hu, hlt, hu'⟩ | ⟨hk, hu⟩)
        · exact ⟨hk, u, hu, Or.inl hlt, hu'⟩
        · exact ⟨hk, t, hu, Or.inr rfl, hi ▸ hagent⟩
    · rw [disjoint_left]
      rintro k hk hgiven
      obtain ⟨-, u, hu, hlt, -⟩ := mem_held.mp hk
      cases Option.mem_unique hu (mem_filter.mp hgiven).2
      exact absurd hlt (lt_irrefl _)
  · rename_i hi
    rw [Nat.add_zero]
    congr 1
    refine Subset.antisymm ?_ (held_mono i (Nat.le_succ t))
    intro k hk
    obtain ⟨hitem, u, hu, hlt, hu'⟩ := mem_held.mp hk
    refine mem_held.mpr ⟨hitem, u, hu, lt_of_le_of_ne (Nat.lt_succ_iff.mp hlt) ?_, hu'⟩
    rintro rfl
    rw [hagent] at hu'
    exact hi (Option.some.inj hu')

omit [DecidableEq κ] in
/-- Behind the last demand nothing is added. -/
theorem held_succ_of_none (hnone : S.demands[t]? = none) (i : ι) :
    S.held share i (t + 1) = S.held share i t := by
  refine Subset.antisymm ?_ (held_mono i (Nat.le_succ t))
  intro k hk
  obtain ⟨hitem, u, hu, hlt, hu'⟩ := mem_held.mp hk
  refine mem_held.mpr ⟨hitem, u, hu, lt_of_le_of_ne (Nat.lt_succ_iff.mp hlt) ?_, hu'⟩
  rintro rfl
  rw [agentAt, hnone] at hu'
  cases hu'

/-- No demand gets more than its agent has left of the quota. -/
def Within (S : Sharing ι κ) (share : ShareOut κ) : Prop :=
  ∀ t < S.demands.length, ∀ d ∈ S.demands[t]?,
    #(S.held share d.agent t) + #(S.given share t) ≤ S.quota

instance : Decidable (S.Within share) := by
  unfold Within
  infer_instance

theorem within_iff :
    S.Within share ↔ ∀ i, #(S.held share i S.demands.length) ≤ S.quota := by
  constructor
  · intro h i
    have hall : ∀ t, #(S.held share i t) ≤ S.quota := by
      intro t
      induction t with
      | zero => simp [held]
      | succ t ih =>
          cases hd : S.demands[t]? with
          | none => rwa [held_succ_of_none hd]
          | some d =>
              rw [card_held_succ hd]
              split
              · rename_i hi
                have := h t (List.getElem?_eq_some_iff.mp hd).1 d hd
                rwa [hi] at this
              · exact ih
    exact hall _
  · intro h t ht d hd
    have hsucc : #(S.held share d.agent (t + 1)) = _ := card_held_succ hd d.agent
    rw [if_pos rfl] at hsucc
    rw [← hsucc]
    exact (card_le_card (held_mono d.agent ht)).trans (h d.agent)

/-- Demands for single items do not exceed the quota. -/
theorem Stable.card_held_le (h : S.Stable share) {i : ι} {early : ℕ}
    (hsingle : ∀ u < early, ∀ d ∈ S.demands[u]?, #(d.reach) ≤ 1) (ht : t ≤ early) :
    #(S.held share i t) ≤ S.quota := by
  induction t with
  | zero => simp [held]
  | succ t ih =>
      have hle := ih (Nat.le_of_succ_le ht)
      cases hd : S.demands[t]? with
      | none => rwa [held_succ_of_none hd]
      | some d =>
          rw [card_held_succ hd]
          split
          · rename_i hi
            rcases hle.lt_or_eq with hlt | hfull
            · have := (card_le_card (h.given_subset hd)).trans (hsingle t ht d hd)
              omega
            · rw [h.given_of_full hd (hi ▸ hfull), card_empty]
              exact hle
          · exact hle

theorem Stable.held_of_full (h : S.Stable share) {i : ι}
    (hfull : #(S.held share i t) = S.quota) {t' : ℕ} (hle : t ≤ t') :
    #(S.held share i t') = S.quota := by
  induction t', hle using Nat.le_induction with
  | base => exact hfull
  | succ t' _ ih =>
      cases hd : S.demands[t']? with
      | none => rwa [held_succ_of_none hd]
      | some d =>
          rw [card_held_succ hd]
          split
          · rename_i hi
            rw [h.given_of_full hd (hi ▸ ih), card_empty]
            exact ih
          · exact ih

/--
Early on the demands are for single items, and agent `i` demands as many as its quota that no
other agent demands.  Then it gets exactly its quota.
-/
theorem Stable.held_of_own (h : S.Stable share) {i : ι} (early : ℕ) (own : Finset κ)
    (hearly : early ≤ S.demands.length)
    (hsingle : ∀ u < early, ∀ d ∈ S.demands[u]?, #(d.reach) ≤ 1)
    (hown : own ⊆ S.items)
    (hdemanded : ∀ k ∈ own, ∃ u < early, ∃ d ∈ S.demands[u]?, d.agent = i ∧ k ∈ d.reach)
    (halone : ∀ k ∈ own, ∀ u < early, ∀ d ∈ S.demands[u]?, k ∈ d.reach → d.agent = i)
    (hquota : S.quota ≤ own.card) : #(S.held share i early) = S.quota := by
  by_contra hne
  have hlt : #(S.held share i early) < S.quota :=
    lt_of_le_of_ne (h.card_held_le hsingle le_rfl) hne
  -- the quota was never used up, so that every own item was given, and to nobody else
  have hsub : own ⊆ S.held share i early := by
    intro k hk
    obtain ⟨u, hu, d, hd, rfl, hreach⟩ := hdemanded k hk
    have hleft : #(S.held share d.agent u) ≠ S.quota :=
      ((card_le_card (held_mono d.agent hu.le)).trans_lt hlt).ne
    obtain ⟨u', hu', hle⟩ :=
      h.kept u (hu.trans_le hearly) d hd hleft k (hown hk) hreach
    obtain ⟨-, d', hd', hreach', -⟩ := h.served k (hown hk) u' hu'
    have hagent := halone k hk u' (hle.trans_lt hu) d' hd' hreach'
    refine mem_held.mpr ⟨hown hk, u', hu', hle.trans_lt hu, ?_⟩
    rw [agentAt, Option.mem_def.mp hd', Option.map_some, hagent]
  have := card_le_card hsub
  omega

end Serving

/-! ## Other agents, and fewer of them -/

section Relabel

variable {ι' : Type u} [DecidableEq ι']

def relabel (f : ι → ι') (S : Sharing ι κ) : Sharing ι' κ where
  demands := S.demands.map fun d => ⟨f d.agent, d.reach⟩
  items := S.items
  quota := S.quota

theorem held_relabel {f : ι → ι'} (hf : f.Injective) (i : ι) :
    (S.relabel f).held share (f i) t = S.held share i t := by
  refine filter_congr fun k _ => exists_congr fun u => and_congr_right fun _ =>
    and_congr_right fun _ => ?_
  simp [agentAt, relabel, hf.eq_iff]

omit [DecidableEq ι] [DecidableEq ι'] in
theorem owner_relabel (f : ι → ι') (k : κ) :
    (S.relabel f).owner share k = (S.owner share k).map f := by
  unfold owner
  cases share k with
  | none => rfl
  | some u => simp [agentAt, relabel, Function.comp_def]

theorem StableUpTo.of_relabel {f : ι → ι'} (hf : f.Injective)
    (h : (S.relabel f).StableUpTo share t) : S.StableUpTo share t where
  served := by
    intro k hk u hu
    obtain ⟨hlt, d', hd', hreach, hquota⟩ := h.served k hk u hu
    simp only [relabel, List.getElem?_map, Option.mem_def, Option.map_eq_some_iff] at hd'
    obtain ⟨d, hd, rfl⟩ := hd'
    rw [held_relabel hf] at hquota
    exact ⟨hlt, d, hd, hreach, hquota⟩
  kept := by
    intro u hu d hd hquota
    rw [← held_relabel hf] at hquota
    refine h.kept u hu ⟨f d.agent, d.reach⟩ ?_ hquota
    rw [relabel, List.getElem?_map, Option.mem_def.mp hd]
    rfl

theorem Stable.of_relabel {f : ι → ι'} (hf : f.Injective) (h : (S.relabel f).Stable share) :
    S.Stable share := by
  have hlength : (S.relabel f).demands.length = S.demands.length := List.length_map _
  rw [Stable, hlength] at h
  exact StableUpTo.of_relabel hf h

end Relabel

section Without

variable (S) (share) (b : ι)

/-- Agent `b` leaves, and the others have another quota. -/
def without (quota : ℕ) : Sharing ι κ where
  demands := S.demands.filter (·.agent ≠ b)
  items := S.items
  quota := quota

/-- The number of a demand when the demands of `b` are left out. -/
def renumber (t : ℕ) : ℕ := (S.demands.take t).countP (·.agent ≠ b)

/-- The items of `b` are given back. -/
def withdraw : ShareOut κ := fun k =>
  if S.owner share k = some b then none else (share k).map (S.renumber b)

/-- Only the items of `b` change hands when it leaves: the others stay with their demands. -/
structure HandedOn (share' : ShareOut κ) (quota : ℕ) : Prop where
  stable : S.Stable share
  stable_after : (S.without b quota).Stable share'
  kept : ∀ k ∈ S.items, S.owner share k ≠ some b → share' k = (share k).map (S.renumber b)

variable {S} {share} {b} {quota : ℕ}

theorem renumber_mono {t' : ℕ} (h : t ≤ t') : S.renumber b t ≤ S.renumber b t' :=
  (List.take_sublist_take_left h).countP_le

theorem renumber_succ {d : Demand ι κ} (hd : d ∈ S.demands[t]?) (hb : d.agent ≠ b) :
    S.renumber b (t + 1) = S.renumber b t + 1 := by
  rw [renumber, List.take_add_one, Option.mem_def.mp hd, List.countP_append]
  simp [renumber, hb]

theorem renumber_lt {d : Demand ι κ} (hd : d ∈ S.demands[t]?) (hb : d.agent ≠ b) {t' : ℕ}
    (h : t < t') : S.renumber b t < S.renumber b t' := by
  have hle := renumber_mono (S := S) (b := b) h
  rw [Nat.succ_eq_add_one, renumber_succ hd hb] at hle
  exact hle

theorem getElem?_without {d : Demand ι κ} (hd : d ∈ S.demands[t]?) (hb : d.agent ≠ b) :
    (S.without b quota).demands[S.renumber b t]? = some d := by
  obtain ⟨hlt, hget⟩ := List.getElem?_eq_some_iff.mp hd
  have hsplit : S.demands = S.demands.take t ++ d :: S.demands.drop (t + 1) := by
    rw [← hget, List.getElem_cons_drop, List.take_append_drop]
  have hfilter : (S.without b quota).demands = (S.demands.take t).filter (·.agent ≠ b) ++
      d :: (S.demands.drop (t + 1)).filter (·.agent ≠ b) := by
    rw [without]
    nth_rewrite 1 [hsplit]
    rw [List.filter_append, List.filter_cons_of_pos (by simpa using hb)]
  rw [hfilter, renumber, List.countP_eq_length_filter, List.getElem?_append_right le_rfl]
  simp

theorem exists_of_getElem?_without {d : Demand ι κ} {t' : ℕ}
    (hd : d ∈ (S.without b quota).demands[t']?) :
    ∃ t, d ∈ S.demands[t]? ∧ d.agent ≠ b ∧ S.renumber b t = t' := by
  obtain ⟨t, ht, hb, hnumber⟩ := exists_getElem?_of_filter hd
  exact ⟨t, ht, by simpa using hb, hnumber⟩

/-- What an item that is not withdrawn was given to. -/
theorem Stable.mem_withdraw (h : S.Stable share) {k : κ} (hk : k ∈ S.items) {u' : ℕ} :
    u' ∈ S.withdraw share b k ↔
      ∃ u ∈ share k, ∃ d ∈ S.demands[u]?, d.agent ≠ b ∧ S.renumber b u = u' := by
  unfold withdraw owner
  cases hu : share k with
  | none => simp
  | some u =>
      obtain ⟨-, d, hd, -⟩ := h.served k hk u hu
      have hagent : S.agentAt u = some d.agent := by
        rw [agentAt, Option.mem_def.mp hd, Option.map_some]
      rw [Option.bind_some, hagent]
      by_cases hb : d.agent = b <;> simp [Option.mem_def.mp hd, hb]

theorem Stable.held_withdraw (h : S.Stable share) {i : ι} (hi : i ≠ b) (t : ℕ) :
    (S.without b quota).held (S.withdraw share b) i (S.renumber b t) = S.held share i t := by
  ext k
  simp only [mem_held]
  refine and_congr_right fun hk => ?_
  constructor
  · rintro ⟨u', hu', hlt, hagent⟩
    obtain ⟨u, hu, d, hd, hb, rfl⟩ := (h.mem_withdraw hk).mp hu'
    refine ⟨u, hu, lt_of_not_ge fun hge => ?_, ?_⟩
    · exact absurd (renumber_mono hge) (Nat.not_le_of_lt hlt)
    · rw [agentAt, getElem?_without hd hb] at hagent
      rw [agentAt, Option.mem_def.mp hd]
      exact hagent
  · rintro ⟨u, hu, hlt, hagent⟩
    obtain ⟨-, d, hd, -⟩ := h.served k hk u hu
    rw [agentAt, Option.mem_def.mp hd, Option.map_some, Option.some.injEq] at hagent
    have hb : d.agent ≠ b := hagent ▸ hi
    refine ⟨S.renumber b u, (h.mem_withdraw hk).mpr ⟨u, hu, d, hd, hb, rfl⟩,
      renumber_lt hd hb hlt, ?_⟩
    rw [agentAt, getElem?_without hd hb, Option.map_some, hagent]

/--
The items of `b` are given back and its demands left out.  The share-out is still stable if
no demand of another agent reaches an item of `b` with quota left.
-/
theorem Stable.withdraw (h : S.Stable share)
    (hunwanted : ∀ t < S.demands.length, ∀ d ∈ S.demands[t]?, d.agent ≠ b →
      #(S.held share d.agent t) ≠ S.quota → ∀ k ∈ S.items, k ∈ d.reach →
        S.owner share k ≠ some b) :
    (S.without b S.quota).Stable (S.withdraw share b) where
  served := by
    intro k hk u' hu'
    obtain ⟨u, hu, d, hd, hb, rfl⟩ := (h.mem_withdraw hk).mp hu'
    obtain ⟨-, d', hd', hreach, hquota⟩ := h.served k hk u hu
    cases Option.mem_unique hd hd'
    have hget : (S.without b S.quota).demands[S.renumber b u]? = some d :=
      getElem?_without hd hb
    exact ⟨(List.getElem?_eq_some_iff.mp hget).1, d, hget, hreach,
      by rwa [h.held_withdraw hb]⟩
  kept := by
    intro u' hu' d hd hquota k hk hreach
    obtain ⟨u, hdu, hb, rfl⟩ := exists_of_getElem?_without hd
    rw [h.held_withdraw hb] at hquota
    have hlt := (List.getElem?_eq_some_iff.mp hdu).1
    obtain ⟨w, hw, hle⟩ := h.kept u hlt d hdu hquota k hk hreach
    have howner := hunwanted u hlt d hdu hb hquota k hk hreach
    refine ⟨S.renumber b w, ?_, renumber_mono hle⟩
    rw [Sharing.withdraw, if_neg howner, Option.mem_def.mp hw]
    rfl

theorem Stable.handedOn (h : S.Stable share)
    (hunwanted : ∀ t < S.demands.length, ∀ d ∈ S.demands[t]?, d.agent ≠ b →
      #(S.held share d.agent t) ≠ S.quota → ∀ k ∈ S.items, k ∈ d.reach →
        S.owner share k ≠ some b) :
    S.HandedOn share b (S.withdraw share b) S.quota where
  stable := h
  stable_after := h.withdraw hunwanted
  kept := fun k _ howner => by rw [Sharing.withdraw, if_neg howner]

theorem HandedOn.owner_eq {share' : ShareOut κ} (h : S.HandedOn share b share' quota) {k : κ}
    (hk : k ∈ S.items) (howner : S.owner share k ≠ some b) :
    (S.without b quota).owner share' k = S.owner share k := by
  rw [owner, h.kept k hk howner, owner]
  cases hu : share k with
  | none => rfl
  | some u =>
      obtain ⟨-, d, hd, -⟩ := h.stable.served k hk u hu
      have hagent : S.agentAt u = some d.agent := by
        rw [agentAt, Option.mem_def.mp hd, Option.map_some]
      have hb : d.agent ≠ b := by
        rintro rfl
        exact howner (by rw [owner, hu, Option.bind_some, hagent])
      rw [Option.map_some, Option.bind_some, Option.bind_some, hagent, agentAt,
        getElem?_without hd hb, Option.map_some]

end Without

end Sharing

end Udplb.Foundation
