import Udplb.Rlt.RobustSimple

/-!
# The robust Fibonacci table

The backends take turns as in the simple construction, but a turn is a run of
`fib[i]` claims, cut short by the quota.  The list of run lengths is finite: after
its last entry a backend has claimed `fib.sum` slots at most, however large its
quota is.  What is then left of the table stays with backend 0, so a share above
that bound is not reached by the other backends.

A claim goes to the first empty slot behind the backend's start slot, so which slots
are left empty is settled by the start slots and the number of claims.
-/

namespace Udplb.Rlt

open Udplb.Foundation

/-- The innermost loop, with the `break` that bans the backend. -/
def fibRun (fuel m j : Nat) : Nat → Filling → Except Stop Filling
  | 0, s => .ok s
  | run + 1, s =>
      if s.distribution.getD j 0 < 1 then .ok { s with banned := s.banned.insert j }
      else do
        let s ← claimNext fuel m s j
        fibRun fuel m j run s

/-- The turns `(fib[i], j)` in order; all banned is the jump to `exitLoop`. -/
def fibTurns (fuel n m : Nat) : List (Nat × Nat) → Filling → Except Stop Filling
  | [], s => .ok s
  | (run, j) :: turns, s =>
      if uint32 s.banned.length = n then .ok s
      else if s.distribution.getD j 0 < 1 then fibTurns fuel n m turns s
      else do
        let s ← fibRun fuel m j run s
        fibTurns fuel n m turns s

def turnOrder (runs : List Nat) (n : Nat) : List (Nat × Nat) :=
  runs.flatMap fun run => (List.range n).map fun j => (run, j)

/-- The construction up to the label `exitLoop`. -/
def fibPhase (fuel : Nat) (availableBackends : List Backend) (n m : Nat) :
    Except Stop Filling := do
  let s ← startSlots availableBackends n m
  fibTurns fuel n m (turnOrder fib n) s

def robustFibLookupTable (fuel : Nat) (availableBackends : List Backend) (m : UInt32) :
    Except Stop (List Nat) :=
  let n := uint32 availableBackends.length
  -- The remainder `m % n` is computed first.
  if n = 0 then .error (.runtime .divideByZero)
  else do
    let s ← fibPhase fuel availableBackends n m.toNat
    completeTable n (m.toNat % n) s

/-! ## The turns -/

/-- Claims that the turns of backend `j` allow. -/
def allowance (turns : List (Nat × Nat)) (j : Nat) : Nat :=
  (turns.map fun turn => if turn.2 = j then turn.1 else 0).sum

theorem allowance_append (turns turns' : List (Nat × Nat)) (j : Nat) :
    allowance (turns ++ turns') j = allowance turns j + allowance turns' j := by
  simp [allowance]

theorem allowance_cons (run i : Nat) (turns : List (Nat × Nat)) (j : Nat) :
    allowance ((run, i) :: turns) j = (if j = i then run else 0) + allowance turns j := by
  simp [allowance, eq_comm]

theorem allowance_round (run n j : Nat) :
    allowance ((List.range n).map fun i => (run, i)) j = if j < n then run else 0 := by
  induction n with
  | zero => rfl
  | succ n ih =>
      rw [List.range_succ, List.map_append, allowance_append, ih, List.map_singleton,
        allowance_cons, show allowance [] j = 0 from rfl]
      split <;> split <;> split <;> omega

theorem allowance_turnOrder {n j : Nat} (hj : j < n) (runs : List Nat) :
    allowance (turnOrder runs n) j = runs.sum := by
  induction runs with
  | nil => rfl
  | cons run runs ih =>
      rw [turnOrder] at ih ⊢
      rw [List.flatMap_cons, allowance_append, allowance_round, if_pos hj, ih,
        List.sum_cons]

section Turns

variable {backends : List Backend} {m fuel : Nat}

/-- Only backends without a quota are banned. -/
structure Fair (backends : List Backend) (m : Nat) (s : Filling) : Prop where
  valid : s.Valid backends m
  nodup_banned : s.banned.Nodup
  banned_lt : ∀ j ∈ s.banned, j < backends.length
  banned_spent : ∀ j ∈ s.banned, s.distribution.getD j 0 = 0

theorem Fair.ban {s : Filling} (hs : Fair backends m s) {j : Nat}
    (hj : j < backends.length) (hspent : s.distribution.getD j 0 = 0) :
    Fair backends m { s with banned := s.banned.insert j } where
  valid := hs.valid.ban _
  nodup_banned := hs.nodup_banned.insert
  banned_lt := by
    intro k hk
    rcases List.mem_insert_iff.mp hk with rfl | hk
    · exact hj
    · exact hs.banned_lt k hk
  banned_spent := by
    intro k hk
    rcases List.mem_insert_iff.mp hk with rfl | hk
    · exact hspent
    · exact hs.banned_spent k hk

theorem fibRun_returns (hm : m < 2 ^ 32) (hfuel : m ≤ fuel) {j : Nat}
    (hj : j < backends.length) (run : Nat) {s : Filling} (hs : Fair backends m s) :
    Returns (fibRun fuel m j run s) fun s' =>
      Fair backends m s' ∧ ∀ v, s'.distribution.getD v 0 =
        s.distribution.getD v 0 - if v = j then run else 0 := by
  induction run generalizing s with
  | zero => exact .ok ⟨hs, by simp⟩
  | succ run ih =>
      rw [fibRun]
      by_cases hquota : s.distribution.getD j 0 < 1
      · have hspent : s.distribution.getD j 0 = 0 := Nat.lt_one_iff.mp hquota
        rw [if_pos hquota]
        refine .ok ⟨hs.ban hj hspent, fun v => ?_⟩
        by_cases hv : v = j
        · rw [if_pos hv, hv, hspent, Nat.zero_sub]
        · rw [if_neg hv, Nat.sub_zero]
      · rw [if_neg hquota]
        refine (claimNext_returns hm hfuel hs.valid hj (by omega)).bind ?_
        rintro s' ⟨hs', hbanned, hclaim⟩
        have hfair : Fair backends m s' := by
          refine ⟨hs', hbanned ▸ hs.nodup_banned, hbanned ▸ hs.banned_lt, ?_⟩
          intro k hk
          rw [hclaim, hs.banned_spent k (hbanned ▸ hk), Nat.zero_sub]
        refine (ih hfair).mono ?_
        rintro s'' ⟨hs'', hrest⟩
        refine ⟨hs'', fun v => ?_⟩
        rw [hrest, hclaim]
        split <;> omega

/-- When every backend is banned, no quota is left. -/
theorem Fair.spent_of_all_banned {s : Filling} (hs : Fair backends m s)
    (hn : backends.length < 2 ^ 32) (hall : uint32 s.banned.length = backends.length)
    {v : Nat} (hv : v < backends.length) : s.distribution.getD v 0 = 0 := by
  have hsub : s.banned.Subperm (List.range backends.length) :=
    hs.nodup_banned.subperm fun k hk => List.mem_range.mpr (hs.banned_lt k hk)
  have hle := hsub.length_le
  rw [List.length_range] at hle
  rw [uint32_of_lt (by omega)] at hall
  have hperm := hsub.perm_of_length_le (by rw [List.length_range, hall])
  exact hs.banned_spent v (hperm.mem_iff.mpr (List.mem_range.mpr hv))

theorem fibTurns_returns (hn : backends.length < 2 ^ 32) (hm : m < 2 ^ 32)
    (hfuel : m ≤ fuel) {turns : List (Nat × Nat)}
    (hturns : ∀ turn ∈ turns, turn.2 < backends.length) {s : Filling}
    (hs : Fair backends m s) :
    Returns (fibTurns fuel backends.length m turns s) fun s' =>
      s'.Valid backends m ∧ ∀ v < backends.length,
        s'.distribution.getD v 0 = s.distribution.getD v 0 - allowance turns v := by
  induction turns generalizing s with
  | nil => exact .ok ⟨hs.valid, by simp [allowance]⟩
  | cons turn turns ih =>
      obtain ⟨run, j⟩ := turn
      have hj : j < backends.length := hturns (run, j) (by simp)
      have hrest : ∀ turn ∈ turns, turn.2 < backends.length :=
        fun turn hmem => hturns turn (List.mem_cons_of_mem _ hmem)
      rw [fibTurns]
      by_cases hexit : uint32 s.banned.length = backends.length
      · rw [if_pos hexit]
        refine .ok ⟨hs.valid, fun v hv => ?_⟩
        rw [hs.spent_of_all_banned hn hexit hv, Nat.zero_sub]
      · rw [if_neg hexit]
        by_cases hquota : s.distribution.getD j 0 < 1
        · rw [if_pos hquota]
          refine (ih hrest hs).mono ?_
          rintro s' ⟨hs', hspent⟩
          refine ⟨hs', fun v hv => ?_⟩
          rw [hspent v hv, allowance_cons]
          by_cases hvj : v = j
          · subst hvj
            omega
          · rw [if_neg hvj, Nat.zero_add]
        · rw [if_neg hquota]
          refine (fibRun_returns hm hfuel hj run hs).bind ?_
          rintro s' ⟨hs', hrun⟩
          refine (ih hrest hs').mono ?_
          rintro s'' ⟨hs'', hspent⟩
          refine ⟨hs'', fun v hv => ?_⟩
          rw [hspent v hv, hrun, allowance_cons, Nat.sub_sub]

/-- A backend claims its quota or `fib.sum` slots, whichever is less. -/
theorem fibPhase_returns (hn : 0 < backends.length) (hnm : backends.length ≤ m)
    (hm : m < 2 ^ 32) (hfuel : m ≤ fuel) :
    Returns (fibPhase fuel backends backends.length m) fun s =>
      s.Valid backends m ∧ ∀ j < backends.length, s.lup.count (some j) =
        startShare backends m j + min (m / backends.length - 1) fib.sum := by
  have hquota : 0 < m / backends.length := Nat.div_pos hnm hn
  refine (startSlots_valid hquota).bind ?_
  rintro s₀ ⟨hs₀, hbanned, hquotas⟩
  have hfair : Fair backends m s₀ := by
    refine ⟨hs₀, ?_, ?_, ?_⟩ <;> simp [hbanned]
  refine (fibTurns_returns (by omega) hm hfuel ?_ hfair).mono ?_
  · intro turn hturn
    simp only [turnOrder, List.mem_flatMap, List.mem_map, List.mem_range] at hturn
    obtain ⟨run, -, j, hj, rfl⟩ := hturn
    exact hj
  · rintro s ⟨hs, hspent⟩
    refine ⟨hs, fun j hj => ?_⟩
    have hbalance := hs.balance j hj
    rw [hspent j hj, hquotas j hj, allowance_turnOrder hj] at hbalance
    omega

end Turns

/-! ## The slots that are left empty -/

/-- The slots that backend `v` claims, the start slot included. -/
def claims (backends : List Backend) (m v : Nat) : Nat :=
  startShare backends m v + min (m / backends.length - 1) fib.sum

/-- The backends that start at most `t` slots before `x` claim at most `t` slots. -/
def LeftEmpty (backends : List Backend) (m x : Nat) : Prop :=
  ∀ t < m, ∑ v ∈ Finset.range backends.length with distance m x (home backends m v) ≤ t,
    claims backends m v ≤ t

instance (backends : List Backend) (m x : Nat) : Decidable (LeftEmpty backends m x) := by
  unfold LeftEmpty
  infer_instance

/--
Backend `v` gets one of the first `n` slots: they are dealt to backend 0, 1 and so on as far as
they are left empty, and up to the remainder, or without a bound if the remainder is 0.
-/
def remainderTurn (backends : List Backend) (m v : Nat) : Nat :=
  if v < min (uint32Pred (m % backends.length) + 1)
      ((List.range backends.length).countP fun x => LeftEmpty backends m x) then 1
  else 0

theorem remainderTurn_le (backends : List Backend) (m v : Nat) :
    remainderTurn backends m v ≤ 1 := by
  unfold remainderTurn
  split <;> omega

section LeftEmpty

variable {backends : List Backend} {m : Nat} {s : Filling}

theorem card_filter_owner (lup : List (Option Nat)) (v : Nat) :
    ((Finset.range lup.length).filter fun y => lup.getD y none = some v).card =
      lup.count (some v) := by
  rw [count_eq_countP_range, ← Nat.count_eq_card_filter_range, Nat.count]
  apply List.countP_congr
  intro y hy
  rw [List.getD_eq_getElem?_getD, List.getElem?_eq_getElem (List.mem_range.mp hy)]
  simp

theorem Filling.Valid.card_crowd (hs : s.Valid backends m) (x t : Nat) :
    (crowd m (home backends m) (s.lup.getD · none) x t).card =
      ∑ v ∈ Finset.range backends.length with distance m x (home backends m v) ≤ t,
        s.lup.count (some v) := by
  have hlength := hs.shaped.length_lup
  rw [Finset.card_eq_sum_card_fiberwise (f := fun y => (s.lup.getD y none).getD 0)
    (t := {v ∈ Finset.range backends.length | distance m x (home backends m v) ≤ t})]
  · refine Finset.sum_congr rfl fun v hv => ?_
    obtain ⟨-, hnear⟩ := Finset.mem_filter.mp hv
    rw [← card_filter_owner, hlength, crowd, Finset.filter_filter]
    congr 1
    refine Finset.filter_congr fun y _ => ?_
    cases s.lup.getD y none with
    | none => simp
    | some w =>
        simp only [Option.mem_some_iff, exists_eq_left', Option.getD_some, Option.some.injEq]
        constructor
        · exact And.right
        · rintro rfl
          exact ⟨hnear, rfl⟩
  · intro y hy
    obtain ⟨hy, v, hv, hnear⟩ := Finset.mem_filter.mp hy
    have hget : s.lup.getD y none = some v := hv
    have hmem : some v ∈ s.lup := by
      have hlt : y < s.lup.length := by simpa [hlength] using hy
      rw [← hget, List.getD_eq_getElem _ _ hlt]
      exact List.getElem_mem hlt
    refine Finset.mem_coe.mpr (Finset.mem_filter.mpr ?_)
    simp only [hget, Option.getD_some]
    exact ⟨Finset.mem_range.mpr (hs.lup_lt v hmem), hnear⟩

/-- The slots without an owner are settled by the start slots and the number of claims. -/
theorem Filling.Valid.empty_iff (hs : s.Valid backends m)
    (hclaimed : ∀ j < backends.length, s.lup.count (some j) = claims backends m j)
    {x : Nat} (hx : x < m) : s.lup.getD x none = none ↔ LeftEmpty backends m x := by
  have hhome : ∀ y < m, ∀ v ∈ s.lup.getD y none, home backends m v < m :=
    fun _ _ v _ => home_lt (Nat.zero_lt_of_lt hx) v
  rw [hs.probed.empty_iff hhome hx]
  refine forall_congr' fun t => imp_congr_right fun _ => ?_
  rw [hs.card_crowd, Finset.sum_congr rfl fun v hv =>
    hclaimed v (Finset.mem_range.mp (Finset.mem_filter.mp hv).1)]

theorem Filling.Valid.remainderShare_eq (hs : s.Valid backends m)
    (hclaimed : ∀ j < backends.length, s.lup.count (some j) = claims backends m j)
    (hnm : backends.length ≤ m) (v : Nat) :
    remainderShare backends.length (m % backends.length) s.lup v =
      remainderTurn backends m v := by
  have hcount : (List.range backends.length).countP (fun x => s.lup.getD x none = none) =
      (List.range backends.length).countP fun x => LeftEmpty backends m x := by
    apply List.countP_congr
    intro x hx
    have hlt : x < m := Nat.lt_of_lt_of_le (List.mem_range.mp hx) hnm
    simp only [decide_eq_true_eq]
    exact hs.empty_iff hclaimed hlt
  rw [remainderShare, dealt, hcount, Nat.sub_zero, remainderTurn]

end LeftEmpty

/-! ## The shares -/

theorem sum_count {n : Nat} {table : List Nat} (hentries : ∀ v ∈ table, v < n) :
    ∑ v ∈ Finset.range n, table.count v = table.length := by
  have hsum : ∑ v ∈ Finset.range n, (table.map some).count (some v) =
      (table.map some).length := by
    apply sum_count_some
    intro slot hslot
    obtain ⟨v, hv, rfl⟩ := List.mem_map.mp hslot
    exact ⟨v, hentries v hv, rfl⟩
  simpa [List.count_map_of_injective _ _ (Option.some_injective _)] using hsum

/-- What the other backends do not take is enough for backend 0. -/
theorem share_le_count_zero {n : Nat} {table : List Nat} (bound : Nat) (hn : 0 < n)
    (hentries : ∀ v ∈ table, v < n)
    (hothers : ∀ j < n, j ≠ 0 → table.count j ≤ bound + 2)
    (hzero : min (table.length / n - 1) bound ≤ table.count 0) :
    table.length / n - 1 ≤ table.count 0 := by
  by_cases hbound : table.length / n - 1 ≤ bound
  · omega
  · obtain ⟨others, rfl⟩ : ∃ others, n = others + 1 := ⟨n - 1, by omega⟩
    set share := table.length / (others + 1) with hshare
    have htaken : ∑ j ∈ Finset.range others, table.count (j + 1) ≤ others * share := by
      calc ∑ j ∈ Finset.range others, table.count (j + 1)
          ≤ ∑ _j ∈ Finset.range others, share := by
            apply Finset.sum_le_sum
            intro j hj
            have hlt := Finset.mem_range.mp hj
            have := hothers (j + 1) (by omega) (Nat.succ_ne_zero j)
            omega
        _ = others * share := by
            rw [Finset.sum_const_nat fun _ _ => rfl, Finset.card_range]
    have hsum := sum_count hentries
    have htotal : (others + 1) * share ≤ table.length := Nat.mul_div_le _ _
    rw [Finset.sum_range_succ'] at hsum
    rw [Nat.add_mul, Nat.one_mul] at htotal
    omega

theorem robustFibLookupTable_shares {fuel : Nat} {backends : List Backend} {m : UInt32}
    (hne : backends ≠ []) (hm : backends.length ≤ m.toNat) (hfuel : m.toNat ≤ fuel) :
    ∃ table,
      robustFibLookupTable fuel backends m = .ok table ∧
      table.length = m.toNat ∧ (∀ v ∈ table, v < backends.length) ∧
      m.toNat / backends.length - 1 ≤ table.count 0 ∧
      ∀ j < backends.length, j ≠ 0 →
        table.count j = claims backends m.toNat j + remainderTurn backends m.toNat j := by
  have hn : 0 < backends.length := List.length_pos_iff.mpr hne
  have hlt : m.toNat < 2 ^ 32 := m.toNat_lt
  have hwidth : uint32 backends.length = backends.length := uint32_of_lt (by omega)
  obtain ⟨s, hphase, hs, hclaimed⟩ := fibPhase_returns hn hm hlt hfuel
  obtain ⟨table, htable, hlength, hentries, hkept, hexact⟩ :
      Returns (completeTable backends.length (m.toNat % backends.length) s) _ :=
    completeTable_spec hs hn hm
  have hothers : ∀ j < backends.length, j ≠ 0 →
      table.count j = claims backends m.toNat j + remainderTurn backends m.toNat j := by
    intro j hj hj0
    rw [hexact j hj0, hclaimed j hj, hs.remainderShare_eq hclaimed hm]
    rfl
  refine ⟨table, ?_, hlength, hentries, ?_, hothers⟩
  · unfold robustFibLookupTable
    simp only [hwidth, if_neg (Nat.ne_of_gt hn)]
    rw [hphase]
    exact htable
  · rw [← hlength]
    refine share_le_count_zero fib.sum hn hentries ?_ ?_
    · intro j hj hj0
      have := startShare_le backends m.toNat j
      have := remainderTurn_le backends m.toNat j
      rw [hothers j hj hj0, claims]
      omega
    · have := hkept 0
      rw [hclaimed 0 hn] at this
      rw [hlength]
      omega

/--
The call always returns a table of `m` entries that name a backend, and backend 0 owns
enough.  Another backend owns `m / n - 1` slots exactly when that is within the sum of
the run lengths, its start slot and its turn of the remainder included.
-/
theorem robustFibLookupTable_shares_iff (fuel : Nat) (backends : List Backend)
    (m : UInt32) (hne : backends ≠ []) (hm : backends.length ≤ m.toNat)
    (hfuel : m.toNat ≤ fuel) :
    ∃ table,
      robustFibLookupTable fuel backends m = .ok table ∧
      table.length = m.toNat ∧ (∀ v ∈ table, v < backends.length) ∧
      ((∀ j < backends.length, m.toNat / backends.length - 1 ≤ table.count j) ↔
        ∀ j < backends.length, j ≠ 0 →
          m.toNat / backends.length ≤ fib.sum + 1 + startShare backends m.toNat j +
            remainderTurn backends m.toNat j) := by
  obtain ⟨table, htable, hlength, hentries, hzero, hothers⟩ :=
    robustFibLookupTable_shares hne hm hfuel
  refine ⟨table, htable, hlength, hentries, ?_⟩
  constructor
  · intro hshares j hj hj0
    have := hshares j hj
    rw [hothers j hj hj0, claims] at this
    omega
  · intro hbound j hj
    by_cases hj0 : j = 0
    · rw [hj0]
      exact hzero
    · have := hbound j hj hj0
      rw [hothers j hj hj0, claims]
      omega

theorem robustFibLookupTable_shares_iff_three_backends :
    ∃ table,
      robustFibLookupTable 7 [makeBackend 0, makeBackend 1, makeBackend 2] 7 = .ok table ∧
      ∀ j < 3, (7 : UInt32).toNat / 3 - 1 ≤ table.count j := by
  obtain ⟨table, htable, -, -, hiff⟩ := robustFibLookupTable_shares_iff 7
    [makeBackend 0, makeBackend 1, makeBackend 2] 7 (by simp) (by decide) (by decide)
  refine ⟨table, htable, hiff.mpr fun j _ _ => ?_⟩
  have hquota : (7 : UInt32).toNat / 3 ≤ fib.sum := by decide
  exact hquota.trans (by omega)

/-- Two backends share the largest table; the second one gets a third of its half. -/
theorem two_backends_unevenly_shared :
    ∃ table,
      robustFibLookupTable 65536 [makeBackend 0, makeBackend 1] 65536 = .ok table ∧
      table.count 1 < 65536 / 2 - 1 := by
  obtain ⟨table, htable, -, -, -, hothers⟩ :
      ∃ table, robustFibLookupTable 65536 [makeBackend 0, makeBackend 1] 65536 =
        .ok table ∧ _ :=
    robustFibLookupTable_shares (by simp) (by decide) (by decide)
  have hstart := startShare_le [makeBackend 0, makeBackend 1] (65536 : UInt32).toNat 1
  have hturn := remainderTurn_le [makeBackend 0, makeBackend 1] (65536 : UInt32).toNat 1
  have hsum : fib.sum = 10935 := by decide
  refine ⟨table, htable, ?_⟩
  rw [hothers 1 (by decide) (by decide), claims]
  omega

end Udplb.Rlt
