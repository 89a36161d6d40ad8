import Mathlib.Algebra.Order.BigOperators.Group.Finset
import Udplb.Foundation.Probing
import Udplb.Rlt.NaiveFib

/-!
# What the robust tables share

Both robust constructions give every backend the slot of its first coordinate, let
the backends claim further empty slots one after the other while their quotas last,
deal some of the first slots to make up for the remainder, and leave backend 0
whatever is still empty.  They differ in the order of the claims only.

`lup` is a map with keys below `m`, modelled as a list with a place for each of
them.  A key outside the table, possible when there are more backends than slots,
stops the model where it is written; the program stops when it copies `lup` to its
output.  The search for an empty slot has no bound of its own and is a `loop`.
-/

namespace Udplb.Rlt

open Udplb.Foundation

structure Filling where
  lup : List (Option Nat)
  M : List Nat
  distribution : List Nat
  banned : List Nat
  deriving DecidableEq, Repr

def Filling.init (n m : Nat) : Filling where
  lup := List.replicate m none
  M := List.replicate n 0
  distribution := List.replicate n (m / n)
  banned := []

/-- Backend `j` takes slot `idx`, its latest one from now on. -/
def Filling.claim (s : Filling) (j idx : Nat) : Filling :=
  { s with
    lup := s.lup.set idx (some j)
    M := s.M.set j idx
    distribution := s.distribution.set j (uint32Pred (s.distribution.getD j 0)) }

def firstCoordinate (backend : Backend) : Nat :=
  (backend.coordinates.get ⟨0, by decide⟩).toNat

def claimStart (availableBackends : List Backend) (m : Nat) (s : Filling) (j : Nat) :
    Except Stop Filling :=
  match availableBackends[j]? with
  | none => .error (.runtime .indexOutOfRange)
  | some backend =>
      if m = 0 then .error (.runtime .divideByZero)
      else .ok (s.claim j (firstCoordinate backend % m))

def startSlots (availableBackends : List Backend) (n m : Nat) : Except Stop Filling :=
  (List.range n).foldlM (claimStart availableBackends m) (Filling.init n m)

/-- One iteration of the search for an empty slot. -/
def probe (m : Nat) (lup : List (Option Nat)) (Mj : Nat) : Except Stop (Nat ⊕ Nat) :=
  let Mj := if uint32Pred m < Mj then 0 else Mj
  if lup.getD Mj none = none then .ok (.inr Mj) else .ok (.inl (uint32 (Mj + 1)))

def claimNext (fuel m : Nat) (s : Filling) (j : Nat) : Except Stop Filling := do
  let Mj ← loop (probe m s.lup) .unfinished fuel (uint32 (s.M.getD j 0 + 1))
  .ok (s.claim j Mj)

/-- The loop over the first slots.  The bound `rem - 1` wraps when `rem` is 0. -/
def fillRemainder (rem : Nat) : List Nat → Nat → List (Option Nat) →
    Except Stop (List (Option Nat))
  | [], _, lup => .ok lup
  | i :: slots, j, lup =>
      if uint32Pred rem < j then .ok lup
      else if lup.getD i none ≠ none then fillRemainder rem slots j lup
      else if i < lup.length then fillRemainder rem slots (j + 1) (lup.set i (some j))
      else .error (.runtime .indexOutOfRange)

/-- A slot that is not in the map keeps the 0 of a new slice. -/
def output (lup : List (Option Nat)) : List Nat :=
  lup.map (·.getD 0)

def completeTable (n rem : Nat) (s : Filling) : Except Stop (List Nat) := do
  let lup ← fillRemainder rem (List.range n) 0 s.lup
  .ok (output lup)

/-! ## Counting under a write -/

theorem count_set_empty {lup : List (Option Nat)} {idx : Nat} (hidx : idx < lup.length)
    (hempty : lup.getD idx none = none) (j v : Nat) :
    (lup.set idx (some j)).count (some v) =
      lup.count (some v) + if j = v then 1 else 0 := by
  have hnone : lup[idx] = none := by
    rwa [List.getD_eq_getElem?_getD, List.getElem?_eq_getElem hidx,
      Option.getD_some] at hempty
  rw [List.count_set hidx, hnone]
  simp

theorem sum_count_some {n : Nat} {lup : List (Option Nat)}
    (hfull : ∀ slot ∈ lup, ∃ v < n, slot = some v) :
    ∑ v ∈ Finset.range n, lup.count (some v) = lup.length := by
  have hcount : ∀ v, lup.count (some v) = lup.countP (id · = some v) := by
    intro v
    rw [List.count]
    apply List.countP_congr
    simp
  simp only [hcount]
  exact sum_countP_owner hfull

section Shape

variable {n m j idx : Nat} {s : Filling}

structure Filling.Shaped (n m : Nat) (s : Filling) : Prop where
  length_lup : s.lup.length = m
  length_M : s.M.length = n
  length_distribution : s.distribution.length = n
  M_lt : ∀ j, s.M.getD j 0 < m

theorem Filling.Shaped.claim (hs : s.Shaped n m) (hj : j < n) (hidx : idx < m) :
    (s.claim j idx).Shaped n m where
  length_lup := by simpa [Filling.claim] using hs.length_lup
  length_M := by simpa [Filling.claim] using hs.length_M
  length_distribution := by simpa [Filling.claim] using hs.length_distribution
  M_lt := by
    intro v
    have hlt : j < s.M.length := by rwa [hs.length_M]
    rw [Filling.claim, getD_set hlt]
    split
    · exact hidx
    · exact hs.M_lt v

/-- A claim takes one unit from a quota that is not used up. -/
theorem Filling.Shaped.quota_claim (hs : s.Shaped n m) (hj : j < n)
    (hquota : 0 < s.distribution.getD j 0) (idx v : Nat) :
    (s.claim j idx).distribution.getD v 0 =
      s.distribution.getD v 0 - if v = j then 1 else 0 := by
  have hlt : j < s.distribution.length := by rwa [hs.length_distribution]
  rw [Filling.claim, getD_set hlt, uint32Pred, if_neg (Nat.ne_of_gt hquota)]
  by_cases hv : v = j
  · rw [if_pos hv, if_pos hv, hv]
  · rw [if_neg hv, if_neg hv, Nat.sub_zero]

end Shape

/-! ## The start slots -/

def startSlot (backends : List Backend) (m j : Nat) : Option Nat :=
  backends[j]?.map (firstCoordinate · % m)

/-- The slot from which the claims of backend `j` go up. -/
def home (backends : List Backend) (m j : Nat) : Nat :=
  (startSlot backends m j).getD 0

/-- No later backend starts on the same slot and overwrites it. -/
def KeepsStart (backends : List Backend) (m j : Nat) : Prop :=
  ∀ later < backends.length, j < later →
    startSlot backends m later ≠ startSlot backends m j

instance (backends : List Backend) (m j : Nat) :
    Decidable (KeepsStart backends m j) := by
  unfold KeepsStart
  infer_instance

def startShare (backends : List Backend) (m j : Nat) : Nat :=
  if KeepsStart backends m j then 1 else 0

theorem startShare_le (backends : List Backend) (m j : Nat) :
    startShare backends m j ≤ 1 := by
  unfold startShare
  split <;> omega

/-- Of the first `i` backends, `v` is the last one to start on slot `x`. -/
def StartsLast (backends : List Backend) (m i v x : Nat) : Prop :=
  v < i ∧ startSlot backends m v = some x ∧
    ∀ later < i, v < later → startSlot backends m later ≠ some x

theorem startsLast_succ {backends : List Backend} {m i slot : Nat}
    (hstart : startSlot backends m i = some slot) (v x : Nat) :
    StartsLast backends m (i + 1) v x ↔
      if slot = x then i = v else StartsLast backends m i v x := by
  unfold StartsLast
  split
  · rename_i hx
    rw [hx] at hstart
    constructor
    · rintro ⟨hv, -, hlast⟩
      rcases Nat.lt_or_eq_of_le (Nat.le_of_lt_succ hv) with hless | rfl
      · exact absurd hstart (hlast i (Nat.lt_succ_self i) hless)
      · rfl
    · rintro rfl
      exact ⟨Nat.lt_succ_self i, hstart, fun later hlater hless => by omega⟩
  · rename_i hx
    have hother : startSlot backends m i ≠ some x := by
      rw [hstart]
      simpa using hx
    constructor
    · rintro ⟨hv, hvx, hlast⟩
      refine ⟨?_, hvx, fun later hlater => hlast later (by omega)⟩
      rcases Nat.lt_or_eq_of_le (Nat.le_of_lt_succ hv) with hv | rfl
      · exact hv
      · exact absurd hvx hother
    · rintro ⟨hv, hvx, hlast⟩
      refine ⟨by omega, hvx, fun later hlater hless => ?_⟩
      rcases Nat.lt_or_eq_of_le (Nat.le_of_lt_succ hlater) with hlater | rfl
      · exact hlast later hlater hless
      · exact hother

/-- The first `i` backends have taken their start slots. -/
structure Started (backends : List Backend) (m i : Nat) (s : Filling) : Prop where
  shaped : s.Shaped backends.length m
  banned : s.banned = []
  quota : ∀ j < backends.length,
    s.distribution.getD j 0 = m / backends.length - if j < i then 1 else 0
  owner : ∀ x v, s.lup[x]? = some (some v) ↔ StartsLast backends m i v x
  count_le : ∀ v, s.lup.count (some v) ≤ 1
  M_eq : ∀ j < i, s.M.getD j 0 = home backends m j
  home_taken : ∀ j < i, s.lup.getD (home backends m j) none ≠ none

theorem started_init (backends : List Backend) {m : Nat} (hm : 0 < m) :
    Started backends m 0 (Filling.init backends.length m) where
  shaped := by
    refine ⟨by simp [Filling.init], by simp [Filling.init], by simp [Filling.init], ?_⟩
    intro j
    simp [Filling.init, List.getD_eq_getElem?_getD, List.getElem?_replicate]
    split <;> simpa
  banned := rfl
  quota := by
    intro j hj
    simp [Filling.init, hj]
  owner := by simp [Filling.init, List.getElem?_replicate, StartsLast]
  count_le := by simp [Filling.init, List.count_replicate]
  M_eq := fun _ hj => absurd hj (Nat.not_lt_zero _)
  home_taken := fun _ hj => absurd hj (Nat.not_lt_zero _)

theorem claimStart_started {backends : List Backend} {m i : Nat} {s : Filling}
    (hquota : 0 < m / backends.length) (hi : i < backends.length)
    (hs : Started backends m i s) :
    Returns (claimStart backends m s i) (Started backends m (i + 1)) := by
  have hm : 0 < m := Nat.lt_of_lt_of_le hquota (Nat.div_le_self m _)
  have hbackend := List.getElem?_eq_getElem hi
  set slot := firstCoordinate backends[i] % m
  have hlt : slot < m := Nat.mod_lt _ hm
  have hstart : startSlot backends m i = some slot := by
    rw [startSlot, hbackend, Option.map_some]
  have hlup : slot < s.lup.length := by rwa [hs.shaped.length_lup]
  have hleft : 0 < s.distribution.getD i 0 := by
    rw [hs.quota i hi, if_neg (Nat.lt_irrefl i)]
    exact hquota
  unfold claimStart
  rw [hbackend]
  dsimp only
  rw [if_neg (Nat.ne_of_gt hm)]
  have hhome : home backends m i = slot := by rw [home, hstart, Option.getD_some]
  refine .ok ⟨hs.shaped.claim hi hlt, hs.banned, ?_, ?_, ?_, ?_, ?_⟩
  · intro j hj
    rw [hs.shaped.quota_claim hi hleft, hs.quota j hj]
    split <;> split <;> split <;> omega
  · intro x v
    rw [Filling.claim, List.getElem?_set, startsLast_succ hstart]
    split
    · simp
    · exact hs.owner x v
  · intro v
    rw [Filling.claim, List.count_set hlup]
    by_cases hv : i = v
    · have hfresh : s.lup.count (some v) = 0 := by
        rw [List.count_eq_zero]
        intro hmem
        obtain ⟨x, hx⟩ := List.mem_iff_getElem?.mp hmem
        have := ((hs.owner x v).mp hx).1
        omega
      simp [hfresh, hv]
    · have := hs.count_le v
      simp [hv]
      omega
  · intro j hj
    have hM : i < s.M.length := by rwa [hs.shaped.length_M]
    rw [Filling.claim, getD_set hM]
    by_cases hji : j = i
    · rw [if_pos hji, hji, hhome]
    · rw [if_neg hji]
      exact hs.M_eq j (by omega)
  · intro j hj
    rw [Filling.claim, getD_set hlup]
    by_cases hsame : home backends m j = slot
    · rw [if_pos hsame]
      exact Option.some_ne_none i
    · rw [if_neg hsame]
      refine hs.home_taken j ?_
      have hji : j ≠ i := fun heq => hsame (heq ▸ hhome)
      omega

theorem home_lt {backends : List Backend} {m : Nat} (hm : 0 < m) (j : Nat) :
    home backends m j < m := by
  rw [home, startSlot]
  cases backends[j]? with
  | none => exact hm
  | some backend => exact Nat.mod_lt _ hm

/--
What holds between two claims.  Each backend holds what is left of its start slot and
what it has taken from its quota since; the counts add up without a wrap.  From its start
slot up to its latest one no slot is empty.
-/
structure Filling.Valid (backends : List Backend) (m : Nat) (s : Filling) : Prop where
  shaped : s.Shaped backends.length m
  lup_lt : ∀ v, some v ∈ s.lup → v < backends.length
  balance : ∀ j < backends.length,
    s.lup.count (some j) + s.distribution.getD j 0 + 1 =
      startShare backends m j + m / backends.length
  probed : Probed m (home backends m) (s.lup.getD · none)
  latest : ∀ j < backends.length,
    TakenUpTo m (s.lup.getD · none) (home backends m j) (s.M.getD j 0)

theorem Started.count {backends : List Backend} {m : Nat} {s : Filling}
    (hs : Started backends m backends.length s) {j : Nat} (hj : j < backends.length) :
    s.lup.count (some j) = startShare backends m j := by
  have hslot : startSlot backends m j = some (firstCoordinate backends[j] % m) := by
    rw [startSlot, List.getElem?_eq_getElem hj, Option.map_some]
  by_cases hkeeps : KeepsStart backends m j
  · rw [startShare, if_pos hkeeps]
    unfold KeepsStart at hkeeps
    rw [hslot] at hkeeps
    have hmem : some j ∈ s.lup :=
      List.mem_of_getElem? ((hs.owner _ j).mpr ⟨hj, hslot, hkeeps⟩)
    have := List.count_pos_iff.mpr hmem
    have := hs.count_le j
    omega
  · rw [startShare, if_neg hkeeps, List.count_eq_zero]
    intro hmem
    obtain ⟨x, hx⟩ := List.mem_iff_getElem?.mp hmem
    obtain ⟨-, hjx, hlast⟩ := (hs.owner x j).mp hx
    rw [← hjx] at hlast
    exact hkeeps hlast

/-- A backend starts at home, and nothing is between a slot and itself. -/
theorem Started.takenUpTo {backends : List Backend} {m i : Nat} {s : Filling}
    (hs : Started backends m i s) {j : Nat} (hj : j < i) :
    TakenUpTo m (s.lup.getD · none) (home backends m j) (home backends m j) := by
  intro y hy hle
  have hhome : home backends m j < m := home_lt (Nat.zero_lt_of_lt hy) j
  have hsame : y = home backends m j := by
    unfold distance at hle
    split_ifs at hle <;> omega
  rw [hsame]
  exact hs.home_taken j hj

theorem startSlots_valid {backends : List Backend} {m : Nat}
    (hquota : 0 < m / backends.length) :
    Returns (startSlots backends backends.length m) fun s =>
      s.Valid backends m ∧ s.banned = [] ∧
        ∀ j < backends.length, s.distribution.getD j 0 = m / backends.length - 1 := by
  have hm : 0 < m := Nat.lt_of_lt_of_le hquota (Nat.div_le_self m _)
  refine Returns.mono (foldlM_range_returns (Started backends m)
    (started_init backends hm) fun i s hi hs => claimStart_started hquota hi hs) ?_
  intro s hs
  have hspent : ∀ j < backends.length,
      s.distribution.getD j 0 = m / backends.length - 1 := by
    intro j hj
    rw [hs.quota j hj, if_pos hj]
  refine ⟨⟨hs.shaped, ?_, ?_, ?_, ?_⟩, hs.banned, hspent⟩
  · intro v hmem
    obtain ⟨x, hx⟩ := List.mem_iff_getElem?.mp hmem
    exact ((hs.owner x v).mp hx).1
  · intro j hj
    rw [hs.count hj, hspent j hj]
    omega
  · intro x hx v hv
    have hget : s.lup[x]? = some (some v) := by
      have hlt : x < s.lup.length := by rwa [hs.shaped.length_lup]
      change v ∈ s.lup.getD x none at hv
      rw [List.getD_eq_getElem?_getD, List.getElem?_eq_getElem hlt, Option.getD_some] at hv
      rw [List.getElem?_eq_getElem hlt, Option.mem_def.mp hv]
    obtain ⟨hlt, hstart, -⟩ := (hs.owner x v).mp hget
    have hhome : home backends m v = x := by rw [home, hstart, Option.getD_some]
    have htaken := hs.takenUpTo hlt
    rwa [hhome] at htaken ⊢
  · intro j hj
    rw [hs.M_eq j hj]
    exact hs.takenUpTo hj

/-! ## The search for an empty slot -/

/-- The search looks at the slots one by one and stops at the first empty one. -/
theorem probe_returns {m e x : Nat} {lup : List (Option Nat)} (hm : m < 2 ^ 32)
    (he : e < m) (hempty : lup.getD e none = none)
    (hx : x ≤ m ∧ ∀ y < m, distance m y x < distance m e x → lup.getD y none ≠ none) :
    Returns (probe m lup x) (Sum.elim
      (fun next => (next ≤ m ∧ ∀ y < m, distance m y next < distance m e next →
        lup.getD y none ≠ none) ∧ distance m e next < distance m e x)
      (fun found => found = e)) := by
  obtain ⟨hle, hfirst⟩ := hx
  have hpred : uint32Pred m = m - 1 := by
    rw [uint32Pred, if_neg (by omega)]
  have hwrap : ∃ y < m, (if uint32Pred m < x then 0 else x) = y ∧
      ∀ z < m, distance m z x = distance m z y := by
    rcases hle.eq_or_lt with rfl | hlt
    · exact ⟨0, by omega, if_pos (by omega), fun z hz => distance_end hz⟩
    · exact ⟨x, hlt, if_neg (by omega), fun _ _ => rfl⟩
  obtain ⟨y, hlt, hy, hsame⟩ := hwrap
  unfold probe
  dsimp only
  rw [hy]
  by_cases hfound : lup.getD y none = none
  · rw [if_pos hfound]
    refine .ok ?_
    change y = e
    by_contra hne
    refine hfirst y hlt ?_ hfound
    rw [hsame y hlt, hsame e he, distance_self]
    exact distance_pos hlt hne
  · have hne : y ≠ e := fun h => hfound (h ▸ hempty)
    -- The slot looked at is not `e`, so there is one slot less to pass.
    have hnext := distance_succ hlt hne
    rw [if_neg hfound, uint32_of_lt (by omega)]
    refine .ok ⟨⟨Nat.succ_le_of_lt hlt, fun z hz hless => ?_⟩, by rw [hsame e he]; omega⟩
    by_cases hzy : y = z
    · exact hzy ▸ hfound
    · have := distance_succ hlt hzy
      exact hfirst z hz (by rw [hsame z hz, hsame e he]; omega)

/-- The search ends as soon as there is an empty slot, wherever it starts. -/
theorem search_returns {m fuel x : Nat} {lup : List (Option Nat)} (hm : m < 2 ^ 32)
    (hlength : lup.length = m) (hempty : none ∈ lup) (hx : x ≤ m) (hfuel : m ≤ fuel) :
    Returns (loop (probe m lup) .unfinished fuel x) fun found =>
      found < m ∧ lup.getD found none = none ∧
        ∀ y < m, distance m y x < distance m found x → lup.getD y none ≠ none := by
  obtain ⟨e₀, he₀⟩ := List.mem_iff_getElem?.mp hempty
  have hsome : ∃ e < m, lup.getD e none = none :=
    ⟨e₀, hlength ▸ (List.getElem?_eq_some_iff.mp he₀).1, by
      rw [List.getD_eq_getElem?_getD, he₀, Option.getD_some]⟩
  obtain ⟨e, he, hslot, hfirst⟩ := exists_first (x := x) hsome
  have hloop : Returns (loop (probe m lup) .unfinished fuel x) (· = e) :=
    loop_returns (distance m e) (fun _ => probe_returns hm he hslot) ⟨hx, hfirst⟩
      (Nat.lt_of_lt_of_le (distance_lt he hx) hfuel)
  refine hloop.mono ?_
  rintro found rfl
  exact ⟨he, hslot, hfirst⟩

/-- While a quota is left there is an empty slot: the quotas are less than the table. -/
theorem Filling.Valid.exists_empty {backends : List Backend} {m j : Nat} {s : Filling}
    (hs : s.Valid backends m) (hj : j < backends.length)
    (hquota : 0 < s.distribution.getD j 0) : none ∈ s.lup := by
  by_contra hfull
  -- A full table has `m` owners, but their shares stay below `n * (m / n)`.
  have hsum : ∑ v ∈ Finset.range backends.length, s.lup.count (some v) = m := by
    rw [← hs.shaped.length_lup]
    apply sum_count_some
    intro slot hslot
    cases slot with
    | none => exact absurd hslot hfull
    | some v => exact ⟨v, hs.lup_lt v hslot, rfl⟩
  have hshare : ∀ v ∈ Finset.range backends.length,
      s.lup.count (some v) ≤ m / backends.length := by
    intro v hv
    have := hs.balance v (Finset.mem_range.mp hv)
    have := startShare_le backends m v
    omega
  have hless : s.lup.count (some j) < m / backends.length := by
    have := hs.balance j hj
    have := startShare_le backends m j
    omega
  have hlt := Finset.sum_lt_sum hshare ⟨j, Finset.mem_range.mpr hj, hless⟩
  rw [hsum, Finset.sum_const_nat fun _ _ => rfl, Finset.card_range] at hlt
  exact absurd (Nat.mul_div_le m backends.length) (Nat.not_le_of_lt hlt)

/-- A claim with a quota left takes an empty slot and one unit of the quota. -/
theorem claimNext_returns {backends : List Backend} {m fuel j : Nat} {s : Filling}
    (hm : m < 2 ^ 32) (hfuel : m ≤ fuel) (hs : s.Valid backends m)
    (hj : j < backends.length) (hquota : 0 < s.distribution.getD j 0) :
    Returns (claimNext fuel m s j) fun s' =>
      s'.Valid backends m ∧ s'.banned = s.banned ∧
        ∀ v, s'.distribution.getD v 0 =
          s.distribution.getD v 0 - if v = j then 1 else 0 := by
  have hMj := hs.shaped.M_lt j
  have hfrom : uint32 (s.M.getD j 0 + 1) ≤ m := by
    rw [uint32_of_lt (by omega)]
    exact hMj
  have hsearch : Returns (loop (probe m s.lup) .unfinished fuel
      (uint32 (s.M.getD j 0 + 1))) _ :=
    search_returns hm hs.shaped.length_lup (hs.exists_empty hj hquota) hfrom hfuel
  refine hsearch.bind ?_
  rintro idx ⟨hidx, hempty, hfirst⟩
  rw [uint32_of_lt (by omega)] at hfirst
  have hlup : idx < s.lup.length := by rwa [hs.shaped.length_lup]
  have hspent := hs.shaped.quota_claim hj hquota idx
  have hupdate : ((s.claim j idx).lup.getD · none) =
      Function.update (s.lup.getD · none) idx (some j) := by
    funext x
    rw [Filling.claim, getD_set hlup, Function.update_apply]
  have htaken : TakenUpTo m ((s.claim j idx).lup.getD · none) (home backends m j) idx := by
    rw [hupdate]
    exact (hs.latest j hj).next (home_lt (by omega) j) hMj hidx hempty hfirst
  refine .ok ⟨⟨hs.shaped.claim hj hidx, ?_, ?_, ?_, ?_⟩, rfl, hspent⟩
  · intro v hv
    rcases List.mem_or_eq_of_mem_set hv with hold | hnew
    · exact hs.lup_lt v hold
    · cases hnew
      exact hj
  · intro v hv
    have hbalance := hs.balance v hv
    rw [hspent, Filling.claim, count_set_empty hlup hempty]
    by_cases hvj : v = j
    · subst hvj
      rw [if_pos rfl]
      omega
    · rw [if_neg (Ne.symm hvj), if_neg hvj]
      exact hbalance
  · rw [hupdate] at htaken ⊢
    exact hs.probed.update htaken
  · intro v hv
    have hM : j < s.M.length := by rwa [hs.shaped.length_M]
    have hMv : (s.claim j idx).M.getD v 0 = if v = j then idx else s.M.getD v 0 := by
      rw [Filling.claim, getD_set hM]
    rw [hMv]
    by_cases hvj : v = j
    · rw [if_pos hvj, hvj]
      exact htaken
    · rw [if_neg hvj, hupdate]
      exact (hs.latest v hv).update

/-! ## The remainder and the output -/

/-- How many of the given slots the remainder loop fills, from backend `j` on. -/
def dealt (rem : Nat) (slots : List Nat) (j : Nat) (lup : List (Option Nat)) : Nat :=
  min (uint32Pred rem + 1 - j) (slots.countP fun i => lup.getD i none = none)

/-- The turn of backend `v` in the remainder loop of `n` backends. -/
def remainderShare (n rem : Nat) (lup : List (Option Nat)) (v : Nat) : Nat :=
  if v < dealt rem (List.range n) 0 lup then 1 else 0

theorem remainderShare_le (n rem : Nat) (lup : List (Option Nat)) (v : Nat) :
    remainderShare n rem lup v ≤ 1 := by
  unfold remainderShare
  split <;> omega

theorem dealt_cons_of_empty {rem i j : Nat} {slots : List Nat}
    {lup : List (Option Nat)} (hfresh : i ∉ slots) (hempty : lup.getD i none = none)
    (hj : j ≤ uint32Pred rem) :
    dealt rem (i :: slots) j lup =
      dealt rem slots (j + 1) (lup.set i (some j)) + 1 := by
  have hrest : slots.countP (fun k => (lup.set i (some j)).getD k none = none) =
      slots.countP fun k => lup.getD k none = none := by
    apply List.countP_congr
    intro k hk
    have hne : i ≠ k := fun h => hfresh (h ▸ hk)
    rw [List.getD_eq_getElem?_getD, List.getElem?_set_ne hne,
      ← List.getD_eq_getElem?_getD]
  rw [dealt, dealt, hrest, List.countP_cons_of_pos (by simpa using hempty)]
  omega

theorem fillRemainder_spec {rem : Nat} {slots : List Nat} {j : Nat}
    {lup : List (Option Nat)} (hnodup : slots.Nodup)
    (hslots : ∀ i ∈ slots, i < lup.length) :
    Returns (fillRemainder rem slots j lup) fun filled =>
      filled.length = lup.length ∧
      ∀ v, filled.count (some v) = lup.count (some v) +
        if j ≤ v ∧ v < j + dealt rem slots j lup then 1 else 0 := by
  induction slots generalizing j lup with
  | nil =>
      refine .ok ⟨rfl, fun v => ?_⟩
      simp [dealt]
  | cons i slots ih =>
      obtain ⟨hfresh, hnodup⟩ := List.nodup_cons.mp hnodup
      have hi : i < lup.length := hslots i (by simp)
      rw [fillRemainder]
      by_cases hdone : uint32Pred rem < j
      · rw [if_pos hdone]
        refine .ok ⟨rfl, fun v => ?_⟩
        rw [if_neg (by unfold dealt; omega), Nat.add_zero]
      · rw [if_neg hdone]
        by_cases hempty : lup.getD i none = none
        · rw [if_neg (by simpa using hempty), if_pos hi]
          refine Returns.mono (ih hnodup fun k hk => ?_) ?_
          · simpa using hslots k (by simp [hk])
          · rintro filled ⟨hlength, hcount⟩
            refine ⟨by simpa using hlength, fun v => ?_⟩
            rw [hcount v, count_set_empty hi hempty,
              dealt_cons_of_empty hfresh hempty (Nat.le_of_not_lt hdone), Nat.add_assoc]
            congr 1
            split <;> split <;> split <;> omega
        · rw [if_pos hempty]
          refine Returns.mono (ih hnodup fun k hk => hslots k (by simp [hk])) ?_
          rintro filled ⟨hlength, hcount⟩
          refine ⟨hlength, fun v => ?_⟩
          rw [hcount v, dealt, dealt, List.countP_cons_of_neg (by simpa using hempty)]

/-- Backend 0 also owns the slots that nobody took. -/
theorem count_output (lup : List (Option Nat)) (v : Nat) :
    (output lup).count v = lup.count (some v) + if v = 0 then lup.count none else 0 := by
  unfold output
  induction lup with
  | nil => simp
  | cons slot lup ih =>
      rw [List.map_cons, List.count_cons, List.count_cons, List.count_cons, ih]
      cases slot with
      | none =>
          by_cases hv : v = 0
          · simp [hv]
            omega
          · simp [hv, Ne.symm hv]
      | some owner =>
          by_cases hv : v = 0
          · simp [hv]
            omega
          · simp [hv]

theorem completeTable_spec {backends : List Backend} {m rem : Nat} {s : Filling}
    (hs : s.Valid backends m) (hn : 0 < backends.length) (hnm : backends.length ≤ m) :
    Returns (completeTable backends.length rem s) fun table =>
      table.length = m ∧ (∀ v ∈ table, v < backends.length) ∧
      (∀ v, s.lup.count (some v) ≤ table.count v) ∧
      ∀ v, v ≠ 0 → table.count v =
        s.lup.count (some v) + remainderShare backends.length rem s.lup v := by
  have hfill : Returns (fillRemainder rem (List.range backends.length) 0 s.lup) _ :=
    fillRemainder_spec List.nodup_range fun i hi => by
      rw [hs.shaped.length_lup]
      exact Nat.lt_of_lt_of_le (List.mem_range.mp hi) hnm
  refine hfill.bind ?_
  rintro filled ⟨hlength, hcount⟩
  have hshare : ∀ v, filled.count (some v) =
      s.lup.count (some v) + remainderShare backends.length rem s.lup v := by
    intro v
    rw [hcount v, remainderShare]
    simp
  refine .ok ⟨?_, ?_, ?_, ?_⟩
  · rw [output, List.length_map, hlength, hs.shaped.length_lup]
  · intro v hv
    obtain ⟨slot, hslot, rfl⟩ := List.mem_map.mp hv
    cases slot with
    | none => exact hn
    | some owner =>
        have hpos := List.count_pos_iff.mpr hslot
        rw [hshare, remainderShare] at hpos
        by_cases hmem : some owner ∈ s.lup
        · exact hs.lup_lt owner hmem
        · rw [List.count_eq_zero_of_not_mem hmem] at hpos
          have hdealt : owner < dealt rem (List.range backends.length) 0 s.lup := by
            by_contra hnot
            rw [if_neg hnot] at hpos
            omega
          have hle : dealt rem (List.range backends.length) 0 s.lup ≤ backends.length :=
            Nat.le_trans (Nat.min_le_right _ _)
              (List.countP_le_length.trans_eq List.length_range)
          exact Nat.lt_of_lt_of_le hdealt hle
  · intro v
    rw [count_output, hshare]
    omega
  · intro v hv
    rw [count_output, if_neg hv, hshare, Nat.add_zero]

end Udplb.Rlt
