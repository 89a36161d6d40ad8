import Udplb.Foundation.Loop
import Udplb.Rlt.Distribution

/-!
# The naive Fibonacci table

The walk over the table is meant to give each backend `fib[j]` consecutive slots
and to skip the backends that have used up their quota.  The reset of the index
`j` is written the wrong way round: it fires on every wrap-around as long as `j` is
small, so `j` never leaves 0, every run has length 1, and the table is the one of
the simple round robin.

The label `nextentry` is jumped to from its own end, and with a single banned
backend it would spin forever.  It is a `loop` whose fuel may run out.
-/

namespace Udplb.Rlt

open Udplb.Foundation

def fib : List Nat :=
  [1, 1, 2, 3, 5, 8, 13, 21, 34, 55, 89, 144, 233, 377, 610,
   987, 1587, 2584, 4181]

/-- How a construction may end without a table. -/
inductive Stop where
  | runtime (err : RuntimeError)
  | unfinished
  deriving DecidableEq, Repr

structure Walk where
  out : List Nat
  distribution : List Nat
  banList : List Nat
  banned : Nat
  j : Nat
  k : Nat
  currentEntry : Nat
  deriving DecidableEq, Repr

def Walk.init (n m : Nat) : Walk where
  out := List.replicate m 0
  distribution := List.replicate n (uint32 (m / n + 1))
  banList := []
  banned := 0
  j := 0
  k := 0
  currentEntry := 0

/-- The code from the label `nextentry` to the end of the loop body. -/
def nextEntry (n : Nat) (s : Walk) : Except Stop (Walk ⊕ Walk) :=
  let s := { s with k := 0, currentEntry := uint32 (s.currentEntry + 1) }
  if s.currentEntry < n then .ok (.inr s)
  else
    let j := uint32 (s.j + 1)
    let s := { s with
      currentEntry := 0
      j := if j < fib.length - 1 then 0 else j }
    if s.currentEntry ∈ s.banList then .ok (.inl s) else .ok (.inr s)

def assignEntry (fuel n : Nat) (s : Walk) (i : Nat) : Except Stop Walk :=
  let quota := uint32Pred (s.distribution.getD s.currentEntry 0)
  let s := { s with
    out := s.out.set i s.currentEntry
    distribution := s.distribution.set s.currentEntry quota }
  if quota < 1 then
    loop (nextEntry n) .unfinished fuel { s with
      banned := s.banned + 1
      banList := s.banList.insert s.currentEntry }
  else
    let s := { s with k := uint32 (s.k + 1) }
    match fib[s.j]? with
    | none => .error (.runtime .indexOutOfRange)
    | some run =>
        if s.k < run then .ok s else loop (nextEntry n) .unfinished fuel s

def naiveFibLookupTable (fuel : Nat) (availableBackends : List Backend)
    (lookupTableLength : UInt32) : Except Stop (List Nat) := do
  let n := uint32 availableBackends.length
  let m := lookupTableLength.toNat
  let s ← (List.range m).foldlM (assignEntry fuel n) (Walk.init n m)
  .ok s.out

def simpleLookupTable (availableBackends : List Backend)
    (lookupTableLength : UInt32) : Except RuntimeError (List Nat) :=
  (List.range lookupTableLength.toNat).mapM fun i =>
    if uint32 availableBackends.length = 0 then .error .divideByZero
    else .ok (i % uint32 availableBackends.length)

/-! ## The walk is a round robin -/

theorem uint32_of_lt {x : Nat} (h : x < 2 ^ 32) : uint32 x = x :=
  Nat.mod_eq_of_lt h

theorem turns_succ {n c : Nat} (i : Nat) (hc : c < n) :
    turns n (i + 1) c = turns n i c + if i % n = c then 1 else 0 := by
  rw [← countP_range_mod (i + 1) hc, ← countP_range_mod i hc, List.range_succ,
    List.countP_append, List.countP_singleton]
  simp

/-- What holds before slot `i` is assigned. -/
structure RoundRobin (n m i : Nat) (s : Walk) : Prop where
  out : s.out = (List.range i).map (· % n) ++ List.replicate (m - i) 0
  currentEntry : s.currentEntry = i % n
  k : s.k = 0
  j : s.j = 0
  length_distribution : s.distribution.length = n
  quota : ∀ c < n, s.distribution.getD c 0 + turns n i c ≡ m / n + 1 [MOD 2 ^ 32]
  -- The first backend is banned in the last, partial round only.
  banned : 0 ∈ s.banList → n * (m / n) < i

theorem roundRobin_init (n m : Nat) : RoundRobin n m 0 (Walk.init n m) where
  out := by simp [Walk.init]
  currentEntry := by simp [Walk.init]
  k := rfl
  j := rfl
  length_distribution := by simp [Walk.init]
  quota := by
    intro c hc
    simp [Walk.init, hc, turns, uint32, Nat.ModEq]
  banned := by simp [Walk.init]

/-- The step to the next backend, when the wrap-around does not meet a ban. -/
theorem nextEntry_advances {fuel n : Nat} {s : Walk} (hfuel : 0 < fuel)
    (hentry : s.currentEntry < n) (hn : n < 2 ^ 32) (hj : s.j = 0)
    (hban : s.currentEntry + 1 = n → 0 ∉ s.banList) :
    loop (nextEntry n) .unfinished fuel s =
      .ok { s with k := 0, currentEntry := (s.currentEntry + 1) % n } := by
  obtain ⟨fuel, rfl⟩ : ∃ more, fuel = more + 1 := ⟨fuel - 1, by omega⟩
  have hnext : uint32 (s.currentEntry + 1) = s.currentEntry + 1 :=
    uint32_of_lt (by omega)
  unfold loop nextEntry
  simp only [hnext]
  by_cases hwrap : s.currentEntry + 1 = n
  · have hreset : (if uint32 (s.j + 1) < fib.length - 1 then 0
        else uint32 (s.j + 1)) = s.j := by
      rw [hj]
      decide
    rw [if_neg (by omega), if_neg (hban hwrap), hreset, hwrap, Nat.mod_self]
    rfl
  · have hlt : s.currentEntry + 1 < n := by omega
    rw [if_pos hlt, Nat.mod_eq_of_lt hlt]
    rfl

theorem set_append_replicate {α : Type} {done : List α} {x y : α} {i m : Nat}
    (hdone : done.length = i) (hi : i < m) :
    (done ++ List.replicate (m - i) x).set i y =
      (done ++ [y]) ++ List.replicate (m - (i + 1)) x := by
  obtain ⟨rest, hrest⟩ : ∃ rest, m - i = rest + 1 := ⟨m - i - 1, by omega⟩
  rw [List.set_append_right _ _ (by omega), hdone, Nat.sub_self, hrest,
    List.replicate_succ, List.set_cons_zero, show m - (i + 1) = rest by omega,
    List.append_assoc]
  rfl

section Step

variable {fuel n m i : Nat} {s : Walk}

theorem RoundRobin.balance_next (hs : RoundRobin n m i s) {c : Nat} (hc : c < n) :
    (s.distribution.set s.currentEntry
        (uint32Pred (s.distribution.getD s.currentEntry 0))).getD c 0 +
      turns n (i + 1) c ≡ m / n + 1 [MOD 2 ^ 32] := by
  have hbalance := hs.quota c hc
  have hlt : i % n < s.distribution.length := by
    rw [hs.length_distribution]
    exact Nat.mod_lt i (Nat.zero_lt_of_lt hc)
  rw [turns_succ i hc, hs.currentEntry, getD_set hlt]
  by_cases hvisit : i % n = c
  · rw [if_pos hvisit, if_pos hvisit.symm, hvisit, Nat.add_comm (turns n i c),
      ← Nat.add_assoc]
    exact ((uint32Pred_add_one _).add_right _).trans hbalance
  · rw [if_neg hvisit, if_neg (Ne.symm hvisit), Nat.add_zero]
    exact hbalance

/-- A quota is used up only in the round after the last full one. -/
theorem RoundRobin.lt_of_spent (hs : RoundRobin n m i s) (hn : 0 < n)
    (hm : m < 2 ^ 32) (hi : i < m)
    (hspent : uint32Pred (s.distribution.getD s.currentEntry 0) < 1) :
    n * (m / n) < i + 1 := by
  have hentry : i % n < n := Nat.mod_lt i hn
  have hbalance := hs.balance_next hentry
  have hlt : i % n < s.distribution.length := by rwa [hs.length_distribution]
  have hturns : turns n (i + 1) (i % n) = i / n + 1 := by
    rw [turns_succ i hentry, if_pos rfl, turns, if_neg (Nat.lt_irrefl _), Nat.add_zero]
  rw [Nat.lt_one_iff.mp hspent, hs.currentEntry, getD_set hlt, if_pos rfl,
    Nat.zero_add, hturns] at hbalance
  have hround : i / n = m / n :=
    (Nat.ModEq.add_right_cancel' 1 hbalance).eq_of_lt_of_lt
      (Nat.lt_of_le_of_lt (Nat.div_le_self i n) (by omega))
      (Nat.lt_of_le_of_lt (Nat.div_le_self m n) hm)
  rw [← hround]
  exact Nat.lt_succ_of_le (Nat.mul_div_le i n)

/-- A wrap-around belongs to a full round. -/
theorem le_of_wrap (hi : i < m) (hwrap : i % n + 1 = n) : i + 1 ≤ n * (m / n) := by
  have hdiv := Nat.div_add_mod i n
  have hfull : n * (i / n + 1) = i + 1 := by
    rw [Nat.mul_add, Nat.mul_one]
    omega
  have hround : i / n + 1 ≤ m / n := by
    rw [Nat.le_div_iff_mul_le (by omega), Nat.mul_comm, hfull]
    exact hi
  rw [← hfull]
  exact Nat.mul_le_mul_left n hround

theorem RoundRobin.advance (hs : RoundRobin n m i s) (hfuel : 0 < fuel) (hn : 0 < n)
    (hn' : n < 2 ^ 32) (hi : i < m) {banList : List Nat}
    (hbanned : 0 ∈ banList → n * (m / n) < i + 1) (banned k : Nat) :
    Returns (loop (nextEntry n) .unfinished fuel
      { s with
        out := s.out.set i s.currentEntry
        distribution := s.distribution.set s.currentEntry
          (uint32Pred (s.distribution.getD s.currentEntry 0))
        banList := banList
        banned := banned
        k := k }) (RoundRobin n m (i + 1)) := by
  have hentry : s.currentEntry < n := by
    rw [hs.currentEntry]
    exact Nat.mod_lt i hn
  have hban : s.currentEntry + 1 = n → 0 ∉ banList := by
    intro hwrap hmem
    rw [hs.currentEntry] at hwrap
    have := le_of_wrap hi hwrap
    have := hbanned hmem
    omega
  refine ⟨_, nextEntry_advances hfuel hentry hn' hs.j hban, ?_⟩
  exact
    { out := by
        change s.out.set i s.currentEntry = _
        rw [hs.out, set_append_replicate (by simp) hi, hs.currentEntry, List.range_succ]
        simp
      currentEntry := by
        change (s.currentEntry + 1) % n = _
        rw [hs.currentEntry, Nat.mod_add_mod]
      k := rfl
      j := hs.j
      length_distribution := by simpa using hs.length_distribution
      quota := fun c hc => hs.balance_next hc
      banned := hbanned }

theorem assignEntry_roundRobin (hs : RoundRobin n m i s) (hfuel : 0 < fuel)
    (hn : 0 < n) (hn' : n < 2 ^ 32) (hm : m < 2 ^ 32) (hi : i < m) :
    Returns (assignEntry fuel n s i) (RoundRobin n m (i + 1)) := by
  unfold assignEntry
  dsimp only
  split
  · rename_i hspent
    -- The backend is banned here, so the last round has begun.
    have hlast := hs.lt_of_spent hn hm hi hspent
    exact hs.advance hfuel hn hn' hi (fun _ => hlast) _ _
  · have hrun : fib[s.j]? = some 1 := by
      rw [hs.j]
      rfl
    rw [hrun, hs.k]
    -- The run length is 1, so the walk moves on after every slot.
    exact hs.advance hfuel hn hn' hi (fun hmem => Nat.lt_succ_of_lt (hs.banned hmem)) _ _

end Step

theorem naiveFibLookupTable_roundRobin {fuel : Nat} (backends : List Backend)
    (m : UInt32) (hn : 0 < uint32 backends.length) (hfuel : 0 < fuel) :
    naiveFibLookupTable fuel backends m =
      .ok ((List.range m.toNat).map (· % uint32 backends.length)) := by
  have hn' : uint32 backends.length < 2 ^ 32 := Nat.mod_lt _ (by decide)
  obtain ⟨s, hrun, hs⟩ := foldlM_range_returns (RoundRobin _ m.toNat)
    (roundRobin_init _ m.toNat)
    fun i s hi hs => assignEntry_roundRobin hs hfuel hn hn' m.toNat_lt hi
  unfold naiveFibLookupTable
  dsimp only
  rw [hrun]
  change Except.ok s.out = _
  rw [hs.out, Nat.sub_self, List.replicate_zero, List.append_nil]

theorem simpleLookupTable_roundRobin (backends : List Backend) (m : UInt32)
    (hn : 0 < uint32 backends.length) :
    simpleLookupTable backends m =
      .ok ((List.range m.toNat).map (· % uint32 backends.length)) := by
  unfold simpleLookupTable
  simp only [if_neg (Nat.ne_of_gt hn)]
  exact List.mapM_pure

/--
The two tables are one: slot `i` holds `i % n`, whatever the run lengths and the ban
list were meant to do.  One iteration at the label `nextentry` is always enough.
-/
theorem naiveFibLookupTable_eq_simpleLookupTable (fuel : Nat)
    (backends : List Backend) (m : UInt32) (hn : 1 ≤ uint32 backends.length)
    (hfuel : 1 ≤ fuel) :
    ∃ table, naiveFibLookupTable fuel backends m = .ok table ∧
      simpleLookupTable backends m = .ok table ∧
      table = (List.range m.toNat).map (· % uint32 backends.length) :=
  ⟨_, naiveFibLookupTable_roundRobin backends m hn hfuel,
    simpleLookupTable_roundRobin backends m hn, rfl⟩

theorem naiveFibLookupTable_eq_simpleLookupTable_five_backends :
    ∃ table,
      naiveFibLookupTable 1 ([0, 1, 2, 3, 4].map makeBackend) 13 = .ok table ∧
      simpleLookupTable ([0, 1, 2, 3, 4].map makeBackend) 13 = .ok table ∧
      table = (List.range (13 : UInt32).toNat).map
        (· % uint32 ([0, 1, 2, 3, 4].map makeBackend).length) :=
  naiveFibLookupTable_eq_simpleLookupTable 1 _ 13 (by decide) (by decide)

end Udplb.Rlt
