import Udplb.Types
import Udplb.Foundation.Result

/-!
# The reverse-coordinates lookup table

The table is built in two phases.  The coordinate phase walks down a list of
primes and lets every backend claim the multiples of its coordinates modulo the
prime while its quota lasts.  The fill phase then deals the slots that are still
unset to the backends in turn, in the order in which the runtime iterates over
the `unset` map.

A slot index is computed in 32-bit arithmetic, and so is the decrement of a
quota.  Divisions and writes of the table are checked: the model stops with the
runtime error where the program would.  The number of backends is the length of the
list; the program converts it to 32 bits, so the model stands for lists of fewer than
`2 ^ 32` backends.
-/

namespace Udplb.Rlt

open Udplb.Foundation

def primes : List Nat :=
  [2, 3, 5, 7, 13, 17, 19, 31, 61, 89, 107, 127, 521, 607,
   1279, 2203, 2281, 3217, 4253, 4423, 9689, 9941, 11213,
   19937, 21701, 23209, 44497]

def uint32 (x : Nat) : Nat := x % 2 ^ 32

/-- The 32-bit difference `x - 1`. -/
def uint32Pred (x : Nat) : Nat := if x = 0 then 2 ^ 32 - 1 else x - 1

/-- An order in which the runtime may iterate over the keys of a map. -/
structure IterOrder where
  keys : List Nat → List Nat
  perm : ∀ unset, (keys unset).Perm unset

def IterOrder.ascending : IterOrder where
  keys := id
  perm _ := .refl _

structure Progress where
  out : List Nat
  unset : List Nat
  distribution : List Nat
  deriving DecidableEq, Repr

def Progress.init (n m : Nat) : Progress where
  out := List.replicate m 0
  unset := List.range m
  distribution := List.replicate n (m / n)

def nextPrime (current : Nat) : Nat × Bool :=
  match primes.reverse.find? (· < current) with
  | some prime => (prime, true)
  | none => (0, false)

def isNotFullyDistributed (distribution : List Nat) : Bool :=
  distribution.any (0 < ·)

def claimSlot (i : Nat) (p : Progress) (idx : Nat) :
    Except RuntimeError Progress :=
  if idx ∈ p.unset then
    if idx < p.out.length then
      .ok { out := p.out.set idx i
            unset := p.unset.erase idx
            distribution :=
              p.distribution.set i (uint32Pred (p.distribution.getD i 0)) }
    else .error .indexOutOfRange
  else .ok p

def claimMultiples (m prime i mod : Nat) (p : Progress) :
    Except RuntimeError Progress :=
  (List.range (m / prime)).foldlM
    (fun p k => claimSlot i p (uint32 ((k + 1) * mod))) p

def claimCoordinate (m prime i : Nat) (p : Progress) (coord : UInt32) :
    Except RuntimeError Progress :=
  if p.distribution.getD i 0 < 1 then .ok p
  else if prime = 0 then .error .divideByZero
  else claimMultiples m prime i (coord.toNat % prime) p

def claimBackend (m prime : Nat) (p : Progress) (entry : Backend × Nat) :
    Except RuntimeError Progress :=
  entry.1.coordinates.toList.foldlM (claimCoordinate m prime entry.2) p

def claimRound (backends : List Backend) (m prime : Nat) (p : Progress) :
    Except RuntimeError Progress :=
  backends.zipIdx.foldlM (claimBackend m prime) p

theorem nextPrime_lt {current : Nat} (h : (nextPrime current).2 = true) :
    (nextPrime current).1 < current := by
  unfold nextPrime at h ⊢
  split at h
  · rename_i prime hfind
    simpa [hfind] using List.find?_some hfind
  · simp at h

/-- One round for each prime, until the primes or the quotas are used up. -/
def coordinateRounds (backends : List Backend) (m prime : Nat) (p : Progress) :
    Except RuntimeError Progress := do
  let p ← claimRound backends m prime p
  if _hnext : (nextPrime prime).2 = true ∧
      isNotFullyDistributed p.distribution = true then
    coordinateRounds backends m (nextPrime prime).1 p
  else
    .ok p
termination_by prime
decreasing_by exact nextPrime_lt _hnext.1

def coordinatePhase (backends : List Backend) (m : Nat) :
    Except RuntimeError Progress :=
  coordinateRounds backends m m (Progress.init backends.length m)

/-- The fill loop: `i` starts again from 0 after the last backend. -/
def fillRemaining (n : Nat) : List Nat → Nat → List Nat →
    Except RuntimeError (List Nat)
  | [], _, out => .ok out
  | k :: keys, i, out =>
      let i := if uint32Pred n < i then 0 else i
      if k < out.length then fillRemaining n keys (i + 1) (out.set k i)
      else .error .indexOutOfRange

def reverseCoordinatesLookupTable (order : IterOrder)
    (availableBackends : List Backend) (m : UInt32) :
    Except RuntimeError (List Nat) := do
  let p ← coordinatePhase availableBackends m.toNat
  fillRemaining availableBackends.length (order.keys p.unset) 0 p.out

/-! ## What the coordinate phase keeps -/

/-- Every slot outside `unset` holds the index of a backend. -/
structure Progress.Valid (n m : Nat) (p : Progress) : Prop where
  length_out : p.out.length = m
  nodup_unset : p.unset.Nodup
  unset_lt : ∀ k ∈ p.unset, k < m
  out_lt : ∀ k value, p.out[k]? = some value → k ∉ p.unset → value < n

theorem Progress.valid_init (n m : Nat) : (Progress.init n m).Valid n m where
  length_out := by simp [Progress.init]
  nodup_unset := List.nodup_range
  unset_lt := by simp [Progress.init]
  out_lt := by
    intro k value hvalue hk
    have hlt : k < (Progress.init n m).out.length :=
      (List.getElem?_eq_some_iff.mp hvalue).1
    simp [Progress.init] at hlt hk
    omega

theorem claimSlot_valid {n m i idx : Nat} {p : Progress} (hi : i < n)
    (hp : p.Valid n m) : Returns (claimSlot i p idx) (Progress.Valid n m) := by
  unfold claimSlot
  by_cases hidx : idx ∈ p.unset
  · have hlt : idx < p.out.length := by
      rw [hp.length_out]
      exact hp.unset_lt idx hidx
    rw [if_pos hidx, if_pos hlt]
    refine .ok ⟨by simpa using hp.length_out, hp.nodup_unset.erase idx, ?_, ?_⟩
    · intro k hk
      exact hp.unset_lt k (List.mem_of_mem_erase hk)
    · intro k value hvalue hk
      by_cases hkidx : k = idx
      · subst hkidx
        rw [List.getElem?_set_self hlt, Option.some.injEq] at hvalue
        omega
      · rw [List.getElem?_set_ne (Ne.symm hkidx)] at hvalue
        refine hp.out_lt k value hvalue fun hmem => hk ?_
        exact (List.mem_erase_of_ne hkidx).mpr hmem
  · rw [if_neg hidx]
    exact .ok hp

/-- The invariant of the rounds: no division by a zero prime is reached. -/
def Claimable (n m prime : Nat) (p : Progress) : Prop :=
  p.Valid n m ∧ (prime = 0 → ∀ quota ∈ p.distribution, quota = 0)

theorem Claimable.prime_ne_zero {n m prime i : Nat} {p : Progress}
    (hp : Claimable n m prime p) (hquota : ¬p.distribution.getD i 0 < 1) :
    prime ≠ 0 := by
  intro hzero
  apply hquota
  rw [List.getD_eq_getElem?_getD]
  cases hget : p.distribution[i]? with
  | none => simp
  | some quota =>
      have := hp.2 hzero quota (List.mem_of_getElem? hget)
      simp [this]

theorem claimable_init (n m : Nat) : Claimable n m m (Progress.init n m) := by
  refine ⟨Progress.valid_init n m, ?_⟩
  intro hm quota hquota
  subst hm
  have := (List.mem_replicate.mp hquota).2
  simpa using this

theorem claimCoordinate_returns {n m prime i : Nat} {p : Progress}
    {coord : UInt32} (hi : i < n) (hp : Claimable n m prime p) :
    Returns (claimCoordinate m prime i p coord) (Claimable n m prime) := by
  unfold claimCoordinate
  by_cases hquota : p.distribution.getD i 0 < 1
  · rw [if_pos hquota]
    exact .ok hp
  · have hprime : prime ≠ 0 := hp.prime_ne_zero hquota
    rw [if_neg hquota, if_neg hprime]
    refine Returns.mono (foldlM_returns hp.1 fun p' k _ hp' =>
      claimSlot_valid hi hp') ?_
    exact fun p' hp' => ⟨hp', fun hzero => absurd hzero hprime⟩

theorem index_lt_of_mem_zipIdx {backends : List Backend} {backend : Backend} {i : Nat}
    (hmem : (backend, i) ∈ backends.zipIdx) : i < backends.length := by
  have := List.snd_lt_of_mem_zipIdx hmem
  simpa using this

theorem claimRound_returns {backends : List Backend} {m prime : Nat}
    {p : Progress} (hp : Claimable backends.length m prime p) :
    Returns (claimRound backends m prime p)
      (Claimable backends.length m prime) := by
  refine foldlM_returns hp ?_
  rintro p' ⟨backend, i⟩ hmem hp'
  exact foldlM_returns hp' fun p'' coord _ hp'' =>
    claimCoordinate_returns (index_lt_of_mem_zipIdx hmem) hp''

theorem nextPrime_pos {current : Nat} (h : (nextPrime current).2 = true) :
    0 < (nextPrime current).1 := by
  unfold nextPrime at h ⊢
  split at h
  · rename_i prime hfind
    have hmem : prime ∈ primes := by
      simpa using List.mem_of_find?_eq_some hfind
    have hall : ∀ q ∈ primes, 0 < q := by decide
    exact hall prime hmem
  · simp at h

theorem coordinateRounds_returns (backends : List Backend) (m prime : Nat)
    (p : Progress) (hp : Claimable backends.length m prime p) :
    Returns (coordinateRounds backends m prime p)
      (Progress.Valid backends.length m) := by
  induction prime using Nat.strongRecOn generalizing p with
  | ind prime ih =>
      rw [coordinateRounds]
      refine (claimRound_returns hp).bind ?_
      intro p' hp'
      by_cases h : (nextPrime prime).2 = true ∧
          isNotFullyDistributed p'.distribution = true
      · rw [dif_pos h]
        have hpos := nextPrime_pos h.1
        exact ih _ (nextPrime_lt h.1) p' ⟨hp'.1, fun hzero => by omega⟩
      · rw [dif_neg h]
        exact .ok hp'.1

theorem coordinatePhase_returns (backends : List Backend) (m : Nat) :
    Returns (coordinatePhase backends m)
      (Progress.Valid backends.length m) :=
  coordinateRounds_returns backends m m _ (claimable_init _ _)

theorem coordinatePhase_valid {backends : List Backend} {m : Nat} {p : Progress}
    (hphase : coordinatePhase backends m = .ok p) : p.Valid backends.length m :=
  (coordinatePhase_returns backends m).of_eq_ok hphase

/-- What every claim of a backend keeps, its coordinate keeps. -/
theorem claimCoordinate_keeps {Inv : Progress → Prop} {m prime i : Nat} {p p' : Progress}
    {coord : UInt32} (hclaim : ∀ idx p p', claimSlot i p idx = .ok p' → Inv p → Inv p')
    (hp' : claimCoordinate m prime i p coord = .ok p') (hp : Inv p) : Inv p' := by
  unfold claimCoordinate at hp'
  split at hp'
  · cases hp'
    exact hp
  · split at hp'
    · cases hp'
    · exact foldlM_keeps hp (fun p k p' _ => hclaim _ p p') hp'

section Follows

/-! A run that carries more than the progress follows the phase when every coordinate does. -/

universe u

variable {ε : Type u} {σ : Type} (proj : σ → Progress) {backends : List Backend}
  {m : Nat} {s : σ}

theorem claimRound_follows {prime : Nat} {Inv : σ → Prop}
    {coordinate : Nat → σ → UInt32 → Except ε σ}
    (hcoordinate : ∀ i s coord, i < backends.length → Inv s →
      Returns (coordinate i s coord) fun s' =>
        Inv s' ∧ claimCoordinate m prime i (proj s) coord = .ok (proj s'))
    (hs : Inv s) :
    Returns (backends.zipIdx.foldlM
      (fun s entry => entry.1.coordinates.toList.foldlM (coordinate entry.2) s) s)
      fun s' => Inv s' ∧ claimRound backends m prime (proj s) = .ok (proj s') := by
  refine foldlM_follows proj hs ?_
  rintro s ⟨backend, i⟩ hmem hs
  exact foldlM_follows proj hs fun s coord _ hs =>
    hcoordinate i s coord (index_lt_of_mem_zipIdx hmem) hs

theorem coordinateRounds_follows (Inv : Nat → σ → Prop)
    {round rounds : Nat → σ → Except ε σ}
    (hrounds : ∀ prime s, rounds prime s = round prime s >>= fun s' =>
      if (nextPrime prime).2 = true ∧
          isNotFullyDistributed (proj s').distribution = true then
        rounds (nextPrime prime).1 s'
      else .ok s')
    (hround : ∀ prime s, Inv prime s → Returns (round prime s) fun s' =>
      Inv prime s' ∧ claimRound backends m prime (proj s) = .ok (proj s'))
    (hnext : ∀ prime prime' s, 0 < prime' → Inv prime s → Inv prime' s)
    (prime : Nat) (hs : Inv prime s) :
    Returns (rounds prime s) fun s' =>
      (∃ last, Inv last s') ∧
        coordinateRounds backends m prime (proj s) = .ok (proj s') := by
  induction prime using Nat.strongRecOn generalizing s with
  | ind prime ih =>
      rw [hrounds, coordinateRounds]
      refine (hround prime s hs).bind ?_
      rintro s' ⟨hs', hclaim⟩
      rw [hclaim]
      change Returns _ fun s'' => _ ∧ dite _ _ _ = _
      by_cases h : (nextPrime prime).2 = true ∧
          isNotFullyDistributed (proj s').distribution = true
      · rw [if_pos h, dif_pos h]
        exact ih _ (nextPrime_lt h.1) (hnext _ _ _ (nextPrime_pos h.1) hs')
      · rw [if_neg h, dif_neg h]
        exact .ok ⟨⟨prime, hs'⟩, rfl⟩

end Follows

/-- The multiples of a residue below `prime` stay inside the table. -/
theorem multiple_lt {m prime k c : Nat} (hprime : prime ≠ 0)
    (hk : k < m / prime) : (k + 1) * (c % prime) < m := by
  have hmod : c % prime < prime := Nat.mod_lt c (Nat.pos_of_ne_zero hprime)
  calc (k + 1) * (c % prime) < (k + 1) * prime :=
        Nat.mul_lt_mul_of_pos_left hmod (Nat.succ_pos k)
    _ ≤ m / prime * prime := Nat.mul_le_mul_right prime hk
    _ ≤ m := Nat.div_mul_le_self m prime

/-! ## What the fill phase writes -/

theorem fillRemaining_spec {n : Nat} (hn : 0 < n) {keys : List Nat} {i : Nat}
    {out : List Nat} (hi : i ≤ n) (hnodup : keys.Nodup)
    (hkeys : ∀ k ∈ keys, k < out.length) :
    Returns (fillRemaining n keys i out) fun table =>
      table.length = out.length ∧
      (∀ j k, keys[j]? = some k → table[k]? = some ((i + j) % n)) ∧
      ∀ k, k ∉ keys → table[k]? = out[k]? := by
  induction keys generalizing i out with
  | nil => exact .ok ⟨rfl, by simp, by simp⟩
  | cons key keys ih =>
      obtain ⟨hfresh, hnodup⟩ := List.nodup_cons.mp hnodup
      have hkey : key < out.length := hkeys key (by simp)
      have hrestart : (if uint32Pred n < i then 0 else i) = i % n := by
        have hpred : uint32Pred n = n - 1 := by
          rw [uint32Pred, if_neg (by omega)]
        rw [hpred]
        rcases Nat.lt_or_eq_of_le hi with hlt | heq
        · rw [if_neg (by omega), Nat.mod_eq_of_lt hlt]
        · rw [if_pos (by omega), heq, Nat.mod_self]
      simp only [fillRemaining, hrestart, if_pos hkey]
      have hmod : i % n + 1 ≤ n := Nat.mod_lt i hn
      refine Returns.mono (ih hmod hnodup fun k hk => ?_) ?_
      · simpa using hkeys k (by simp [hk])
      · rintro table ⟨hlength, hdealt, hkept⟩
        refine ⟨by simpa using hlength, ?_, ?_⟩
        · intro j k hj
          cases j with
          | zero =>
              simp only [List.getElem?_cons_zero, Option.some.injEq] at hj
              subst hj
              rw [hkept key hfresh, List.getElem?_set_self hkey, Nat.add_zero]
          | succ j =>
              rw [List.getElem?_cons_succ] at hj
              rw [hdealt j k hj, show i % n + 1 + j = i % n + (1 + j) by omega,
                Nat.mod_add_mod, show i + (1 + j) = i + (j + 1) by omega]
        · intro k hk
          have hne : key ≠ k := fun heq => hk (by simp [heq])
          rw [hkept k fun hmem => hk (by simp [hmem]), List.getElem?_set_ne hne]

/--
The table in terms of the coordinate phase: the `j`-th slot of the iteration
goes to backend `j % n`, and the slots claimed before keep their owner.
-/
theorem reverseCoordinatesLookupTable_spec (order : IterOrder)
    {backends : List Backend} {m : UInt32} {p : Progress} (hne : backends ≠ [])
    (hphase : coordinatePhase backends m.toNat = .ok p) :
    Returns (reverseCoordinatesLookupTable order backends m) fun table =>
      table.length = m.toNat ∧
      (∀ j k, (order.keys p.unset)[j]? = some k →
        table[k]? = some (j % backends.length)) ∧
      ∀ k, k ∉ p.unset → table[k]? = p.out[k]? := by
  have hn : 0 < backends.length := List.length_pos_iff.mpr hne
  have hkeys := order.perm p.unset
  have hp := coordinatePhase_valid hphase
  have hfill := fillRemaining_spec hn (Nat.zero_le _)
    (hkeys.nodup_iff.mpr hp.nodup_unset) fun k hk => by
      rw [hp.length_out]
      exact hp.unset_lt k (hkeys.mem_iff.mp hk)
  unfold reverseCoordinatesLookupTable
  rw [hphase]
  refine Returns.mono hfill ?_
  rintro table ⟨hlength, hdealt, hkept⟩
  refine ⟨hlength.trans hp.length_out, ?_, ?_⟩
  · intro j k hj
    simpa using hdealt j k hj
  · exact fun k hk => hkept k fun hmem => hk (hkeys.mem_iff.mp hmem)

theorem reverseCoordinatesLookupTable_valid (order : IterOrder)
    (backends : List Backend) (m : UInt32) (hne : backends ≠ []) :
    Returns (reverseCoordinatesLookupTable order backends m) fun table =>
      table.length = m.toNat ∧ ∀ value ∈ table, value < backends.length := by
  obtain ⟨p, hphase, hp⟩ := coordinatePhase_returns backends m.toNat
  refine Returns.mono (reverseCoordinatesLookupTable_spec order hne hphase) ?_
  rintro table ⟨hlength, hdealt, hkept⟩
  refine ⟨hlength, ?_⟩
  intro value hvalue
  obtain ⟨k, hk⟩ := List.mem_iff_getElem?.mp hvalue
  by_cases hmem : k ∈ p.unset
  · obtain ⟨j, hj⟩ := List.mem_iff_getElem?.mp
      ((order.perm p.unset).mem_iff.mpr hmem)
    rw [hdealt j k hj, Option.some.injEq] at hk
    subst hk
    exact Nat.mod_lt _ (List.length_pos_iff.mpr hne)
  · rw [hkept k hmem] at hk
    exact hp.out_lt k value hk hmem

/-- Backend `i` of the unit tests: the index in the id, version and variant set. -/
def makeBackend (i : UInt8) : Backend :=
  newBackend #v[0, 0, 0, i, 0, 0, 0x40, 0, 0x80, 0, 0, 0, 0, 0, 0, 0]
    ⟨[], 0, [], .unknown⟩ ⟨.unknown⟩

end Udplb.Rlt
