import Udplb.Rlt.Distribution

/-!
# When a quota of the coordinate phase wraps

A backend's quota is tested once for each coordinate, and then decremented for every
unset multiple of the coordinate, without a further test.  The metered run below is
the coordinate phase with a meter: the counter read by each decrement.  A decrement at
0 is the wrap to `2 ^ 32 - 1`.
-/

namespace Udplb.Rlt

open Udplb.Foundation

structure Metered where
  progress : Progress
  decrements : List Nat
  deriving DecidableEq, Repr

def meteredSlot (i : Nat) (s : Metered) (idx : Nat) : Except RuntimeError Metered := do
  let p ← claimSlot i s.progress idx
  .ok { s with
    progress := p
    decrements :=
      if idx ∈ s.progress.unset then
        s.decrements ++ [s.progress.distribution.getD i 0]
      else s.decrements }

def meteredMultiples (m prime i mod : Nat) (s : Metered) :
    Except RuntimeError Metered :=
  (List.range (m / prime)).foldlM
    (fun s k => meteredSlot i s (uint32 ((k + 1) * mod))) s

def meteredCoordinate (m prime i : Nat) (s : Metered) (coord : UInt32) :
    Except RuntimeError Metered :=
  if s.progress.distribution.getD i 0 < 1 then .ok s
  else if prime = 0 then .error .divideByZero
  else meteredMultiples m prime i (coord.toNat % prime) s

def meteredBackend (m prime : Nat) (s : Metered) (entry : Backend × Nat) :
    Except RuntimeError Metered :=
  entry.1.coordinates.toList.foldlM (meteredCoordinate m prime entry.2) s

def meteredRound (backends : List Backend) (m prime : Nat) (s : Metered) :
    Except RuntimeError Metered :=
  backends.zipIdx.foldlM (meteredBackend m prime) s

def meteredRounds (backends : List Backend) (m prime : Nat) (s : Metered) :
    Except RuntimeError Metered := do
  let s ← meteredRound backends m prime s
  if _hnext : (nextPrime prime).2 = true ∧
      isNotFullyDistributed s.progress.distribution = true then
    meteredRounds backends m (nextPrime prime).1 s
  else
    .ok s
termination_by prime
decreasing_by exact nextPrime_lt _hnext.1

def meteredPhase (backends : List Backend) (m : Nat) : Except RuntimeError Metered :=
  meteredRounds backends m m ⟨Progress.init backends.length m, []⟩

/-! ## One claim -/

/-- The counter was at least 1 at every decrement. -/
def Unwrapped (s : Metered) : Prop :=
  ∀ counter ∈ s.decrements, 1 ≤ counter

/--
Until the first wrap claims and quota add up; from then on some backend holds more than
its quota was.
-/
structure Metered.Valid (n m : Nat) (s : Metered) : Prop where
  progress : s.progress.Valid n m
  length_distribution : s.progress.distribution.length = n
  exact : Unwrapped s → ∀ j < n,
    s.progress.claimed j + s.progress.distribution.getD j 0 = m / n
  exceeded : ¬Unwrapped s → ∃ j < n, m / n < s.progress.claimed j

section Claim

variable {n m i idx : Nat} {s : Metered}

def Metered.claim (s : Metered) (i idx : Nat) : Metered where
  progress :=
    { out := s.progress.out.set idx i
      unset := s.progress.unset.erase idx
      distribution :=
        s.progress.distribution.set i (uint32Pred (s.progress.distribution.getD i 0)) }
  decrements := s.decrements ++ [s.progress.distribution.getD i 0]

theorem claimSlot_of_unset {p : Progress} (hp : p.Valid n m) (hidx : idx ∈ p.unset) :
    claimSlot i p idx = .ok
      { out := p.out.set idx i
        unset := p.unset.erase idx
        distribution := p.distribution.set i (uint32Pred (p.distribution.getD i 0)) } := by
  have hlt : idx < p.out.length := by
    rw [hp.length_out]
    exact hp.unset_lt idx hidx
  rw [claimSlot, if_pos hidx, if_pos hlt]

theorem meteredSlot_of_unset (hs : s.Valid n m) (hidx : idx ∈ s.progress.unset) :
    meteredSlot i s idx = .ok (s.claim i idx) := by
  rw [meteredSlot, claimSlot_of_unset hs.progress hidx, if_pos hidx]
  rfl

theorem meteredSlot_of_taken (hidx : idx ∉ s.progress.unset) :
    meteredSlot i s idx = .ok s := by
  rw [meteredSlot, claimSlot, if_neg hidx, if_neg hidx]
  rfl

theorem unwrapped_claim :
    Unwrapped (s.claim i idx) ↔
      Unwrapped s ∧ 1 ≤ s.progress.distribution.getD i 0 := by
  simp [Unwrapped, Metered.claim, or_imp, forall_and]

theorem Metered.Valid.quota_claim (hs : s.Valid n m) (hi : i < n) (j : Nat) :
    (s.claim i idx).progress.distribution.getD j 0 =
      if j = i then uint32Pred (s.progress.distribution.getD i 0)
      else s.progress.distribution.getD j 0 := by
  have hlt : i < s.progress.distribution.length := by rwa [hs.length_distribution]
  rw [Metered.claim, getD_set hlt]

theorem Metered.Valid.claim (hs : s.Valid n m) (hi : i < n)
    (hidx : idx ∈ s.progress.unset) : (s.claim i idx).Valid n m where
  progress := (claimSlot_valid hi hs.progress).of_eq_ok
    (claimSlot_of_unset hs.progress hidx)
  length_distribution := by simpa [Metered.claim] using hs.length_distribution
  exact := by
    intro hunwrapped j hj
    obtain ⟨hbefore, hquota⟩ := unwrapped_claim.mp hunwrapped
    have hexact := hs.exact hbefore j hj
    rw [hs.quota_claim hi, Metered.claim, claimed_claim hs.progress hidx]
    by_cases hji : j = i
    · subst hji
      rw [if_pos rfl, if_pos rfl, uint32Pred, if_neg (by omega)]
      omega
    · rw [if_neg hji, if_neg hji]
      omega
  exceeded := by
    intro hwrapped
    simp only [Metered.claim, claimed_claim hs.progress hidx]
    by_cases hbefore : Unwrapped s
    · -- This is the first wrap: the backend holds its whole quota and takes one more.
      have hexact := hs.exact hbefore i hi
      have hspent : ¬1 ≤ s.progress.distribution.getD i 0 := fun hquota =>
        hwrapped (unwrapped_claim.mpr ⟨hbefore, hquota⟩)
      exact ⟨i, hi, by rw [if_pos rfl]; omega⟩
    · obtain ⟨j, hj, hmore⟩ := hs.exceeded hbefore
      exact ⟨j, hj, by omega⟩

end Claim

/-! ## The metered run -/

theorem meteredMultiples_follows {n m prime i mod : Nat} {s : Metered} (hi : i < n)
    (hs : s.Valid n m) :
    Returns (meteredMultiples m prime i mod s) fun s' =>
      s'.Valid n m ∧ claimMultiples m prime i mod s.progress = .ok s'.progress := by
  refine foldlM_follows Metered.progress hs ?_
  rintro s k - hs
  by_cases hidx : uint32 ((k + 1) * mod) ∈ s.progress.unset
  · rw [meteredSlot_of_unset hs hidx, claimSlot_of_unset hs.progress hidx]
    exact .ok ⟨hs.claim hi hidx, rfl⟩
  · rw [meteredSlot_of_taken hidx, claimSlot, if_neg hidx]
    exact .ok ⟨hs, rfl⟩

/-- What the metered run keeps between two coordinates of a round. -/
structure Meterable (n m prime : Nat) (s : Metered) : Prop where
  valid : s.Valid n m
  claimable : Claimable n m prime s.progress

theorem meteredCoordinate_follows {n m prime i : Nat} {s : Metered} {coord : UInt32}
    (hi : i < n) (hs : Meterable n m prime s) :
    Returns (meteredCoordinate m prime i s coord) fun s' =>
      Meterable n m prime s' ∧
        claimCoordinate m prime i s.progress coord = .ok s'.progress := by
  unfold meteredCoordinate claimCoordinate
  by_cases hquota : s.progress.distribution.getD i 0 < 1
  · rw [if_pos hquota, if_pos hquota]
    exact .ok ⟨hs, rfl⟩
  · have hprime : prime ≠ 0 := hs.claimable.prime_ne_zero hquota
    rw [if_neg hquota, if_neg hquota, if_neg hprime, if_neg hprime]
    obtain ⟨s', hrun, hs', hclaim⟩ := meteredMultiples_follows hi hs.valid
    exact ⟨s', hrun, ⟨hs', ⟨hs'.progress, fun hzero => absurd hzero hprime⟩⟩, hclaim⟩

theorem meteredRound_follows {backends : List Backend} {m prime : Nat} {s : Metered}
    (hs : Meterable backends.length m prime s) :
    Returns (meteredRound backends m prime s) fun s' =>
      Meterable backends.length m prime s' ∧
        claimRound backends m prime s.progress = .ok s'.progress :=
  claimRound_follows Metered.progress
    (fun _ _ _ hi hs => meteredCoordinate_follows hi hs) hs

theorem metered_init (n m : Nat) :
    Metered.Valid n m ⟨Progress.init n m, []⟩ where
  progress := Progress.valid_init n m
  length_distribution := by simp [Progress.init]
  exact := fun _ _ hj => claimed_add_quota_init m hj
  exceeded := fun hwrapped => absurd (by simp [Unwrapped]) hwrapped

/-- The metered run is the coordinate phase. -/
theorem meteredPhase_follows (backends : List Backend) (m : Nat) :
    Returns (meteredPhase backends m) fun s =>
      s.Valid backends.length m ∧ coordinatePhase backends m = .ok s.progress := by
  have hunfold : ∀ prime s, meteredRounds backends m prime s =
      meteredRound backends m prime s >>= fun s' =>
        if (nextPrime prime).2 = true ∧
            isNotFullyDistributed s'.progress.distribution = true then
          meteredRounds backends m (nextPrime prime).1 s'
        else .ok s' := by
    intro prime s
    rw [meteredRounds]
    rfl
  obtain ⟨s, hrun, ⟨prime, hs⟩, hphase⟩ := coordinateRounds_follows Metered.progress
    (Meterable backends.length m) hunfold (fun prime s hs => meteredRound_follows hs)
    (fun _ _ s hprime hs => ⟨hs.valid, ⟨hs.valid.progress, fun hzero => by omega⟩⟩) m
    ⟨metered_init _ _, claimable_init _ _⟩
  exact ⟨s, hrun, hs.valid, hphase⟩

theorem Metered.Valid.unwrapped_iff {n m : Nat} {s : Metered} (hs : s.Valid n m) :
    Unwrapped s ↔ ∀ i < n, s.progress.claimed i ≤ m / n := by
  constructor
  · intro hunwrapped i hi
    have := hs.exact hunwrapped i hi
    omega
  · intro hclaimed
    by_contra hwrapped
    obtain ⟨i, hi, hmore⟩ := hs.exceeded hwrapped
    exact absurd (hclaimed i hi) (Nat.not_le_of_lt hmore)

/-- Only backends of the list hold slots, so their claims decide. -/
theorem within_of_claimed {backends : List Backend} {m : Nat} {share : Sharing.ShareOut Nat}
    {p : Progress} (htracks : Tracks backends m share (sharing backends m).demands.length p)
    (hclaimed : ∀ i < backends.length, p.claimed i ≤ m / backends.length) :
    (sharing backends m).Within share := by
  rw [Sharing.within_iff]
  intro i
  by_cases hi : i < backends.length
  · rw [← htracks.claimed_eq]
    exact hclaimed i hi
  · have hempty : (sharing backends m).held share i (sharing backends m).demands.length = ∅ := by
      refine Finset.eq_empty_of_forall_notMem fun k hk => hi ?_
      obtain ⟨d, hd, rfl, -⟩ := htracks.stable.exists_demand hk
      exact agent_lt hd
    rw [hempty, Finset.card_empty]
    exact Nat.zero_le _

end Udplb.Rlt
