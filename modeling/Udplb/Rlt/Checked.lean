import Udplb.Rlt.FillOrder

/-!
# The table is built without a fault

The program multiplies `(k + 1) * mod` in 32 bits and would wrap without notice.
The checked run below is the same construction with two additions: it stops when
that product does not fit, and it keeps a log of the slots it writes.  It never
stops, it builds the table of the plain run, and its log holds every slot once.
-/

namespace Udplb.Rlt

open Udplb.Foundation

inductive Fault where
  | runtime (err : RuntimeError)
  | overflow
  deriving DecidableEq, Repr

structure Logged where
  progress : Progress
  writes : List Nat
  deriving DecidableEq, Repr

def checkedMul (x y : Nat) : Except Fault Nat :=
  if x * y < 2 ^ 32 then .ok (x * y) else .error .overflow

def checkedSlot (i : Nat) (s : Logged) (idx : Nat) : Except Fault Logged := do
  let p ← (claimSlot i s.progress idx).mapError .runtime
  .ok ⟨p, if idx ∈ s.progress.unset then s.writes ++ [idx] else s.writes⟩

def checkedMultiple (i mod : Nat) (s : Logged) (k : Nat) :
    Except Fault Logged := do
  let idx ← checkedMul (k + 1) mod
  checkedSlot i s idx

def checkedCoordinate (m prime i : Nat) (s : Logged) (coord : UInt32) :
    Except Fault Logged :=
  if s.progress.distribution.getD i 0 < 1 then .ok s
  else if prime = 0 then .error (.runtime .divideByZero)
  else (List.range (m / prime)).foldlM
    (checkedMultiple i (coord.toNat % prime)) s

def checkedBackend (m prime : Nat) (s : Logged) (entry : Backend × Nat) :
    Except Fault Logged :=
  entry.1.coordinates.toList.foldlM (checkedCoordinate m prime entry.2) s

def checkedRound (backends : List Backend) (m prime : Nat) (s : Logged) :
    Except Fault Logged :=
  backends.zipIdx.foldlM (checkedBackend m prime) s

def checkedRounds (backends : List Backend) (m prime : Nat) (s : Logged) :
    Except Fault Logged := do
  let s ← checkedRound backends m prime s
  if _hnext : (nextPrime prime).2 = true ∧
      isNotFullyDistributed s.progress.distribution = true then
    checkedRounds backends m (nextPrime prime).1 s
  else
    .ok s
termination_by prime
decreasing_by exact nextPrime_lt _hnext.1

def checkedPhase (backends : List Backend) (m : Nat) : Except Fault Logged :=
  checkedRounds backends m m ⟨Progress.init backends.length m, []⟩

def checkedFill (n : Nat) : List Nat → Nat → List Nat → List Nat →
    Except Fault (List Nat × List Nat)
  | [], _, out, writes => .ok (out, writes)
  | k :: keys, i, out, writes =>
      let i := if uint32Pred n < i then 0 else i
      if k < out.length then
        checkedFill n keys (i + 1) (out.set k i) (writes ++ [k])
      else .error (.runtime .indexOutOfRange)

/-- The table together with the slots in the order in which they were written. -/
def checkedLookupTable (order : IterOrder) (availableBackends : List Backend)
    (m : UInt32) : Except Fault (List Nat × List Nat) := do
  let s ← checkedPhase availableBackends m.toNat
  checkedFill availableBackends.length (order.keys s.progress.unset) 0
    s.progress.out s.writes

/-! ## The coordinate phase -/

/-- Every slot is either in the log or still unset, and only once. -/
structure Logged.Valid (n m : Nat) (s : Logged) : Prop where
  progress : s.progress.Valid n m
  accounted : (s.writes ++ s.progress.unset).Perm (List.range m)

theorem checkedSlot_follows {n m i idx : Nat} {s : Logged} (hi : i < n)
    (hs : s.Valid n m) :
    Returns (checkedSlot i s idx) fun s' =>
      s'.Valid n m ∧ claimSlot i s.progress idx = .ok s'.progress := by
  obtain ⟨p, hp, hvalid'⟩ : Returns (claimSlot i s.progress idx) _ :=
    claimSlot_valid hi hs.progress
  rw [checkedSlot, hp]
  refine .ok ⟨⟨hvalid', ?_⟩, rfl⟩
  unfold claimSlot at hp
  by_cases hidx : idx ∈ s.progress.unset
  · have hlt : idx < s.progress.out.length := by
      rw [hs.progress.length_out]
      exact hs.progress.unset_lt idx hidx
    rw [if_pos hidx, if_pos hlt] at hp
    cases hp
    rw [if_pos hidx, List.append_assoc]
    -- The slot moves from `unset` to the end of the log.
    exact ((List.perm_cons_erase hidx).symm.append_left s.writes).trans hs.accounted
  · rw [if_neg hidx] at hp
    cases hp
    rw [if_neg hidx]
    exact hs.accounted

theorem checkedMultiples_follows {n m prime i c : Nat} {s : Logged}
    (hm : m < 2 ^ 32) (hprime : prime ≠ 0) (hi : i < n) (hs : s.Valid n m) :
    Returns ((List.range (m / prime)).foldlM (checkedMultiple i (c % prime)) s)
      fun s' => s'.Valid n m ∧
        claimMultiples m prime i (c % prime) s.progress = .ok s'.progress := by
  refine foldlM_follows Logged.progress hs ?_
  intro s' k hk hs'
  have hfits : (k + 1) * (c % prime) < 2 ^ 32 :=
    Nat.lt_trans (multiple_lt hprime (List.mem_range.mp hk)) hm
  rw [checkedMultiple, checkedMul, if_pos hfits, uint32, Nat.mod_eq_of_lt hfits]
  exact checkedSlot_follows hi hs'

/-- What the checked run keeps between two claims of a round. -/
def Checkable (n m prime : Nat) (s : Logged) : Prop :=
  s.Valid n m ∧ Claimable n m prime s.progress

theorem checkedCoordinate_follows {n m prime i : Nat} {s : Logged}
    {coord : UInt32} (hm : m < 2 ^ 32) (hi : i < n)
    (hs : Checkable n m prime s) :
    Returns (checkedCoordinate m prime i s coord) fun s' =>
      Checkable n m prime s' ∧
        claimCoordinate m prime i s.progress coord = .ok s'.progress := by
  unfold checkedCoordinate claimCoordinate
  by_cases hquota : s.progress.distribution.getD i 0 < 1
  · rw [if_pos hquota, if_pos hquota]
    exact .ok ⟨hs, rfl⟩
  · have hprime : prime ≠ 0 := hs.2.prime_ne_zero hquota
    rw [if_neg hquota, if_neg hquota, if_neg hprime, if_neg hprime]
    refine Returns.mono (checkedMultiples_follows hm hprime hi hs.1) ?_
    rintro s' ⟨hs', hclaim⟩
    exact ⟨⟨hs', hs'.progress, fun hzero => absurd hzero hprime⟩, hclaim⟩

theorem checkedRound_follows {backends : List Backend} {m prime : Nat}
    {s : Logged} (hm : m < 2 ^ 32)
    (hs : Checkable backends.length m prime s) :
    Returns (checkedRound backends m prime s) fun s' =>
      Checkable backends.length m prime s' ∧
        claimRound backends m prime s.progress = .ok s'.progress :=
  claimRound_follows Logged.progress
    (fun _ _ _ hi hs => checkedCoordinate_follows hm hi hs) hs

theorem checkedPhase_follows (backends : List Backend) {m : Nat}
    (hm : m < 2 ^ 32) :
    Returns (checkedPhase backends m) fun s =>
      s.Valid backends.length m ∧
        coordinatePhase backends m = .ok s.progress := by
  have hunfold : ∀ prime s, checkedRounds backends m prime s =
      checkedRound backends m prime s >>= fun s' =>
        if (nextPrime prime).2 = true ∧
            isNotFullyDistributed s'.progress.distribution = true then
          checkedRounds backends m (nextPrime prime).1 s'
        else .ok s' := by
    intro prime s
    rw [checkedRounds]
    rfl
  have hinit : Checkable backends.length m m ⟨Progress.init backends.length m, []⟩ :=
    ⟨⟨Progress.valid_init _ _, .refl _⟩, claimable_init _ _⟩
  obtain ⟨s, hrun, ⟨prime, hs⟩, hphase⟩ := coordinateRounds_follows Logged.progress
    (Checkable backends.length m) hunfold
    (fun prime s hs => checkedRound_follows hm hs)
    (fun _ _ s hprime hs => ⟨hs.1, hs.1.progress, fun hzero => by omega⟩) m hinit
  exact ⟨s, hrun, hs.1, hphase⟩

/-! ## The fill phase -/

theorem checkedFill_follows {n : Nat} {keys : List Nat} {i : Nat}
    {out writes : List Nat} (hkeys : ∀ k ∈ keys, k < out.length) :
    Returns (checkedFill n keys i out writes) fun result =>
      fillRemaining n keys i out = .ok result.1 ∧
        result.2 = writes ++ keys := by
  induction keys generalizing i out writes with
  | nil => exact .ok ⟨rfl, by simp⟩
  | cons key keys ih =>
      have hkey : key < out.length := hkeys key (by simp)
      simp only [checkedFill, fillRemaining, if_pos hkey]
      refine Returns.mono (ih fun k hk => ?_) ?_
      · simpa using hkeys k (by simp [hk])
      · rintro result ⟨hfill, hwrites⟩
        exact ⟨hfill, by simp [hwrites]⟩

/--
For a nonempty backend list the table is built without a division by zero, an
index outside the table or an overflowing product.  Over both phases each slot
is written once, and it names a backend of the list.
-/
theorem reverseCoordinatesLookupTable_total (order : IterOrder)
    (backends : List Backend) (m : UInt32) (hne : backends ≠ []) :
    ∃ table writes,
      reverseCoordinatesLookupTable order backends m = .ok table ∧
      checkedLookupTable order backends m = .ok (table, writes) ∧
      writes.Perm (List.range m.toNat) ∧
      table.length = m.toNat ∧
      ∀ value ∈ table, value < backends.length := by
  obtain ⟨s, hchecked, hs, hphase⟩ :=
    checkedPhase_follows backends m.toNat_lt
  have hkeys := order.perm s.progress.unset
  have hbound : ∀ k ∈ order.keys s.progress.unset, k < s.progress.out.length := by
    intro k hk
    rw [hs.progress.length_out]
    exact hs.progress.unset_lt k (hkeys.mem_iff.mp hk)
  obtain ⟨⟨table, writes⟩, hfilled, hfill, rfl⟩ :
      Returns (checkedFill backends.length _ 0 _ s.writes) _ :=
    checkedFill_follows hbound
  have htable : reverseCoordinatesLookupTable order backends m = .ok table := by
    rw [reverseCoordinatesLookupTable, hphase]
    exact hfill
  obtain ⟨hlength, hentries⟩ :=
    (reverseCoordinatesLookupTable_valid order backends m hne).of_eq_ok htable
  refine ⟨table, s.writes ++ order.keys s.progress.unset, htable, ?_, ?_,
    hlength, hentries⟩
  · rw [checkedLookupTable, hchecked]
    exact hfilled
  · exact (hkeys.append_left s.writes).trans hs.accounted

theorem reverseCoordinatesLookupTable_total_two_backends :
    [makeBackend 0, makeBackend 1] ≠ [] ∧
    ∃ table writes,
      reverseCoordinatesLookupTable .swapped [makeBackend 0, makeBackend 1] 7 =
        .ok table ∧
      checkedLookupTable .swapped [makeBackend 0, makeBackend 1] 7 =
        .ok (table, writes) ∧
      writes.Perm (List.range (7 : UInt32).toNat) ∧
      table.length = (7 : UInt32).toNat ∧
      ∀ value ∈ table, value < [makeBackend 0, makeBackend 1].length :=
  ⟨by simp, reverseCoordinatesLookupTable_total _ _ _ (by simp)⟩

end Udplb.Rlt
