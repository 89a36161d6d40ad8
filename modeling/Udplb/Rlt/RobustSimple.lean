import Udplb.Rlt.Robust

/-!
# The robust simple table

The backends claim one slot each in turn.  A backend with nothing left of its quota
is banned, and the rounds end when all are.  All quotas start equal and go down
together, so the backends are banned in one and the same round.
-/

namespace Udplb.Rlt

open Udplb.Foundation

def simpleTurn (fuel m : Nat) (s : Filling) (j : Nat) : Except Stop Filling :=
  if s.distribution.getD j 0 < 1 then .ok { s with banned := s.banned.insert j }
  else claimNext fuel m s j

def simpleRound (fuel n m : Nat) (s : Filling) : Except Stop (Filling ⊕ Filling) :=
  if uint32 s.banned.length = n then .ok (.inr s)
  else do
    let s ← (List.range n).foldlM (simpleTurn fuel m) s
    .ok (.inl s)

def robustSimpleLookupTable (fuel : Nat) (availableBackends : List Backend)
    (lookupTableLength : UInt32) : Except Stop (List Nat) :=
  let n := uint32 availableBackends.length
  let m := lookupTableLength.toNat
  -- The remainder `m % n` is computed first.
  if n = 0 then .error (.runtime .divideByZero)
  else do
    let s ← startSlots availableBackends n m
    let s ← loop (simpleRound fuel n m) .unfinished fuel s
    completeTable n (m % n) s

/-! ## The rounds -/

theorem Filling.Valid.ban {backends : List Backend} {m : Nat} {s : Filling}
    (hs : s.Valid backends m) (banned : List Nat) :
    Filling.Valid backends m { s with banned := banned } :=
  ⟨⟨hs.shaped.length_lup, hs.shaped.length_M, hs.shaped.length_distribution,
    hs.shaped.M_lt⟩, hs.lup_lt, hs.balance, hs.probed, hs.latest⟩

section Rounds

variable {backends : List Backend} {m fuel : Nat} {s : Filling}

/-- Every backend has the same quota left. -/
def EqualQuotas (backends : List Backend) (quota : Nat) (s : Filling) : Prop :=
  ∀ j < backends.length, s.distribution.getD j 0 = quota

theorem simpleTurns_claim (hm : m < 2 ^ 32) (hfuel : m ≤ fuel) {quota : Nat}
    (hs : s.Valid backends m) (hbanned : s.banned = [])
    (hquotas : EqualQuotas backends (quota + 1) s) :
    Returns ((List.range backends.length).foldlM (simpleTurn fuel m) s) fun s' =>
      s'.Valid backends m ∧ s'.banned = [] ∧ EqualQuotas backends quota s' := by
  -- The backends before `i` have claimed their slot of this round.
  refine Returns.mono (foldlM_range_returns
    (fun i (s' : Filling) => s'.Valid backends m ∧ s'.banned = [] ∧ ∀ j < backends.length,
      s'.distribution.getD j 0 = quota + 1 - if j < i then 1 else 0)
    ⟨hs, hbanned, hquotas⟩ ?_) ?_
  · rintro i s' hi ⟨hs', hbanned', hquotas'⟩
    have hquota : s'.distribution.getD i 0 = quota + 1 := by
      rw [hquotas' i hi, if_neg (Nat.lt_irrefl i), Nat.sub_zero]
    rw [simpleTurn, if_neg (by omega)]
    refine (claimNext_returns hm hfuel hs' hi (by omega)).mono ?_
    rintro s'' ⟨hs'', hbanned'', hspent⟩
    refine ⟨hs'', hbanned''.trans hbanned', fun j hj => ?_⟩
    rw [hspent, hquotas' j hj]
    split <;> split <;> split <;> omega
  · rintro s' ⟨hs', hbanned', hquotas'⟩
    refine ⟨hs', hbanned', fun j hj => ?_⟩
    rw [hquotas' j hj, if_pos hj, Nat.add_sub_cancel]

theorem simpleTurns_ban (hs : s.Valid backends m) (hbanned : s.banned = [])
    (hquotas : EqualQuotas backends 0 s) :
    Returns ((List.range backends.length).foldlM (simpleTurn fuel m) s) fun s' =>
      s'.Valid backends m ∧ s'.banned.length = backends.length ∧
        EqualQuotas backends 0 s' := by
  -- The banned backends are those before `i`.
  refine Returns.mono (foldlM_range_returns
    (fun i (s' : Filling) => s'.Valid backends m ∧ s'.banned.length = i ∧
      EqualQuotas backends 0 s' ∧ ∀ j ∈ s'.banned, j < i)
    ⟨hs, by simp [hbanned], hquotas, by simp [hbanned]⟩ ?_) ?_
  · rintro i s' hi ⟨hs', hlength, hquotas', hless⟩
    have hfresh : i ∉ s'.banned := fun hmem => Nat.lt_irrefl i (hless i hmem)
    rw [simpleTurn, hquotas' i hi, if_pos Nat.zero_lt_one]
    refine .ok ⟨hs'.ban _, ?_, hquotas', ?_⟩
    · rw [List.length_insert_of_not_mem hfresh, hlength]
    · intro j hj
      rcases List.mem_insert_iff.mp hj with rfl | hj
      · exact Nat.lt_succ_self j
      · exact Nat.lt_succ_of_lt (hless j hj)
  · rintro s' ⟨hs', hlength, hquotas', -⟩
    exact ⟨hs', hlength, hquotas'⟩

/-- Between two rounds nobody is banned, or everybody with nothing left. -/
def InStep (backends : List Backend) (m : Nat) (s : Filling) : Prop :=
  s.Valid backends m ∧
    (s.banned = [] ∧ (∃ quota, EqualQuotas backends quota s) ∨
      s.banned.length = backends.length ∧ EqualQuotas backends 0 s)

/-- Rounds to go: one for each unit of the quota and one for the ban. -/
def roundsLeft (s : Filling) : Nat :=
  s.distribution.getD 0 0 + if s.banned = [] then 1 else 0

theorem simpleRound_returns (hn : 0 < backends.length)
    (hn' : backends.length < 2 ^ 32) (hm : m < 2 ^ 32) (hfuel : m ≤ fuel)
    (hs : InStep backends m s) :
    Returns (simpleRound fuel backends.length m s) (Sum.elim
      (fun s' => InStep backends m s' ∧ roundsLeft s' < roundsLeft s)
      (fun s' => s'.Valid backends m ∧ EqualQuotas backends 0 s')) := by
  unfold simpleRound
  obtain ⟨hs, ⟨hbanned, quota, hquotas⟩ | ⟨hbanned, hquotas⟩⟩ := hs
  · have hgo : uint32 s.banned.length ≠ backends.length := by
      rw [hbanned]
      exact Nat.ne_of_lt hn
    rw [if_neg hgo]
    have hleft : roundsLeft s = quota + 1 := by
      rw [roundsLeft, hquotas 0 hn, if_pos hbanned]
    cases quota with
    | zero =>
        refine (simpleTurns_ban hs hbanned hquotas).bind ?_
        rintro s' ⟨hs', hbanned', hquotas'⟩
        refine .ok ⟨⟨hs', .inr ⟨hbanned', hquotas'⟩⟩, ?_⟩
        have hsome : s'.banned ≠ [] := List.length_pos_iff.mp (by omega)
        rw [hleft, roundsLeft, hquotas' 0 hn, if_neg hsome]
        exact Nat.zero_lt_one
    | succ quota =>
        refine (simpleTurns_claim hm hfuel hs hbanned hquotas).bind ?_
        rintro s' ⟨hs', hbanned', hquotas'⟩
        refine .ok ⟨⟨hs', .inl ⟨hbanned', quota, hquotas'⟩⟩, ?_⟩
        rw [hleft, roundsLeft, hquotas' 0 hn, if_pos hbanned']
        exact Nat.lt_succ_self _
  · rw [if_pos (by rw [hbanned, uint32_of_lt hn'])]
    exact .ok ⟨hs, hquotas⟩

end Rounds

/--
With an arbitrary choice of coordinates and a slot for each backend, every search and
the rounds end within `m` iterations.  Each backend owns its share up to one slot,
and only backend 0 may own more than that.
-/
theorem robustSimpleLookupTable_nearEven (fuel : Nat) (backends : List Backend)
    (m : UInt32) (hne : backends ≠ []) (hm : backends.length ≤ m.toNat)
    (hfuel : m.toNat < fuel) :
    Returns (robustSimpleLookupTable fuel backends m) fun table =>
      table.length = m.toNat ∧ (∀ v ∈ table, v < backends.length) ∧
      (∀ j < backends.length, m.toNat / backends.length - 1 ≤ table.count j) ∧
      ∀ j < backends.length, j ≠ 0 →
        table.count j ≤ m.toNat / backends.length + 1 := by
  have hn : 0 < backends.length := List.length_pos_iff.mpr hne
  have hlt : m.toNat < 2 ^ 32 := m.toNat_lt
  have hquota : 0 < m.toNat / backends.length := Nat.div_pos hm hn
  have hwidth : uint32 backends.length = backends.length := uint32_of_lt (by omega)
  unfold robustSimpleLookupTable
  simp only [hwidth, if_neg (Nat.ne_of_gt hn)]
  refine (startSlots_valid hquota).bind ?_
  rintro s₀ ⟨hs₀, hbanned, hquotas⟩
  have hrounds : Returns (loop (simpleRound fuel backends.length m.toNat) .unfinished
      fuel s₀) _ :=
    loop_returns roundsLeft
      (fun s hs => simpleRound_returns hn (by omega) hlt (Nat.le_of_lt hfuel) hs)
      ⟨hs₀, .inl ⟨hbanned, _, hquotas⟩⟩ (by
        have := Nat.div_le_self m.toNat backends.length
        rw [roundsLeft, hquotas 0 hn, if_pos hbanned]
        omega)
  refine hrounds.bind ?_
  rintro s ⟨hs, hspent⟩
  refine (completeTable_spec hs hn hm).mono ?_
  rintro table ⟨hlength, hentries, hkept, hexact⟩
  refine ⟨hlength, hentries, fun j hj => ?_, fun j hj hj0 => ?_⟩
  · have := hs.balance j hj
    have := hspent j hj
    have := hkept j
    omega
  · have := hs.balance j hj
    have := startShare_le backends m.toNat j
    have := remainderShare_le backends.length (m.toNat % backends.length) s.lup j
    rw [hexact j hj0]
    omega

theorem robustSimpleLookupTable_nearEven_three_backends :
    Returns (robustSimpleLookupTable 8 [makeBackend 0, makeBackend 1, makeBackend 2] 7)
      fun table => table.length = (7 : UInt32).toNat ∧ (∀ v ∈ table, v < 3) ∧
        (∀ j < 3, (7 : UInt32).toNat / 3 - 1 ≤ table.count j) ∧
        ∀ j < 3, j ≠ 0 → table.count j ≤ (7 : UInt32).toNat / 3 + 1 :=
  robustSimpleLookupTable_nearEven 8 _ 7 (by simp) (by decide) (by decide)

end Udplb.Rlt
