import Udplb.Foundation.Trace
import Udplb.StateMachine.Machines

/-!
# Snapshots of a distributed data structure

The event loop of a replica executes the commands of the log and decodes
snapshots into its state machine.  A snapshot replaces the state of an array or
a counter.  It is merged into the state of a map or a set: a replica keeps every
key that it has and the snapshot lacks.
-/

namespace Udplb.Dvds

open Udplb.Foundation Udplb.StateMachine

inductive Event (T U : Type) where
  | commands (entries : List T)
  | snapshots (snapshots : List U)

section EventLoop

variable {σ T U : Type} (stm : Interface σ T U) (codec : Codec U)

/-- Every entry is a put, and what it returns is ignored. -/
def executeEntries (s : σ) (entries : List T) : Except Panic σ :=
  entries.foldlM (fun s entry => do
    let (next, _) ← stm.execute s .put entry
    .ok next) s

def applySnapshot (s : σ) (lastSnap : U) : σ × List U :=
  match codec.marshal lastSnap with
  | .error _ => (s, [])
  | .ok buf =>
      let next := (stm.decode s buf).1
      (next, [stm.state next])

/-- One iteration of the event loop, with what it dispatches. -/
def step (s : σ) : Event T U → Except Panic (σ × List U)
  | .commands entries => do
      let next ← executeEntries stm s entries
      .ok (next, [stm.state next])
  | .snapshots snapshots =>
      match snapshots.getLast? with
      | none => .ok (s, [])
      | some lastSnap => .ok (applySnapshot stm codec s lastSnap)

abbrev run (s : σ) (events : List (Event T U)) : Except Panic (σ × List U) :=
  Foundation.run (step stm codec) s events

/-- A machine in state `t` that decodes what one in state `s` encodes is in `s`. -/
def Restores (s t : σ) : Prop :=
  ∃ buf, stm.encode s = .ok buf ∧ stm.state (stm.decode t buf).1 = stm.state s

/-- Two replicas in the states `t₁` and `t₂` show one state after the snapshots. -/
def Agree (t₁ t₂ : σ) (snapshots : List U) : Prop :=
  ∃ u₁ u₂ out₁ out₂,
    step stm codec t₁ (.snapshots snapshots) = .ok (u₁, out₁) ∧
    step stm codec t₂ (.snapshots snapshots) = .ok (u₂, out₂) ∧
    stm.state u₁ = stm.state u₂

end EventLoop

/-! ## What decoding leaves -/

section Decoding

variable {σ T U : Type} {into : U → U → U} {codec : Codec U}
  (hcodec : codec.DecodesInto into) (get : σ → U) (setState : U → σ → σ)
  (execute : σ → Command → T → Except Panic (σ × Option Error)) (state : σ → U)

include hcodec

theorem decode_marshal (source : U) :
    ∃ buf, codec.marshal source = .ok buf ∧ ∀ t,
      ((Interface.ofCodec codec get setState execute state).decode t buf).1 =
        setState (into source (get t)) t := by
  obtain ⟨buf, hmarshal, hunmarshal⟩ := hcodec source
  refine ⟨buf, hmarshal, ?_⟩
  intro t
  simp only [Interface.ofCodec, hunmarshal]

theorem restores_iff (s t : σ) :
    Restores (Interface.ofCodec codec get setState execute state) s t ↔
      state (setState (into (get s) (get t)) t) = state s := by
  obtain ⟨buf, hmarshal, hdecode⟩ := decode_marshal hcodec get setState execute state
    (get s)
  constructor
  · rintro ⟨buf', hencode, hstate⟩
    rw [show buf' = buf from Except.ok.inj (hencode.symm.trans hmarshal)] at hstate
    rw [← hdecode]
    exact hstate
  · intro hstate
    exact ⟨buf, hmarshal, by rw [hdecode]; exact hstate⟩

theorem step_snapshots (t : σ) (earlier : List U) (last : U) :
    ∃ out, step (Interface.ofCodec codec get setState execute state) codec t
      (.snapshots (earlier ++ [last])) = .ok (setState (into last (get t)) t, out) := by
  obtain ⟨buf, hmarshal, hdecode⟩ := decode_marshal hcodec get setState execute state
    last
  refine ⟨[state (setState (into last (get t)) t)], ?_⟩
  simp only [step, List.getLast?_append, List.getLast?_singleton, Option.some_or,
    applySnapshot, hmarshal]
  rw [hdecode]
  rfl

theorem agree_iff (t₁ t₂ : σ) (earlier : List U) (last : U) :
    Agree (Interface.ofCodec codec get setState execute state) codec t₁ t₂
        (earlier ++ [last]) ↔
      state (setState (into last (get t₁)) t₁) =
        state (setState (into last (get t₂)) t₂) := by
  obtain ⟨out₁, hstep₁⟩ := step_snapshots hcodec get setState execute state
    t₁ earlier last
  obtain ⟨out₂, hstep₂⟩ := step_snapshots hcodec get setState execute state
    t₂ earlier last
  constructor
  · rintro ⟨u₁, u₂, out₁', out₂', h₁, h₂, hstate⟩
    rw [hstep₁] at h₁
    rw [hstep₂] at h₂
    cases h₁
    cases h₂
    exact hstate
  · intro hstate
    exact ⟨_, _, out₁, out₂, hstep₁, hstep₂, hstate⟩

end Decoding

/-! ## The four machines -/

/-- The snapshot is nil, or a machine has no key that the snapshot lacks. -/
def NoStaleKeys {K V : Type} (snapshot state : NilableMap K V) : Prop :=
  snapshot = none ∨ ∀ k ∈ state.entries, k ∈ snapshot.entries

/-- The snapshot is nil, or two machines differ in none of the keys it lacks. -/
def SameStaleKeys {K V : Type} [DecidableEq K] (snapshot state₁ state₂ : NilableMap K V) :
    Prop :=
  snapshot = none ∨ ∀ k, k ∉ snapshot.entries →
    state₁.entries.lookup k = state₂.entries.lookup k

theorem copyMap_mergeInto_iff {K V : Type} [DecidableEq K] (s t : NilableMap K V) :
    copyMap (NilableMap.mergeInto s t) = copyMap s ↔ NoStaleKeys s t := by
  rw [copyMap, copyMap, Option.some.injEq]
  exact NilableMap.entries_mergeInto_eq_iff

theorem copyMap_mergeInto_congr_iff {K V : Type} [DecidableEq K]
    (s t₁ t₂ : NilableMap K V) :
    copyMap (NilableMap.mergeInto s t₁) = copyMap (NilableMap.mergeInto s t₂) ↔
      SameStaleKeys s t₁ t₂ := by
  rw [copyMap, copyMap, Option.some.injEq]
  exact NilableMap.entries_mergeInto_congr_iff

section Machines

variable {T E K V : Type} [DecidableEq K]

theorem hashmap_restores_iff {codec : Codec (NilableMap K V)}
    (hcodec : codec.DecodesInto NilableMap.mergeInto) (s t : Hashmap E K V) :
    Restores (Hashmap.interface codec) s t ↔ NoStaleKeys s.state t.state :=
  (restores_iff hcodec _ _ _ _ s t).trans (copyMap_mergeInto_iff _ _)

theorem set_restores_iff {codec : Codec (NilableMap K Unit)}
    (hcodec : codec.DecodesInto NilableMap.mergeInto) (s t : StateMachine.Set K) :
    Restores (Set.interface codec) s t ↔ NoStaleKeys s.state t.state :=
  (restores_iff hcodec _ _ _ _ s t).trans (copyMap_mergeInto_iff _ _)

theorem hashmap_agree_iff {codec : Codec (NilableMap K V)}
    (hcodec : codec.DecodesInto NilableMap.mergeInto) (t₁ t₂ : Hashmap E K V)
    (earlier : List (NilableMap K V)) (snapshot : NilableMap K V) :
    Agree (Hashmap.interface codec) codec t₁ t₂ (earlier ++ [snapshot]) ↔
      SameStaleKeys snapshot t₁.state t₂.state :=
  (agree_iff hcodec _ _ _ _ t₁ t₂ earlier snapshot).trans
    (copyMap_mergeInto_congr_iff _ _ _)

theorem set_agree_iff {codec : Codec (NilableMap K Unit)}
    (hcodec : codec.DecodesInto NilableMap.mergeInto) (t₁ t₂ : StateMachine.Set K)
    (earlier : List (NilableMap K Unit)) (snapshot : NilableMap K Unit) :
    Agree (Set.interface codec) codec t₁ t₂ (earlier ++ [snapshot]) ↔
      SameStaleKeys snapshot t₁.state t₂.state :=
  (agree_iff hcodec _ _ _ _ t₁ t₂ earlier snapshot).trans
    (copyMap_mergeInto_congr_iff _ _ _)

/--
Where an encoding decodes to its source, decoding restores the encoded state and
replicas agree after a snapshot: always for arrays and counters; for maps and sets
exactly when no machine has a key that the snapshot lacks, or all of them have the
same ones.
-/
theorem snapshot_restores_iff (arrayCodec : Codec (Option (List T)))
    (mapCodec : Codec (NilableMap K V)) (setCodec : Codec (NilableMap K Unit))
    (counterCodec : Codec Int64) (harray : arrayCodec.DecodesInto replaceInto)
    (hmap : mapCodec.DecodesInto NilableMap.mergeInto)
    (hset : setCodec.DecodesInto NilableMap.mergeInto)
    (hcounter : counterCodec.DecodesInto replaceInto) :
    ((∀ s t : StateMachine.Array T, Restores (Array.interface arrayCodec) s t) ∧
      (∀ s t : Counter, Restores (Counter.interface counterCodec) s t) ∧
      (∀ s t : Hashmap E K V,
        Restores (Hashmap.interface mapCodec) s t ↔ NoStaleKeys s.state t.state) ∧
      (∀ s t : StateMachine.Set K,
        Restores (Set.interface setCodec) s t ↔ NoStaleKeys s.state t.state)) ∧
    ((∀ (t₁ t₂ : StateMachine.Array T) earlier snapshot,
        Agree (Array.interface arrayCodec) arrayCodec t₁ t₂ (earlier ++ [snapshot])) ∧
      (∀ (t₁ t₂ : Counter) earlier snapshot,
        Agree (Counter.interface counterCodec) counterCodec t₁ t₂
          (earlier ++ [snapshot])) ∧
      (∀ (t₁ t₂ : Hashmap E K V) earlier snapshot,
        Agree (Hashmap.interface mapCodec) mapCodec t₁ t₂ (earlier ++ [snapshot]) ↔
          SameStaleKeys snapshot t₁.state t₂.state) ∧
      (∀ (t₁ t₂ : StateMachine.Set K) earlier snapshot,
        Agree (Set.interface setCodec) setCodec t₁ t₂ (earlier ++ [snapshot]) ↔
          SameStaleKeys snapshot t₁.state t₂.state)) := by
  refine ⟨⟨?_, ?_, hashmap_restores_iff hmap, set_restores_iff hset⟩, ?_, ?_,
    hashmap_agree_iff hmap, set_agree_iff hset⟩
  · intro s t
    exact (restores_iff harray _ _ _ _ s t).mpr rfl
  · intro s t
    exact (restores_iff hcounter _ _ _ _ s t).mpr rfl
  · intro t₁ t₂ earlier snapshot
    exact (agree_iff harray _ _ _ _ t₁ t₂ earlier snapshot).mpr rfl
  · intro t₁ t₂ earlier snapshot
    exact (agree_iff hcounter _ _ _ _ t₁ t₂ earlier snapshot).mpr rfl

end Machines

def exampleSet (keys : List String) : StateMachine.Set String :=
  ⟨some (keys.foldl (fun entries key => entries.insert key ()) ∅)⟩

theorem countable_string : Countable String := by
  have hchars : Function.Injective String.toList := fun _ _ => String.toList_inj.mp
  have hchar : Function.Injective Char.toNat := fun _ _ => Char.toNat_inj.mp
  have : Countable Char := hchar.countable
  exact hchars.countable

/-- A machine that is empty takes over the snapshot of one that holds a key. -/
theorem snapshot_restores_iff_empty :
    ∃ (arrayCodec : Codec (Option (List String))) (mapCodec : Codec (NilableMap String String))
      (setCodec : Codec (NilableMap String Unit)) (counterCodec : Codec Int64),
      arrayCodec.DecodesInto replaceInto ∧ mapCodec.DecodesInto NilableMap.mergeInto ∧
      setCodec.DecodesInto NilableMap.mergeInto ∧ counterCodec.DecodesInto replaceInto ∧
      (∀ s t : StateMachine.Array String, Restores (Array.interface arrayCodec) s t) ∧
      (∀ s t : Counter, Restores (Counter.interface counterCodec) s t) ∧
      Restores (Set.interface setCodec) (exampleSet ["b"]) (exampleSet []) := by
  have := countable_string
  have hint : Function.Injective Int64.toInt := fun _ _ => Int64.toInt_inj.mp
  have : Countable Int64 := hint.countable
  obtain ⟨arrayCodec, harray⟩ :=
    Codec.exists_decodesInto (replaceInto : Option (List String) → _)
  obtain ⟨mapCodec, hmap⟩ :=
    Codec.exists_decodesInto (NilableMap.mergeInto : NilableMap String String → _)
  obtain ⟨setCodec, hset⟩ :=
    Codec.exists_decodesInto (NilableMap.mergeInto : NilableMap String Unit → _)
  obtain ⟨counterCodec, hcounter⟩ := Codec.exists_decodesInto (replaceInto : Int64 → _)
  obtain ⟨⟨harrays, hcounters, -, hsets⟩, -⟩ := snapshot_restores_iff
    (E := Unit) arrayCodec mapCodec setCodec counterCodec harray hmap hset hcounter
  refine ⟨arrayCodec, mapCodec, setCodec, counterCodec, harray, hmap, hset, hcounter, harrays,
    hcounters, (hsets _ _).mpr (Or.inr ?_)⟩
  intro k hk
  exact absurd hk Finmap.notMem_empty

/--
One replica put `b`, the other one put `a`.  The second decodes the snapshot of
the first and holds both keys.
-/
theorem snapshot_keeps_stale_key :
    (∃ codec : Codec (NilableMap String Unit), codec.DecodesInto NilableMap.mergeInto) ∧
    ∀ codec : Codec (NilableMap String Unit), codec.DecodesInto NilableMap.mergeInto →
      Set.new [] = .ok (exampleSet []) ∧
      run (Set.interface codec) codec (exampleSet []) [.commands ["b"]] =
        .ok (exampleSet ["b"], [(exampleSet ["b"]).state]) ∧
      run (Set.interface codec) codec (exampleSet []) [.commands ["a"]] =
        .ok (exampleSet ["a"], [(exampleSet ["a"]).state]) ∧
      ¬Restores (Set.interface codec) (exampleSet ["b"]) (exampleSet ["a"]) ∧
      ¬Agree (Set.interface codec) codec (exampleSet ["b"]) (exampleSet ["a"])
        [(exampleSet ["b"]).state] := by
  have := countable_string
  refine ⟨Codec.exists_decodesInto _, ?_⟩
  intro codec hcodec
  refine ⟨rfl, rfl, rfl, ?_, ?_⟩
  · rw [set_restores_iff hcodec]
    rintro (hnil | hkeys)
    · cases hnil
    · exact absurd (hkeys "a" (by decide)) (by decide)
  · rw [← List.nil_append [(exampleSet ["b"]).state], set_agree_iff hcodec]
    rintro (hnil | hkeys)
    · cases hnil
    · exact absurd (hkeys "a" (by decide)) (by decide)

end Udplb.Dvds
