import Mathlib.Data.Set.Lattice
import Udplb.Dvds.Replica

/-!
# The keys of a replicated map

The loop of a replica executes every entry as a put, and a snapshot is merged into
the map or set it is decoded into.  Neither takes a key away.  The exception is a nil
snapshot: the machine then holds a nil map, and the next put panics.
-/

namespace Udplb.Dvds

open Udplb.Foundation Udplb.Wal Udplb.Util

variable {σ T U K : Type}

/--
A machine to which puts and decoded snapshots add keys, as long as no snapshot is
improper.  A snapshot that is not encoded is skipped and brings none.
-/
structure Keyed (stm : StateMachine.Interface σ T U) (codec : Codec U)
    (Good : σ → Prop) (Proper : U → Prop) (puts : T → Set K) (brings keys : U → Set K) :
    Prop where
  execute : ∀ m entry, Good m → Returns (stm.execute m .put entry) fun result =>
    Good result.1 ∧ keys (stm.state result.1) = keys (stm.state m) ∪ puts entry
  decode : ∀ m snapshot buf, Good m → Proper snapshot → codec.marshal snapshot = .ok buf →
    Good (stm.decode m buf).1 ∧
      keys (stm.state (stm.decode m buf).1) = keys (stm.state m) ∪ brings snapshot
  skipped : ∀ snapshot err, codec.marshal snapshot = .error err → brings snapshot = ∅

/-! ## Maps and sets -/

section Machines

variable {E V : Type}

def mapKeys (state : NilableMap K V) : Set K := {k | k ∈ state.entries}

/-- The keys that are read from the encoding of a snapshot. -/
def keysRead (codec : Codec (NilableMap K V)) (read : Bytes → Finmap fun _ : K => V)
    (snapshot : NilableMap K V) : Set K :=
  {k | ∃ buf, codec.marshal snapshot = .ok buf ∧ k ∈ read buf}

theorem keysRead_of_ok {codec : Codec (NilableMap K V)}
    {read : Bytes → Finmap fun _ : K => V} {snapshot : NilableMap K V} {buf : Bytes}
    (hmarshal : codec.marshal snapshot = .ok buf) :
    keysRead codec read snapshot = {k | k ∈ read buf} := by
  ext k
  simp [keysRead, hmarshal]

theorem keysRead_of_error {codec : Codec (NilableMap K V)}
    {read : Bytes → Finmap fun _ : K => V} {snapshot : NilableMap K V} {err : CodecError}
    (hmarshal : codec.marshal snapshot = .error err) :
    keysRead codec read snapshot = ∅ := by
  ext k
  simp [keysRead, hmarshal]

variable [DecidableEq K]

theorem mapKeys_insert (entries : Finmap fun _ : K => V) (k : K) (v : V) :
    mapKeys (some (entries.insert k v)) = mapKeys (some entries) ∪ {k} := by
  ext k'
  simp [mapKeys, NilableMap.entries, Finmap.mem_insert]

theorem mapKeys_union (source target : Finmap fun _ : K => V) :
    mapKeys (some (source ∪ target)) = mapKeys (some target) ∪ {k | k ∈ source} := by
  ext k
  simp [mapKeys, NilableMap.entries, Finmap.mem_union, or_comm]

theorem hashmap_keyed {codec : Codec (NilableMap K V)}
    {read : Bytes → Finmap fun _ : K => V} (hcodec : NilableMap.Merges codec read)
    (transformFunc : E → Except String (K × V)) :
    Keyed (StateMachine.Hashmap.interface codec) codec
      (fun m => m.transformFunc = transformFunc ∧ m.state ≠ none) (· ≠ none)
      (fun entry => {k | ∃ v, transformFunc entry = .ok (k, v)}) (keysRead codec read)
      mapKeys where
  execute := by
    rintro ⟨state, f⟩ entry ⟨rfl, hstate⟩
    obtain ⟨entries, rfl⟩ := Option.ne_none_iff_exists'.mp hstate
    simp only [StateMachine.Hashmap.interface, StateMachine.Interface.ofCodec,
      StateMachine.Hashmap.execute]
    cases htransform : f entry with
    | error message => exact .ok ⟨⟨rfl, hstate⟩, by simp⟩
    | ok kv =>
        refine .ok ⟨⟨rfl, by simp [StateMachine.Hashmap.setState]⟩, ?_⟩
        have hputs : {k | ∃ v, (Except.ok kv : Except String (K × V)) = .ok (k, v)} = {kv.1} := by
          ext k
          constructor
          · rintro ⟨v, hv⟩
            cases hv
            rfl
          · rintro rfl
            exact ⟨kv.2, rfl⟩
        rw [hputs]
        exact mapKeys_insert entries kv.1 kv.2
  decode := by
    rintro ⟨state, f⟩ snapshot buf ⟨rfl, hstate⟩ hproper hmarshal
    obtain ⟨target, rfl⟩ := Option.ne_none_iff_exists'.mp hstate
    obtain ⟨source, rfl⟩ := Option.ne_none_iff_exists'.mp hproper
    simp only [StateMachine.Hashmap.interface, StateMachine.Interface.ofCodec,
      hcodec source buf hmarshal target, keysRead_of_ok hmarshal]
    exact ⟨⟨rfl, by simp [StateMachine.Hashmap.setState]⟩, mapKeys_union _ target⟩
  skipped := fun _ _ => keysRead_of_error

theorem set_keyed {codec : Codec (NilableMap K Unit)}
    {read : Bytes → Finmap fun _ : K => Unit} (hcodec : NilableMap.Merges codec read) :
    Keyed (StateMachine.Set.interface codec) codec (fun m => m.state ≠ none) (· ≠ none)
      (fun entry => {entry}) (keysRead codec read) mapKeys where
  execute := by
    rintro ⟨state⟩ entry hstate
    obtain ⟨entries, rfl⟩ := Option.ne_none_iff_exists'.mp hstate
    exact .ok ⟨by simp [StateMachine.Set.setState], mapKeys_insert entries entry ()⟩
  decode := by
    rintro ⟨state⟩ snapshot buf hstate hproper hmarshal
    obtain ⟨target, rfl⟩ := Option.ne_none_iff_exists'.mp hstate
    obtain ⟨source, rfl⟩ := Option.ne_none_iff_exists'.mp hproper
    simp only [StateMachine.Set.interface, StateMachine.Interface.ofCodec,
      hcodec source buf hmarshal target, keysRead_of_ok hmarshal]
    exact ⟨by simp [StateMachine.Set.setState], mapKeys_union _ target⟩
  skipped := fun _ _ => keysRead_of_error

end Machines

/-! ## What the loop adds -/

section Added

/-- The keys that an event adds: all of the commands', and those of the last snapshot. -/
def added (puts : T → Set K) (brings : U → Set K) : Event T U → Set K
  | .commands entries => {k | ∃ entry ∈ entries, k ∈ puts entry}
  | .snapshots snapshots => {k | ∃ last ∈ snapshots.getLast?, k ∈ brings last}

def Event.Proper (Proper : U → Prop) : Event T U → Prop
  | .commands _ => True
  | .snapshots taken => ∀ snapshot ∈ taken, Proper snapshot

variable {stm : StateMachine.Interface σ T U} {codec : Codec U} {Good : σ → Prop}
  {Proper : U → Prop} {puts : T → Set K} {brings keys : U → Set K}

theorem Keyed.executeEntries (h : Keyed stm codec Good Proper puts brings keys) {m : σ}
    (hgood : Good m) (entries : List T) :
    Returns (executeEntries stm m entries) fun next => Good next ∧
      keys (stm.state next) = keys (stm.state m) ∪ added puts brings (.commands entries) := by
  induction entries generalizing m with
  | nil => exact .ok ⟨hgood, by simp [added]⟩
  | cons entry entries ih =>
      obtain ⟨⟨middle, err⟩, hexecute, hmiddle, hkeys⟩ := h.execute m entry hgood
      obtain ⟨next, hrest, hnext, hkeys'⟩ := ih hmiddle
      refine ⟨next, ?_, hnext, ?_⟩
      · rw [Dvds.executeEntries, List.foldlM_cons, hexecute]
        exact hrest
      · rw [hkeys', hkeys, Set.union_assoc]
        congr 1
        ext k
        simp [added]

theorem Keyed.step (h : Keyed stm codec Good Proper puts brings keys) {m : σ} (hgood : Good m)
    {event : Event T U} (hproper : event.Proper Proper) :
    Returns (Dvds.step stm codec m event) fun result => Good result.1 ∧
      keys (stm.state result.1) = keys (stm.state m) ∪ added puts brings event ∧
      ∀ state ∈ result.2, state = stm.state result.1 := by
  cases event with
  | commands entries =>
      obtain ⟨next, hexecute, hnext, hkeys⟩ := h.executeEntries hgood entries
      refine ⟨(next, [stm.state next]), ?_, hnext, hkeys, by simp⟩
      rw [Dvds.step, hexecute]
      rfl
  | snapshots snapshots =>
      cases hlast : snapshots.getLast? with
      | none =>
          refine ⟨(m, []), by rw [Dvds.step, hlast], hgood, ?_, by simp⟩
          simp [added, hlast]
      | some last =>
          cases hmarshal : codec.marshal last with
          | error err =>
              refine ⟨(m, []), by simp only [Dvds.step, hlast, applySnapshot, hmarshal],
                hgood, ?_, by simp⟩
              simp [added, hlast, h.skipped last err hmarshal]
          | ok buf =>
              obtain ⟨hnext, hkeys⟩ :=
                h.decode m last buf hgood (hproper last (List.mem_of_getLast? hlast)) hmarshal
              refine ⟨((stm.decode m buf).1, [stm.state (stm.decode m buf).1]), ?_, hnext, ?_,
                by simp⟩
              · simp only [Dvds.step, hlast, applySnapshot, hmarshal]
              · rw [hkeys]
                simp [added, hlast]

/-- The states that a run shows have more and more keys. -/
theorem Keyed.run (h : Keyed stm codec Good Proper puts brings keys) {m : σ} (hgood : Good m)
    (events : List (Event T U)) (hproper : ∀ event ∈ events, event.Proper Proper) :
    Returns (Dvds.run stm codec m events) fun result => Good result.1 ∧
      keys (stm.state result.1) =
        keys (stm.state m) ∪ {k | ∃ event ∈ events, k ∈ added puts brings event} ∧
      (∀ state ∈ result.2, keys (stm.state m) ⊆ keys state) ∧
      result.2.Pairwise fun state later => keys state ⊆ keys later := by
  induction events generalizing m with
  | nil => exact .ok ⟨hgood, by simp, by simp, .nil⟩
  | cons event events ih =>
      obtain ⟨⟨middle, now⟩, hstep, hmiddle, hkeys, hnow⟩ :=
        h.step hgood (hproper event (by simp))
      obtain ⟨⟨next, later⟩, hrun, hnext, hkeys', hbelow, hpairwise⟩ :=
        ih hmiddle fun event hevent => hproper event (List.mem_cons_of_mem _ hevent)
      have hmore : keys (stm.state m) ⊆ keys (stm.state middle) := by
        rw [hkeys]
        exact Set.subset_union_left
      refine ⟨(next, now ++ later), ?_, hnext, ?_, ?_, ?_⟩
      · exact run_cons_eq_ok.mpr ⟨middle, now, later, hstep, hrun, rfl⟩
      · rw [hkeys', hkeys, Set.union_assoc]
        congr 1
        ext k
        simp
      · intro state hstate
        rcases List.mem_append.mp hstate with hstate | hstate
        · rw [hnow state hstate]
          exact hmore
        · exact hmore.trans (hbelow state hstate)
      · rw [List.pairwise_append]
        refine ⟨?_, hpairwise, ?_⟩
        · refine List.pairwise_of_forall_mem_list ?_
          intro state hstate state' hstate'
          rw [hnow state hstate, hnow state' hstate']
        · intro state hstate state' hstate'
          rw [hnow state hstate]
          exact hbelow state' hstate'

end Added

/-! ## Replicas -/

namespace Replica

variable {stm : StateMachine.Interface σ T U} {codec : Codec U} {Good : σ → Prop}
  {Proper : U → Prop} {puts : T → Set K} {brings keys : U → Set K} {initial : σ}
  {s : State σ T U} {out : List (Output T U)}

/-- What the loop has handled or has in hand was proposed. -/
theorem Sound.proper (h : Sound stm codec initial s out)
    (hproper : ∀ snapshot ∈ Watched.proposed (snapOut out), Proper snapshot) :
    ∀ event ∈ applied out ++ s.loop.inHand, event.Proper Proper := by
  intro event hevent
  cases event with
  | commands entries => trivial
  | snapshots taken =>
      have hmem : taken ∈ snapshotsOf (applied out ++ s.loop.inHand) :=
        List.mem_filterMap.mpr ⟨_, hevent, rfl⟩
      obtain ⟨snapshot, hsnapshot, rfl⟩ :=
        List.mem_map.mp (h.snapshots_sublist.subset hmem)
      intro snapshot' hsnapshot'
      rw [List.mem_singleton.mp hsnapshot']
      exact hproper snapshot hsnapshot

theorem Sound.keyed (h : Sound stm codec initial s out)
    (hkeyed : Keyed stm codec Good Proper puts brings keys) (hinitial : Good initial)
    (hproper : ∀ snapshot ∈ Watched.proposed (snapOut out), Proper snapshot) :
    Good s.stateMachine ∧
      keys (stm.state s.stateMachine) =
        keys (stm.state initial) ∪ {k | ∃ event ∈ applied out, k ∈ added puts brings event} ∧
      (shown s out).Pairwise fun state later => keys state ⊆ keys later := by
  have hevents : ∀ event ∈ applied out, event.Proper Proper :=
    fun event hevent => h.proper hproper event (List.mem_append_left _ hevent)
  obtain ⟨hgood, hkeys, -, hpairwise⟩ :=
    (hkeyed.run hinitial (applied out) hevents).of_eq_ok h.replayed
  exact ⟨hgood, hkeys, hpairwise⟩

/-- A key that an event has added comes from a proposal. -/
theorem Sound.added_subset (h : Sound stm codec initial s out) :
    {k | ∃ event ∈ applied out, k ∈ added puts brings event} ⊆
      {k | ∃ proposal ∈ Watched.proposed (cmdOut out), k ∈ puts proposal} ∪
        {k | ∃ snapshot ∈ Watched.proposed (snapOut out), k ∈ brings snapshot} := by
  rintro k ⟨event, hevent, hk⟩
  cases event with
  | commands entries =>
      obtain ⟨entry, hentry, hk⟩ := hk
      have hmem : entries ∈ commandsOf (applied out) :=
        List.mem_filterMap.mpr ⟨_, hevent, rfl⟩
      obtain ⟨proposal, hproposal, rfl⟩ := List.mem_map.mp (h.commands_sublist.subset hmem)
      rw [List.mem_singleton.mp hentry] at hk
      exact Or.inl ⟨proposal, hproposal, hk⟩
  | snapshots taken =>
      obtain ⟨last, hlast, hk⟩ := hk
      have hmem : taken ∈ snapshotsOf (applied out ++ s.loop.inHand) :=
        List.mem_filterMap.mpr ⟨_, List.mem_append_left _ hevent, rfl⟩
      obtain ⟨snapshot, hsnapshot, rfl⟩ :=
        List.mem_map.mp (h.snapshots_sublist.subset hmem)
      cases hlast
      exact Or.inr ⟨snapshot, hsnapshot, hk⟩

/--
Between any two moments of a run the replica of a map or a set whose initial state
is not nil loses no key, and no watcher sees one disappear, as long as no nil snapshot
is proposed.  Every key is one of the initial state, of a proposal or one that is read
from the encoding of a proposed snapshot.
-/
theorem keys_only_grow (hkeyed : Keyed stm codec Good Proper puts brings keys)
    (hinitial : Good initial) (cmdOptions snapshotOptions : Watched.Options)
    (channelBufferSize : Nat) (dispatchFunc : DispatchFunc)
    (first second : List (Event T U)) (middle last : State σ T U)
    (now later : List (Output T U))
    (hproper : ∀ snapshot ∈ (first ++ second).filterMap Event.snapshot?, Proper snapshot)
    (hfirst : Foundation.run (step stm codec)
      (start initial cmdOptions snapshotOptions channelBufferSize dispatchFunc) first =
        .ok (middle, now))
    (hsecond : Foundation.run (step stm codec) middle second = .ok (last, later)) :
    keys (stm.state middle.stateMachine) ⊆ keys (stm.state last.stateMachine) ∧
    keys (stm.state last.stateMachine) ⊆ keys (stm.state initial) ∪
      ({k | ∃ proposal ∈ (first ++ second).filterMap Event.proposal?, k ∈ puts proposal} ∪
        {k | ∃ snapshot ∈ (first ++ second).filterMap Event.snapshot?,
          k ∈ brings snapshot}) ∧
    ∀ id, (WatcherMux.receivedBy id (muxOut (now ++ later))).Pairwise
      fun state after => keys state ⊆ keys after := by
  have hrun := run_append_eq_ok.mpr ⟨middle, now, later, hfirst, hsecond, rfl⟩
  have hmiddle := sound_run hfirst
  have hlast := sound_run hrun
  rw [← proposed_snapOut hrun] at hproper
  have hbefore : ∀ snapshot ∈ Watched.proposed (snapOut now), Proper snapshot := by
    intro snapshot hsnapshot
    refine hproper snapshot ?_
    rw [snapOut_append, Watched.proposed_append]
    exact List.mem_append_left _ hsnapshot
  obtain ⟨-, hkeys, -⟩ := hmiddle.keyed hkeyed hinitial hbefore
  obtain ⟨-, hkeys', hpairwise⟩ := hlast.keyed hkeyed hinitial hproper
  refine ⟨?_, ?_, ?_⟩
  · rw [hkeys, hkeys']
    refine Set.union_subset_union_right _ ?_
    rintro k ⟨event, hevent, hk⟩
    refine ⟨event, ?_, hk⟩
    rw [applied, List.filterMap_append]
    exact List.mem_append_left _ hevent
  · rw [hkeys', ← proposed_cmdOut hrun, ← proposed_snapOut hrun]
    exact Set.union_subset_union_right _ hlast.added_subset
  · exact fun id => hpairwise.sublist (hlast.receivedBy_sublist id)

/-- A set of the keys 0 and 1. -/
def boolSet (zero one : Bool) : Finmap fun _ : Bool => Unit :=
  let entries : Finmap fun _ : Bool => Unit := if one then .insert true () ∅ else ∅
  if zero then entries.insert false () else entries

/-- As JSON: an object with a member `"0":{}` or `"1":{}` for each key. -/
def boolSetText (zero one : Bool) : Bytes :=
  bracketed 0x7b 0x7d ((if zero then [[0x22, 0x30, 0x22, 0x3a, 0x7b, 0x7d]] else []) ++
    if one then [[0x22, 0x31, 0x22, 0x3a, 0x7b, 0x7d]] else [])

def readBoolSet (buf : Bytes) : Finmap fun _ : Bool => Unit :=
  boolSet (decide (buf = boolSetText true false ∨ buf = boolSetText true true))
    (decide (buf = boolSetText false true ∨ buf = boolSetText true true))

def boolSetCodec : Codec (NilableMap Bool Unit) where
  marshal
    | none => .ok nullText
    | some source => .ok (boolSetText (decide (false ∈ source)) (decide (true ∈ source)))
  unmarshal buf target :=
    if buf = nullText then (none, none)
    else (some (readBoolSet buf ∪ target.entries), none)

theorem boolSetCodec_merges : NilableMap.Merges boolSetCodec readBoolSet := by
  rintro source buf ⟨⟩ target
  have hnot : ∀ zero one, boolSetText zero one ≠ nullText := by decide
  simp only [boolSetCodec, if_neg (hnot _ _)]
  rfl

def emptySet : StateMachine.Set Bool := ⟨some ∅⟩

def exampleStart : State (StateMachine.Set Bool) Bool (NilableMap Bool Unit) :=
  start emptySet ⟨"cmd", 4, 1, .nonBlocking⟩ ⟨"snapshots", 4, 1, .nonBlocking⟩ 1 .nonBlocking

/-- The loop handles what it has taken, and the watcher receives the state. -/
def handleEvents : List (Event Bool (NilableMap Bool Unit)) :=
  [.handle, .watcherMux (.snapshot [0]), .watcherMux (.select .send), .watcherMux .dispatched,
    .watcherMux (.receive 0)]

def putEvents (key : Bool) : List (Event Bool (NilableMap Bool Unit)) :=
  (deliverEvents (proposalEntry key 0)).map .cmdWAL ++ handleEvents

def snapshotEvents (snapshot : NilableMap Bool Unit) :
    List (Event Bool (NilableMap Bool Unit)) :=
  (deliverEvents (proposalEntry snapshot 0)).map .snapshotWAL ++ handleEvents

def watchEvents : List (Event Bool (NilableMap Bool Unit)) :=
  [.watcherMux (.watch none), .watchCmd, .watchSnap]

theorem keys_only_grow_put_and_snapshot :
    ∃ middle last now later,
      Foundation.run (step (StateMachine.Set.interface boolSetCodec) boolSetCodec) exampleStart
        (watchEvents ++ putEvents true) = .ok (middle, now) ∧
      Foundation.run (step (StateMachine.Set.interface boolSetCodec) boolSetCodec) middle
        (snapshotEvents (some (boolSet true false))) = .ok (last, later) ∧
      middle.stateMachine.state = some (boolSet false true) ∧
      last.stateMachine.state = some (boolSet true true) ∧
      WatcherMux.receivedBy 0 (muxOut (now ++ later)) =
        [some (boolSet false true), some (boolSet true true)] ∧
      (WatcherMux.receivedBy 0 (muxOut (now ++ later))).Pairwise
        fun state after => mapKeys state ⊆ mapKeys after := by
  have hfirst : (Foundation.run (step (StateMachine.Set.interface boolSetCodec) boolSetCodec)
      exampleStart (watchEvents ++ putEvents true)).toOption.map
        (fun result => result.1.stateMachine.state) = some (some (boolSet false true)) := by
    decide +kernel
  obtain ⟨⟨middle, now⟩, hmiddle, hstate⟩ := returns_of_toOption hfirst
  have hboth : (Foundation.run (step (StateMachine.Set.interface boolSetCodec) boolSetCodec)
      exampleStart ((watchEvents ++ putEvents true) ++ snapshotEvents (some (boolSet true false)))
        ).toOption.map (fun result => (result.1.stateMachine.state,
          WatcherMux.receivedBy 0 (muxOut result.2))) =
        some (some (boolSet true true), [some (boolSet false true), some (boolSet true true)]) := by
    decide +kernel
  obtain ⟨⟨last, out⟩, hrun, hresult⟩ := returns_of_toOption hboth
  obtain ⟨hstate', hreceived⟩ := Prod.mk.inj hresult
  obtain ⟨middle', now', later, hmiddle', hlater, rfl⟩ := run_append_eq_ok.mp hrun
  rw [hmiddle] at hmiddle'
  cases hmiddle'
  have hproper : ∀ snapshot ∈ ((watchEvents ++ putEvents true) ++
      snapshotEvents (some (boolSet true false))).filterMap Event.snapshot?, snapshot ≠ none := by
    decide
  exact ⟨middle, last, now, later, hmiddle, hlater, hstate, hstate', hreceived,
    (keys_only_grow (set_keyed boolSetCodec_merges) (show emptySet.state ≠ none by decide)
      _ _ _ _ _ _ middle last now later hproper hmiddle hlater).2.2 0⟩

/-! ## Panics of the loop -/

theorem Loop.take_eq_error {loop : Loop T U} {watcherMux : Producer U}
    {taken : List (Dvds.Event T U)} {stop : Stop}
    (h : loop.take watcherMux taken = .error stop) : stop = .blocked := by
  unfold Loop.take at h
  split at h
  · cases h
  · split at h <;> cases h
    rfl
  · cases h
    rfl

/-- What a step that fails comes to. -/
inductive Fails (stm : StateMachine.Interface σ T U) (codec : Codec U) (s : State σ T U) :
    Event T U → Stop → Prop
  | blocked (event : Event T U) : Fails stm codec s event .blocked
  | wal (event : Event T U) (stop : Watched.Stop) : Fails stm codec s event (.wal stop)
  | panicked (inHand : Dvds.Event T U) (panic : StateMachine.Panic)
      (hloop : s.loop = .received inHand)
      (hpanic : Dvds.step stm codec s.stateMachine inHand = .error panic) :
      Fails stm codec s .handle (.panicked panic)
  | mux (event : Producer.Event U) (stop : WatcherMux.Stop)
      (hmux : s.watcherMux.step event = .error stop) :
      Fails stm codec s (.watcherMux event) (.mux stop)

theorem fails_of_cmdStep {event : Watched.Event T} {stop : Stop}
    (hstep : s.cmdStep event = .error stop) (event' : Event T U) :
    Fails stm codec s event' stop := by
  rcases bind_eq_error.mp hstep with hwal | ⟨⟨cmdWAL, now⟩, -, hrest⟩
  · obtain ⟨stop', -, rfl⟩ := mapError_eq_error.mp hwal
    exact .wal _ _
  · rcases bind_eq_error.mp hrest with htake | ⟨loop, -, hnext⟩
    · rw [Loop.take_eq_error htake]
      exact .blocked _
    · cases hnext

theorem fails_of_snapStep {event : Watched.Event U} {stop : Stop}
    (hstep : s.snapStep event = .error stop) (event' : Event T U) :
    Fails stm codec s event' stop := by
  rcases bind_eq_error.mp hstep with hwal | ⟨⟨snapshotWAL, now⟩, -, hrest⟩
  · obtain ⟨stop', -, rfl⟩ := mapError_eq_error.mp hwal
    exact .wal _ _
  · rcases bind_eq_error.mp hrest with htake | ⟨loop, -, hnext⟩
    · rw [Loop.take_eq_error htake]
      exact .blocked _
    · cases hnext

theorem fails_of_step {event : Event T U} {stop : Stop}
    (hstep : step stm codec s event = .error stop) : Fails stm codec s event stop := by
  cases event with
  | propose proposal time => exact fails_of_cmdStep hstep _
  | cmdWAL event => exact fails_of_cmdStep hstep _
  | snapshotWAL event => exact fails_of_snapStep hstep _
  | watchCmd | cmdCancel =>
      simp only [step] at hstep
      split at hstep
      · rcases bind_eq_error.mp hstep with hcmd | ⟨⟨next, now⟩, -, hnext⟩
        · exact fails_of_cmdStep hcmd _
        · cases hnext
      · cases hstep
        exact .blocked _
  | watchSnap | snapCancel =>
      simp only [step] at hstep
      split at hstep
      · rcases bind_eq_error.mp hstep with hsnap | ⟨⟨next, now⟩, -, hnext⟩
        · exact fails_of_snapStep hsnap _
        · cases hnext
      · cases hstep
        exact .blocked _
  | handle =>
      simp only [step] at hstep
      split at hstep
      · rename_i inHand hloop
        rcases bind_eq_error.mp hstep with hhandle | ⟨⟨stateMachine, shown⟩, -, hnext⟩
        · obtain ⟨panic, hpanic, rfl⟩ := mapError_eq_error.mp hhandle
          exact .panicked inHand panic hloop hpanic
        · cases hnext
      · cases hstep
        exact .blocked _
  | terminate =>
      simp only [step] at hstep
      split at hstep <;> cases hstep <;> exact .blocked _
  | terminated | cmdClosed | snapClosed =>
      simp only [step, State.leave] at hstep
      split at hstep <;> cases hstep
      exact .blocked _
  | watcherMux event =>
      rcases bind_eq_error.mp hstep with hmux | ⟨⟨watcherMux, now⟩, -, hnext⟩
      · obtain ⟨stop', hmux', rfl⟩ := mapError_eq_error.mp hmux
        exact .mux event stop' hmux'
      · cases hnext

theorem watcherMux_cmdStep {event : Watched.Event T} {next : State σ T U}
    {now : List (Output T U)} (hstep : s.cmdStep event = .ok (next, now)) :
    next.watcherMux = s.watcherMux := by
  simp only [State.cmdStep, bind_eq_ok, Prod.exists] at hstep
  obtain ⟨cmdWAL, now, -, loop, -, hnext⟩ := hstep
  cases hnext
  rfl

theorem watcherMux_snapStep {event : Watched.Event U} {next : State σ T U}
    {now : List (Output T U)} (hstep : s.snapStep event = .ok (next, now)) :
    next.watcherMux = s.watcherMux := by
  simp only [State.snapStep, bind_eq_ok, Prod.exists] at hstep
  obtain ⟨snapshotWAL, now, -, loop, -, hnext⟩ := hstep
  cases hnext
  rfl

/-- Only the steps of the multiplexer change its watchers. -/
theorem watcherMux_of_step {event : Event T U} {next : State σ T U}
    {now : List (Output T U)} (hstep : step stm codec s event = .ok (next, now)) :
    next.watcherMux = s.watcherMux ∨
      (s.loop.pastSelect = true ∧
        ∃ producing, next.watcherMux = { s.watcherMux with producing := producing }) ∨
      ∃ e now', event = .watcherMux e ∧ s.watcherMux.step e = .ok (next.watcherMux, now') := by
  cases event with
  | propose proposal time => exact Or.inl (watcherMux_cmdStep hstep)
  | cmdWAL event => exact Or.inl (watcherMux_cmdStep hstep)
  | snapshotWAL event => exact Or.inl (watcherMux_snapStep hstep)
  | watchCmd =>
      simp only [step] at hstep
      split at hstep
      · simp only [bind_eq_ok, Prod.exists] at hstep
        obtain ⟨middle, outputs, hwatch, hnext⟩ := hstep
        cases hnext
        exact Or.inl (watcherMux_cmdStep hwatch : middle.watcherMux = s.watcherMux)
      · cases hstep
  | watchSnap =>
      simp only [step] at hstep
      split at hstep
      · simp only [bind_eq_ok, Prod.exists] at hstep
        obtain ⟨middle, outputs, hwatch, hnext⟩ := hstep
        cases hnext
        exact Or.inl (watcherMux_snapStep hwatch : middle.watcherMux = s.watcherMux)
      · cases hstep
  | handle =>
      simp only [step] at hstep
      split at hstep
      · rename_i inHand hloop
        simp only [bind_eq_ok, Prod.exists] at hstep
        obtain ⟨stateMachine, outputs, -, hnext⟩ := hstep
        cases hnext
        exact Or.inr (Or.inl ⟨by rw [hloop]; rfl, _, rfl⟩)
      · cases hstep
  | terminate =>
      simp only [step] at hstep
      split at hstep <;> cases hstep
      exact Or.inl rfl
  | terminated | cmdClosed | snapClosed =>
      simp only [step, State.leave] at hstep
      split at hstep <;> cases hstep
      exact Or.inl rfl
  | cmdCancel =>
      simp only [step] at hstep
      split at hstep
      · simp only [bind_eq_ok, Prod.exists] at hstep
        obtain ⟨middle, outputs, hcancel, hnext⟩ := hstep
        cases hnext
        exact Or.inl (watcherMux_cmdStep hcancel : middle.watcherMux = s.watcherMux)
      · cases hstep
  | snapCancel =>
      simp only [step] at hstep
      split at hstep
      · rename_i id hloop hch
        simp only [bind_eq_ok, Prod.exists] at hstep
        obtain ⟨middle, outputs, -, hnext⟩ := hstep
        cases hnext
        exact Or.inr (Or.inl ⟨by rw [hloop]; rfl, _, rfl⟩)
      · cases hstep
  | watcherMux event =>
      simp only [step, bind_eq_ok, mapError_eq_ok, Prod.exists] at hstep
      obtain ⟨watcherMux, outputs, hmux, hnext⟩ := hstep
      cases hnext
      exact Or.inr (Or.inr ⟨event, outputs, rfl, hmux⟩)

/-- The loop does not panic in its machine while it is given proper snapshots only. -/
theorem Sound.step_ne_panicked (h : Sound stm codec initial s out)
    (hkeyed : Keyed stm codec Good Proper puts brings keys) (hinitial : Good initial)
    (hproper : ∀ snapshot ∈ Watched.proposed (snapOut out), Proper snapshot)
    (event : Event T U) (panic : StateMachine.Panic) :
    step stm codec s event ≠ .error (.panicked panic) := by
  intro hstep
  cases fails_of_step hstep with
  | panicked inHand panic hloop hpanic =>
      have hevent : inHand.Proper Proper := by
        refine h.proper hproper inHand (List.mem_append_right _ ?_)
        rw [hloop]
        exact List.mem_singleton.mpr rfl
      obtain ⟨result, hresult, -⟩ := hkeyed.step (h.keyed hkeyed hinitial hproper).1 hevent
      rw [hresult] at hpanic
      cases hpanic

/-- No watcher is cancelled while the loop's dispatch to it is under way. -/
def NotCancelled (s : State σ T U) (_ : List (Output T U)) : Event T U → Prop
  | .watcherMux event => s.watcherMux.NotCancelledUnderDispatch event
  | _ => True

/-- Nor does it come to a closed channel while nobody is cancelled under a dispatch. -/
theorem Sound.step_open (h : Sound stm codec initial s out) (hopen : s.watcherMux.Open)
    {event : Event T U} (hcond : NotCancelled s out event) :
    step stm codec s event ≠ .error (.mux .sendOnClosedChannel) ∧
      ∀ next now, step stm codec s event = .ok (next, now) → next.watcherMux.Open := by
  constructor
  · intro hstep
    cases fails_of_step hstep with
    | mux event stop hmux =>
        exact (Producer.open_step h.watcherMux hopen hcond).1 _ hmux rfl
  · intro next now hstep
    rcases watcherMux_of_step hstep with
      hsame | ⟨hpast, producing, hproducing⟩ | ⟨e, now', rfl, hmux⟩
    · rwa [hsame]
    · rw [hproducing]
      exact hopen.setProducing (h.outside hpast) producing
    · exact (Producer.open_step h.watcherMux hopen hcond).2 _ _ hmux

/-- A step that proposes no improper snapshot and cancels nobody under a dispatch. -/
def Orderly (Proper : U → Prop) (s : State σ T U) (out : List (Output T U))
    (event : Event T U) : Prop :=
  (∀ snapshot, event.snapshot? = some snapshot → Proper snapshot) ∧ NotCancelled s out event

theorem along_orderly {first : State σ T U} {events : List (Event T U)}
    (hproper : ∀ snapshot ∈ events.filterMap Event.snapshot?, Proper snapshot)
    (hcancel : ∀ before id rest middle now, events = before ++ .watcherMux (.cancel id) :: rest →
      Foundation.run (step stm codec) first before = .ok (middle, now) →
      ¬middle.watcherMux.mux.Awaited id) :
    Along (step stm codec) (Orderly Proper) first [] events := by
  by_contra hfails
  obtain ⟨before, event, rest, middle, now, rfl, hbefore, -, hcond⟩ :=
    Along.exists_failure hfails
  apply hcond
  constructor
  · intro snapshot hsnapshot
    exact hproper snapshot (List.mem_filterMap.mpr ⟨event, by simp, hsnapshot⟩)
  · cases event with
    | watcherMux event =>
        cases event with
        | cancel id => exact hcancel before id rest middle now rfl hbefore
        | _ => trivial
    | _ => trivial

/-- The panics of an iteration: in the machine, and in the dispatch. -/
def Stop.ofIteration : Stop → Bool
  | .panicked _ | .mux .sendOnClosedChannel => true
  | .blocked | .wal _ | .mux .blocked | .mux .closeOfClosedChannel => false

/--
An iteration of the loop of a map or a set whose initial state is not nil panics only
if a nil snapshot was proposed, or if a watcher was cancelled between the snapshot of
a dispatch and the dispatch's select for that watcher.
-/
theorem iteration_panics_only (hkeyed : Keyed stm codec Good Proper puts brings keys)
    (hinitial : Good initial) (cmdOptions snapshotOptions : Watched.Options)
    (channelBufferSize : Nat) (dispatchFunc : DispatchFunc) (events : List (Event T U))
    (stop : Stop) (hpanic : stop.ofIteration = true)
    (hrun : Foundation.run (step stm codec)
      (start initial cmdOptions snapshotOptions channelBufferSize dispatchFunc) events =
        .error stop) :
    (∃ snapshot ∈ events.filterMap Event.snapshot?, ¬Proper snapshot) ∨
      ∃ first id rest middle now, events = first ++ .watcherMux (.cancel id) :: rest ∧
        Foundation.run (step stm codec)
          (start initial cmdOptions snapshotOptions channelBufferSize dispatchFunc) first =
            .ok (middle, now) ∧ middle.watcherMux.mux.Awaited id := by
  by_contra hneither
  obtain ⟨hall, hnever⟩ := not_or.mp hneither
  push Not at hall
  have halong : Along (step stm codec) (Orderly Proper)
      (start initial cmdOptions snapshotOptions channelBufferSize dispatchFunc) [] events :=
    along_orderly hall fun before id rest middle now hevents hbefore hawaited =>
      hnever ⟨before, id, rest, middle, now, hevents, hbefore, hawaited⟩
  suffices hquiet : stop.ofIteration = false by
    rw [hquiet] at hpanic
    cases hpanic
  refine run_errors
    (fun s out => Sound stm codec initial s out ∧ s.watcherMux.Open ∧
      ∀ snapshot ∈ Watched.proposed (snapOut out), Proper snapshot)
    (fun stop => stop.ofIteration = false)
    ⟨sound_start _ _ _ _ _ _ _, Producer.open_new _ _, nofun⟩ ?_ halong hrun
  rintro s out event ⟨h, hopen, hproper⟩ ⟨hsnapshot, hcancel⟩
  constructor
  · intro stop hstop
    cases stop with
    | panicked panic =>
        exact absurd hstop (h.step_ne_panicked hkeyed hinitial hproper event panic)
    | mux stop =>
        cases stop with
        | sendOnClosedChannel => exact absurd hstop (h.step_open hopen hcancel).1
        | blocked | closeOfClosedChannel => rfl
    | blocked | wal => rfl
  · intro next now hstep
    refine ⟨sound_step h hstep, (h.step_open hopen hcancel).2 next now hstep, ?_⟩
    intro snapshot hmem
    rw [snapOut_append, Watched.proposed_append, (proposed_of_step hstep).2,
      List.mem_append, Option.mem_toList] at hmem
    exact hmem.elim (hproper snapshot) (hsnapshot snapshot)

/-- A nil snapshot, then a put. -/
def nilEvents : List (Event Bool (NilableMap Bool Unit)) :=
  watchEvents ++ snapshotEvents none ++ putEvents true

/-- A watcher is cancelled before the select for it. -/
def cancelEvents : List (Event Bool (NilableMap Bool Unit)) :=
  watchEvents ++ (deliverEvents (proposalEntry true 0)).map .cmdWAL ++
    [.handle, .watcherMux (.snapshot [0]), .watcherMux (.cancel 0), .watcherMux (.select .send)]

theorem iteration_panics_only_two_ways :
    Foundation.run (step (StateMachine.Set.interface boolSetCodec) boolSetCodec) exampleStart
        nilEvents = .error (.panicked .assignmentToEntryInNilMap) ∧
      (∃ snapshot ∈ nilEvents.filterMap Event.snapshot?, ¬snapshot ≠ none) ∧
      Foundation.run (step (StateMachine.Set.interface boolSetCodec) boolSetCodec) exampleStart
        cancelEvents = .error (.mux .sendOnClosedChannel) ∧
      ∃ first id rest middle now, cancelEvents = first ++ .watcherMux (.cancel id) :: rest ∧
        Foundation.run (step (StateMachine.Set.interface boolSetCodec) boolSetCodec)
          exampleStart first = .ok (middle, now) ∧ middle.watcherMux.mux.Awaited id := by
  have hnil : Foundation.run (step (StateMachine.Set.interface boolSetCodec) boolSetCodec)
      exampleStart nilEvents = .error (.panicked .assignmentToEntryInNilMap) := by
    rfl
  have hcancel : Foundation.run (step (StateMachine.Set.interface boolSetCodec) boolSetCodec)
      exampleStart cancelEvents = .error (.mux .sendOnClosedChannel) := by
    rfl
  have hinitial : emptySet.state ≠ none := by decide
  refine ⟨hnil, ?_, hcancel, ?_⟩
  · rcases iteration_panics_only (set_keyed boolSetCodec_merges) hinitial _ _ _ _ nilEvents _
      rfl hnil with hsnapshot | ⟨first, id, rest, middle, now, hevents, -⟩
    · exact hsnapshot
    · have hcancelled : .watcherMux (.cancel id) ∈ nilEvents := by
        rw [hevents]
        simp
      simp [nilEvents, watchEvents, snapshotEvents, putEvents, handleEvents,
        deliverEvents] at hcancelled
  · rcases iteration_panics_only (set_keyed boolSetCodec_merges) hinitial _ _ _ _ cancelEvents _
      rfl hcancel with ⟨snapshot, hsnapshot, -⟩ | hcancelled
    · have hnone : cancelEvents.filterMap Event.snapshot? = [] := rfl
      rw [hnone] at hsnapshot
      cases hsnapshot
    · exact hcancelled

end Replica

end Udplb.Dvds
