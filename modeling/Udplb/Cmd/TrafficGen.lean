import Mathlib.Data.Int.CardIntervalMod
import Udplb.Cmd.PacketFormat
import Udplb.Foundation.Tally
import Udplb.Foundation.Trace

/-!
# The traffic generator

At every tick of a ticker the generator writes the packet of one session, taking
the sessions in turn; a write that fails is not counted, but the turn passes.  When
the time is up, or on a signal, it prints how many packets it has sent.

Resolving and dialling the target succeed.  In the report, a session stands under
its id and not under the text of it.  The counters are read as natural numbers: at
most a packet a nanosecond is sent, so they stay far below the largest `int`.
-/

namespace Udplb.Cmd.TrafficGen

open Udplb.Foundation

/-- The ids that `uuid.New` returns one after the other. -/
def freshIDs (fresh : Nat → UUID) (n : Nat) : List UUID := (List.range n).map fresh

def generateSessions (fresh : Nat → UUID) (n : Int64) : Except Panic (List UUID) := do
  let length ← makeslice 16 n
  .ok (freshIDs fresh length)

/-- The packets, in a slice of slice headers. -/
def buildPackets (sessionIDs : List UUID) (payloadSize : Int64) : Except Panic (List Bytes) := do
  let _ ← makeslice 24 (Int64.ofNat sessionIDs.length)
  sessionIDs.mapM (buildPacket · payloadSize)

/-- In nanoseconds.  The quotient of the two floats truncates to that of the integers. -/
def interval (rate : Int64) : Int := 1000000000 / rate.toInt

def newTicker (d : Int) : Except Panic Unit :=
  if d ≤ 0 then .error .nonPositiveInterval else .ok ()

structure Report where
  totalSent : Nat
  sessions : AssocMap UUID Nat

structure State where
  sessionIDs : List UUID
  packets : List Bytes
  report : Report
  idx : Nat
  exited : Bool

inductive Stop where
  | exit1
  | panicked (panic : Panic)
  | indexOutOfRange
  | nilDereference
  | blocked
  deriving DecidableEq, Repr

/-- The flags are checked, the packets are built, and the counts are set to zero. -/
def start (fresh : Nat → UUID) (sessions rate payloadSize : Int64) : Except Stop State :=
  if sessions ≤ 0 then .error .exit1
  else if rate ≤ 0 then .error .exit1
  else do
    let sessionIDs ← (generateSessions fresh sessions).mapError .panicked
    let packets ← (buildPackets sessionIDs payloadSize).mapError .panicked
    let report : Report := ⟨0, sessionIDs.foldl (fun m sid => m.insert sid 0) ∅⟩
    (newTicker (interval rate)).mapError .panicked
    .ok ⟨sessionIDs, packets, report, 0, false⟩

inductive Event where
  | tick (writeFails : Bool)
  | timer
  | signal
  deriving DecidableEq, Repr

inductive Output where
  | attempted (sessionIdx : Nat) (sid : UUID) (packet : Bytes) (sent : Bool)
  | reported (report : Report)

/-- A packet that was written is counted under its session. -/
def Report.count (report : Report) (sid : UUID) (sent : Bool) : Except Stop Report :=
  if sent then
    match report.sessions.lookup sid with
    | none => .error .nilDereference
    | some count => .ok ⟨report.totalSent + 1, report.sessions.insert sid (count + 1)⟩
  else .ok report

def step (s : State) : Event → Except Stop (State × List Output)
  | .tick writeFails =>
      if s.exited then .error .blocked
      else
        let sessionIdx := s.idx % s.sessionIDs.length
        match s.packets[sessionIdx]?, s.sessionIDs[sessionIdx]? with
        | some packet, some sid => do
            let report ← s.report.count sid !writeFails
            .ok ({ s with report := report, idx := s.idx + 1 },
              [.attempted sessionIdx sid packet !writeFails])
        | _, _ => .error .indexOutOfRange
  | .timer | .signal =>
      if s.exited then .error .blocked
      else .ok ({ s with exited := true }, [.reported s.report])

/-! ## What was sent -/

/-- The sessions of the packets that were written, in order. -/
def sent (out : List Output) : List UUID :=
  out.filterMap fun
    | .attempted _ sid _ true => some sid
    | .attempted _ _ _ false | .reported _ => none

/-- The packets that were written. -/
def written (out : List Output) : List Bytes :=
  out.filterMap fun
    | .attempted _ _ packet true => some packet
    | .attempted _ _ _ false | .reported _ => none

/-- The positions of the sessions whose turn it was. -/
def turns (out : List Output) : List Nat :=
  out.filterMap fun
    | .attempted sessionIdx _ _ _ => some sessionIdx
    | .reported _ => none

@[simp] theorem sent_append (first second : List Output) :
    sent (first ++ second) = sent first ++ sent second :=
  List.filterMap_append

@[simp] theorem written_append (first second : List Output) :
    written (first ++ second) = written first ++ written second :=
  List.filterMap_append

@[simp] theorem turns_append (first second : List Output) :
    turns (first ++ second) = turns first ++ turns second :=
  List.filterMap_append

/-- A report is true of a sequence of packets sent for given sessions. -/
structure Report.TrueOf (report : Report) (sessionIDs sent : List UUID) : Prop where
  total : report.totalSent = sent.length
  counts : AssocMap.Tallies sessionIDs report.sessions sent

structure Sound (sessionIDs : List UUID) (payloadSize : Nat) (s : State)
    (out : List Output) : Prop where
  sessionIDs_eq : s.sessionIDs = sessionIDs
  packets_eq : s.packets = sessionIDs.map (packetOf payloadSize)
  report : s.report.TrueOf sessionIDs (sent out)
  turns_eq : turns out = (List.range s.idx).map (· % sessionIDs.length)
  written_eq : written out = (sent out).map (packetOf payloadSize)

theorem Report.TrueOf.count {report next : Report} {sessionIDs : List UUID}
    {packets : List UUID} (h : report.TrueOf sessionIDs packets) {sid : UUID} {sent : Bool}
    (hcount : report.count sid sent = .ok next) :
    next.TrueOf sessionIDs (packets ++ if sent then [sid] else []) := by
  unfold Report.count at hcount
  cases sent with
  | false =>
      cases hcount
      simpa using h
  | true =>
      simp only [if_true] at hcount ⊢
      split at hcount <;> cases hcount
      rename_i count hlookup
      refine ⟨by simp [h.total], ?_⟩
      have hbump := h.counts.bump sid
      rwa [AssocMap.bump, AssocMap.tally, hlookup] at hbump

/-- A session that was announced is counted without a panic. -/
theorem Report.TrueOf.exists_count {report : Report} {sessionIDs packets : List UUID}
    (h : report.TrueOf sessionIDs packets) {sid : UUID} (hsid : sid ∈ sessionIDs)
    (sent : Bool) : ∃ next, report.count sid sent = .ok next := by
  unfold Report.count
  cases sent with
  | false => exact ⟨_, rfl⟩
  | true =>
      rw [h.counts sid, if_pos (List.mem_append_left _ hsid)]
      exact ⟨_, rfl⟩

/-! ## Runs -/

theorem mapM_buildPacket {payloadSize : Int64} (h : Buildable payloadSize)
    (sessionIDs : List UUID) :
    sessionIDs.mapM (buildPacket · payloadSize) =
      .ok (sessionIDs.map (packetOf payloadSize.toInt.toNat)) := by
  induction sessionIDs with
  | nil => rfl
  | cons sid sessionIDs ih =>
      rw [List.mapM_cons, ih, buildPacket_eq h]
      rfl

/-- The flags with which the generator starts. -/
structure Startable (sessions rate payloadSize : Int64) : Prop where
  sessions_pos : 0 < sessions.toInt
  sessions_le : 24 * sessions.toInt ≤ maxAlloc
  rate_pos : 0 < rate.toInt
  rate_le : rate.toInt ≤ 1000000000
  payload : Buildable payloadSize

@[simp] theorem length_freshIDs (fresh : Nat → UUID) (n : Nat) :
    (freshIDs fresh n).length = n := by
  simp [freshIDs]

theorem buildPackets_eq {payloadSize : Int64} (h : Buildable payloadSize)
    {sessionIDs : List UUID} (hmax : 24 * sessionIDs.length ≤ maxAlloc) :
    buildPackets sessionIDs payloadSize =
      .ok (sessionIDs.map (packetOf payloadSize.toInt.toNat)) := by
  have hmaxAlloc : maxAlloc = 2 ^ 48 := rfl
  have hlength : (Int64.ofNat sessionIDs.length).toInt = sessionIDs.length :=
    Int64.toInt_ofNat_of_lt (by omega)
  rw [buildPackets, makeslice_eq_ok (by omega) (by omega), ← mapM_buildPacket h]
  rfl

theorem newTicker_interval {rate : Int64} (hpos : 0 < rate.toInt)
    (hle : rate.toInt ≤ 1000000000) : newTicker (interval rate) = .ok () := by
  have hinterval : 1 ≤ interval rate := by
    rw [interval, Int.le_ediv_iff_mul_le hpos]
    omega
  rw [newTicker, if_neg (by omega)]

theorem rate_le_of_newTicker {rate : Int64} (hpos : 0 < rate.toInt)
    (h : newTicker (interval rate) = .ok ()) : rate.toInt ≤ 1000000000 := by
  unfold newTicker at h
  split at h
  · cases h
  · rename_i hinterval
    have hone : 1 ≤ interval rate := by omega
    rw [interval, Int.le_ediv_iff_mul_le hpos] at hone
    omega

theorem start_sound (fresh : Nat → UUID) {sessions rate payloadSize : Int64}
    (h : Startable sessions rate payloadSize) :
    Returns (start fresh sessions rate payloadSize) fun s =>
      Sound (freshIDs fresh sessions.toInt.toNat) payloadSize.toInt.toNat s [] := by
  obtain ⟨hsessions, hmax, hrate, hrate', hpayload⟩ := h
  have hsessions' : ¬sessions ≤ 0 := by
    rw [Int64.le_iff_toInt_le, Int64.toInt_zero]
    omega
  have hrate'' : ¬rate ≤ 0 := by
    rw [Int64.le_iff_toInt_le, Int64.toInt_zero]
    omega
  have hgenerate : generateSessions fresh sessions =
      .ok (freshIDs fresh sessions.toInt.toNat) := by
    rw [generateSessions, makeslice_eq_ok (by omega) (by omega)]
    rfl
  rw [start, if_neg hsessions', if_neg hrate'', hgenerate, newTicker_interval hrate hrate']
  simp only [Except.mapError, bind, Except.bind]
  rw [buildPackets_eq hpayload (by rw [length_freshIDs]; omega)]
  exact .ok ⟨rfl, rfl, ⟨rfl, AssocMap.tallies_announced _⟩, rfl, rfl⟩

/-- It starts with no other flags. -/
theorem startable_of_start {fresh : Nat → UUID} {sessions rate payloadSize : Int64}
    {s : State} (h : start fresh sessions rate payloadSize = .ok s) :
    Startable sessions rate payloadSize := by
  unfold start at h
  split at h
  · cases h
  · rename_i hsessions
    rw [Int64.le_iff_toInt_le, Int64.toInt_zero, Int.not_le] at hsessions
    split at h
    · cases h
    · rename_i hrate
      rw [Int64.le_iff_toInt_le, Int64.toInt_zero, Int.not_le] at hrate
      simp only [bind_eq_ok, mapError_eq_ok, generateSessions, buildPackets] at h
      obtain ⟨sessionIDs, ⟨length, hlength, hsessionIDs⟩, packets, ⟨_, hslice, hpackets⟩,
        _, hticker, -⟩ := h
      cases hsessionIDs
      obtain ⟨hmax, rfl⟩ := of_makeslice_eq_ok hlength
      obtain ⟨hmax', -⟩ := of_makeslice_eq_ok hslice
      have hmaxAlloc : maxAlloc = 2 ^ 48 := rfl
      rw [length_freshIDs, Int64.toInt_ofNat_of_lt (by omega)] at hmax'
      refine ⟨hsessions, by omega, hrate, rate_le_of_newTicker hrate hticker, ?_⟩
      -- there is a session, so a packet was built
      obtain ⟨n, hn⟩ : ∃ n, sessions.toInt.toNat = n + 1 := ⟨sessions.toInt.toNat - 1, by omega⟩
      rw [hn, freshIDs, List.range_succ_eq_map, List.map_cons, List.mapM_cons, bind_eq_ok]
        at hpackets
      obtain ⟨packet, hpacket, -⟩ := hpackets
      exact buildable_of_buildPacket hpacket

/-- What a step that is taken does. -/
inductive Steps (s : State) : State → List Output → Prop
  | attempted (sid : UUID) (packet : Bytes) (sent : Bool) (report : Report)
      (hpacket : s.packets[s.idx % s.sessionIDs.length]? = some packet)
      (hsid : s.sessionIDs[s.idx % s.sessionIDs.length]? = some sid)
      (hcount : s.report.count sid sent = .ok report) :
      Steps s { s with report := report, idx := s.idx + 1 }
        [.attempted (s.idx % s.sessionIDs.length) sid packet sent]
  | exited : Steps s { s with exited := true } [.reported s.report]

theorem steps_of_step {s next : State} {event : Event} {now : List Output}
    (hstep : step s event = .ok (next, now)) : Steps s next now := by
  cases event with
  | tick writeFails =>
      simp only [step] at hstep
      split at hstep
      · cases hstep
      · split at hstep
        · simp only [bind_eq_ok] at hstep
          obtain ⟨report, hcount, hnext⟩ := hstep
          cases hnext
          exact .attempted _ _ _ report (by assumption) (by assumption) hcount
        · cases hstep
  | timer | signal =>
      simp only [step] at hstep
      split at hstep <;> cases hstep
      exact .exited

theorem sound_step {sessionIDs : List UUID} {payloadSize : Nat} {s next : State}
    {out now : List Output} (h : Sound sessionIDs payloadSize s out)
    (hsteps : Steps s next now) : Sound sessionIDs payloadSize next (out ++ now) := by
  cases hsteps with
  | attempted sid packet sent' report hpacket hsid hcount =>
      have hreport := h.report.count hcount
      have hpacket' : packet = packetOf payloadSize sid := by
        rw [h.packets_eq, ← h.sessionIDs_eq, List.getElem?_map, hsid] at hpacket
        exact (Option.some.inj hpacket).symm
      refine ⟨h.sessionIDs_eq, h.packets_eq, ?_, ?_, ?_⟩
      · cases sent' <;> simpa [sent] using hreport
      · rw [turns_append, h.turns_eq, List.range_succ, List.map_append, h.sessionIDs_eq]
        rfl
      · rw [written_append, sent_append, h.written_eq, List.map_append, hpacket']
        cases sent' <;> rfl
  | exited =>
      refine ⟨h.sessionIDs_eq, h.packets_eq, ?_, ?_, ?_⟩
      · simpa [sent] using h.report
      · simpa [turns] using h.turns_eq
      · simpa [written, sent] using h.written_eq

/-- Until it exits, the generator takes every step without a panic. -/
theorem step_returns {sessionIDs : List UUID} {payloadSize : Nat} {s : State}
    {out : List Output} (h : Sound sessionIDs payloadSize s out) (hne : sessionIDs ≠ [])
    (hrunning : s.exited = false) (event : Event) : ∃ result, step s event = .ok result := by
  cases event with
  | tick writeFails =>
      have hlt : s.idx % s.sessionIDs.length < s.sessionIDs.length := by
        rw [h.sessionIDs_eq]
        exact Nat.mod_lt _ (List.length_pos_of_ne_nil hne)
      have hsid := List.getElem?_eq_getElem hlt
      have hpacket : s.packets[s.idx % s.sessionIDs.length]? =
          some (packetOf payloadSize s.sessionIDs[s.idx % s.sessionIDs.length]) := by
        rw [h.packets_eq, ← h.sessionIDs_eq, List.getElem?_map, hsid, Option.map_some]
      have hmem : s.sessionIDs[s.idx % s.sessionIDs.length] ∈ sessionIDs :=
        h.sessionIDs_eq ▸ List.getElem_mem hlt
      obtain ⟨report, hcount⟩ := h.report.exists_count hmem !writeFails
      simp only [step, hrunning, hpacket, hsid, hcount]
      exact ⟨_, rfl⟩
  | timer | signal =>
      simp only [step, hrunning]
      exact ⟨_, rfl⟩

theorem sound_run {sessionIDs : List UUID} {payloadSize : Nat} {s last : State}
    {events : List Event} {out : List Output} (hstart : Sound sessionIDs payloadSize s [])
    (hrun : run step s events = .ok (last, out)) :
    Sound sessionIDs payloadSize last out := by
  refine run_keeps (Sound sessionIDs payloadSize) hstart ?_ hrun
  intro s now event next now' h hstep
  exact sound_step h (steps_of_step hstep)

/-- How often a position comes up in the first turns. -/
theorem count_turns {n i : Nat} (hi : i < n) (idx : Nat) :
    ((List.range idx).map (· % n)).count i = idx / n + if i < idx % n then 1 else 0 := by
  have hcard := Nat.count_modEq_card idx (show 0 < n by omega) i
  rw [Nat.mod_eq_of_lt hi] at hcard
  rw [← hcard, List.count_eq_countP, List.countP_map, Nat.count]
  apply List.countP_congr
  intro k _
  simp [Nat.ModEq, Nat.mod_eq_of_lt hi]

/--
The generator starts exactly with flags that pass its checks, whose slices can be
allocated and whose rate leaves a positive interval; then it does not panic.  At
any moment of a run: what it has written are packets that the echo backend and the
XDP program read as packets of their sessions; each session has had its turn as
often as every other one, up to one turn; and the report is true of what was
written.
-/
theorem sends_in_turn (fresh : Nat → UUID) (sessions rate payloadSize : Int64) :
    ((∃ first, start fresh sessions rate payloadSize = .ok first) ↔
      Startable sessions rate payloadSize) ∧
    ∀ first events last out, start fresh sessions rate payloadSize = .ok first →
      run step first events = .ok (last, out) →
      (last.exited = false → ∀ event, ∃ result, step last event = .ok result) ∧
      (written out).map parsePacket = (sent out).map (·, true) ∧
      (∀ i < sessions.toInt.toNat, (turns out).count i = last.idx / sessions.toInt.toNat +
        if i < last.idx % sessions.toInt.toNat then 1 else 0) ∧
      last.report.TrueOf (freshIDs fresh sessions.toInt.toNat) (sent out) := by
  constructor
  · constructor
    · rintro ⟨first, hfirst⟩
      exact startable_of_start hfirst
    · intro h
      obtain ⟨first, hfirst, -⟩ := start_sound fresh h
      exact ⟨first, hfirst⟩
  · intro first events last out hfirst hrun
    have hstartable := startable_of_start hfirst
    have h := sound_run ((start_sound fresh hstartable).of_eq_ok hfirst) hrun
    have hpos := hstartable.sessions_pos
    refine ⟨step_returns h ?_, ?_, ?_, h.report⟩
    · apply List.ne_nil_of_length_pos
      rw [length_freshIDs]
      omega
    · rw [h.written_eq, List.map_map]
      apply List.map_congr_left
      intro sid _
      exact parsePacket_packetOf _ sid
    · intro i hi
      rw [h.turns_eq, length_freshIDs]
      exact count_turns hi last.idx

/-- The second of three writes fails. -/
theorem sends_in_turn_failed_write :
    Returns (start (fun i => Vector.replicate 16 (UInt8.ofNat i)) 2 100 0) fun first =>
      ∃ last out, run step first [.tick false, .tick true, .tick false, .timer] =
          .ok (last, out) ∧
        turns out = [0, 1, 0] ∧ last.report.totalSent = 2 ∧
        last.report.TrueOf [Vector.replicate 16 0, Vector.replicate 16 1] (sent out) := by
  obtain ⟨hstarts, h⟩ := sends_in_turn (fun i => Vector.replicate 16 (UInt8.ofNat i)) 2 100 0
  obtain ⟨first, hfirst⟩ :=
    hstarts.mpr ⟨by decide, by decide, by decide, by decide, by decide, by decide⟩
  obtain ⟨⟨last, out⟩, hrun, hturns, htotal⟩ :
      Returns (run step first [.tick false, .tick true, .tick false, .timer]) fun result =>
        turns result.2 = [0, 1, 0] ∧ result.1.report.totalSent = 2 := by
    cases hfirst
    exact ⟨_, rfl, by decide, by decide⟩
  exact ⟨first, hfirst, last, out, hrun, hturns, htotal, (h _ _ _ _ hfirst hrun).2.2.2⟩

/-- More than a packet a nanosecond: the ticker has no interval. -/
example (fresh : Nat → UUID) :
    start fresh 1 1000000001 0 = .error (.panicked .nonPositiveInterval) := by
  rfl

end Udplb.Cmd.TrafficGen
