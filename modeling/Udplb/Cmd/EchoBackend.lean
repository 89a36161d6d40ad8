import Udplb.Cmd.PacketFormat
import Udplb.Foundation.Tally
import Udplb.Foundation.Trace

/-!
# The echo backend

One goroutine receives datagrams, counts those it can parse by session and sends
them back; another one prints a report at every tick of a ticker, and the main
goroutine prints a last one on a signal.  The counts are changed and read under a
mutex, so recording a packet and taking a snapshot are single steps; between the
steps of one goroutine the others may take theirs.

Listening succeeds and the report interval is positive.  In a report, a session
stands under its id and not under the text of it.
-/

namespace Udplb.Cmd.EchoBackend

open Udplb.Foundation

structure UDPAddr where
  ip : String
  port : Nat
  deriving DecidableEq, Repr

structure Stats where
  totalReceived : Nat
  sessions : AssocMap UUID Nat
  sourceIPs : AssocMap String Unit

def newStats : Stats := ⟨0, ∅, ∅⟩

def Stats.record (s : Stats) (sessionID : UUID) (sourceAddr : Option UDPAddr) : Stats where
  totalReceived := s.totalReceived + 1
  sessions := s.sessions.bump sessionID
  sourceIPs :=
    match sourceAddr with
    | some addr => s.sourceIPs.insert addr.ip ()
    | none => s.sourceIPs

structure StatsReport where
  totalReceived : Nat
  uniqueSessions : Nat
  sessions : AssocMap UUID Nat

def Stats.snapshot (s : Stats) : StatsReport :=
  ⟨s.totalReceived, AssocMap.size s.sessions, s.sessions⟩

/-- What the receive goroutine does next. -/
inductive Receiver where
  | read
  | record (sid : UUID) (data : Bytes) (remoteAddr : Option UDPAddr)
  | echo (data : Bytes) (remoteAddr : Option UDPAddr)
  | returned

/-- What the report goroutine does next. -/
inductive Reporter where
  | wait
  | print (report : StatsReport)
  | returned

/-- What the main goroutine does next. -/
inductive Main where
  | wait
  | closeConn
  | snapshot
  | print (report : StatsReport)
  | exit
  | exited

def Main.doneClosed : Main → Bool
  | .wait => false
  | .closeConn | .snapshot | .print _ | .exit | .exited => true

def Main.connClosed : Main → Bool
  | .wait | .closeConn => false
  | .snapshot | .print _ | .exit | .exited => true

structure State where
  stats : Stats
  receiver : Receiver
  reporter : Reporter
  main : Main

def start : State := ⟨newStats, .read, .wait, .wait⟩

inductive Event where
  | read (data : Bytes) (remoteAddr : Option UDPAddr)
  | readError
  | record
  | echo (writeFails : Bool)
  | tick
  | reporterPrint
  | reporterDone
  | signal
  | closeConn
  | finalSnapshot
  | finalPrint
  | exit

inductive Output where
  | recorded (sid : UUID)
  | echoed (data : Bytes) (remoteAddr : UDPAddr) (written : Bool)
  | warned
  | reported (report : StatsReport)

inductive Stop where
  | blocked
  deriving DecidableEq, Repr

def receiverStep (s : State) : Event → Except Stop (State × List Output)
  | .read data remoteAddr =>
      match s.receiver with
      | .read =>
          if s.main.connClosed then .error .blocked
          else
            match parsePacket data with
            | (_, false) => .ok (s, [])
            | (sid, true) => .ok ({ s with receiver := .record sid data remoteAddr }, [])
      | .record _ _ _ | .echo _ _ | .returned => .error .blocked
  | .readError =>
      match s.receiver with
      | .read =>
          if s.main.doneClosed then .ok ({ s with receiver := .returned }, [])
          else .ok (s, [.warned])
      | .record _ _ _ | .echo _ _ | .returned => .error .blocked
  | .record =>
      match s.receiver with
      | .record sid data remoteAddr =>
          .ok ({ s with stats := s.stats.record sid remoteAddr,
                        receiver := .echo data remoteAddr }, [.recorded sid])
      | .read | .echo _ _ | .returned => .error .blocked
  | .echo writeFails =>
      match s.receiver with
      | .echo data (some addr) =>
          -- the error is dropped
          .ok ({ s with receiver := .read },
            [.echoed data addr (!writeFails && !s.main.connClosed)])
      | .echo _ none => .ok ({ s with receiver := .read }, [])
      | .read | .record _ _ _ | .returned => .error .blocked
  | _ => .error .blocked

def reporterStep (s : State) : Event → Except Stop (State × List Output)
  | .tick =>
      -- a tick may still win against the closed channel
      match s.reporter with
      | .wait => .ok ({ s with reporter := .print s.stats.snapshot }, [])
      | .print _ | .returned => .error .blocked
  | .reporterPrint =>
      match s.reporter with
      | .print report => .ok ({ s with reporter := .wait }, [.reported report])
      | .wait | .returned => .error .blocked
  | .reporterDone =>
      match s.reporter with
      | .wait =>
          if s.main.doneClosed then .ok ({ s with reporter := .returned }, [])
          else .error .blocked
      | .print _ | .returned => .error .blocked
  | _ => .error .blocked

def mainStep (s : State) : Event → Except Stop (State × List Output)
  | .signal =>
      match s.main with
      | .wait => .ok ({ s with main := .closeConn }, [])
      | _ => .error .blocked
  | .closeConn =>
      match s.main with
      | .closeConn => .ok ({ s with main := .snapshot }, [])
      | _ => .error .blocked
  | .finalSnapshot =>
      match s.main with
      | .snapshot => .ok ({ s with main := .print s.stats.snapshot }, [])
      | _ => .error .blocked
  | .finalPrint =>
      match s.main with
      | .print report => .ok ({ s with main := .exit }, [.reported report])
      | _ => .error .blocked
  | .exit =>
      match s.main with
      | .exit => .ok ({ s with main := .exited }, [])
      | _ => .error .blocked
  | _ => .error .blocked

/-- Nothing runs on after the main goroutine. -/
def step (s : State) (event : Event) : Except Stop (State × List Output) :=
  match s.main, event with
  | .exited, _ => .error .blocked
  | _, .read _ _ | _, .readError | _, .record | _, .echo _ => receiverStep s event
  | _, .tick | _, .reporterPrint | _, .reporterDone => reporterStep s event
  | _, .signal | _, .closeConn | _, .finalSnapshot | _, .finalPrint | _, .exit =>
      mainStep s event

/-! ## What was received -/

/-- The sessions of the recorded packets, in order. -/
def recorded (out : List Output) : List UUID :=
  out.filterMap fun
    | .recorded sid => some sid
    | .echoed _ _ _ | .warned | .reported _ => none

/-- What was sent back, and to whom, whether or not the write succeeded. -/
def echoed (out : List Output) : List (Bytes × UDPAddr) :=
  out.filterMap fun
    | .echoed data addr _ => some (data, addr)
    | .recorded _ | .warned | .reported _ => none

@[simp] theorem recorded_append (first second : List Output) :
    recorded (first ++ second) = recorded first ++ recorded second :=
  List.filterMap_append

@[simp] theorem echoed_append (first second : List Output) :
    echoed (first ++ second) = echoed first ++ echoed second :=
  List.filterMap_append

/-- The session of a datagram that can be parsed. -/
def session (data : Bytes) : Option UUID :=
  if (parsePacket data).2 then some (parsePacket data).1 else none

def Event.session : Event → Option UUID
  | .read data _ => EchoBackend.session data
  | _ => none

def Event.echoes : Event → Option (Bytes × UDPAddr)
  | .read data remoteAddr => if (parsePacket data).2 then remoteAddr.map (data, ·) else none
  | _ => none

/-- A parsed packet that is not recorded yet. -/
def Receiver.unrecorded : Receiver → List UUID
  | .record sid _ _ => [sid]
  | .read | .echo _ _ | .returned => []

/-- A parsed packet that is not sent back yet. -/
def Receiver.unechoed : Receiver → List (Bytes × UDPAddr)
  | .record _ data remoteAddr | .echo data remoteAddr => (remoteAddr.map (data, ·)).toList
  | .read | .returned => []

/-- A report is true of a sequence of packets. -/
structure StatsReport.TrueOf (report : StatsReport) (sessions : List UUID) : Prop where
  total : report.totalReceived = sessions.length
  unique : report.uniqueSessions = sessions.toFinset.card
  counts : AssocMap.Tallies [] report.sessions sessions
  sum : (report.sessions.keys.map report.sessions.tally).sum = report.totalReceived

structure Counted (stats : Stats) (sessions : List UUID) : Prop where
  total : stats.totalReceived = sessions.length
  tallies : AssocMap.Tallies [] stats.sessions sessions

theorem Counted.record {stats : Stats} {sessions : List UUID} (h : Counted stats sessions)
    (sid : UUID) (addr : Option UDPAddr) :
    Counted (stats.record sid addr) (sessions ++ [sid]) where
  total := by simp [Stats.record, h.total]
  tallies := h.tallies.bump sid

theorem Counted.snapshot {stats : Stats} {sessions : List UUID} (h : Counted stats sessions) :
    stats.snapshot.TrueOf sessions where
  total := h.total
  unique := h.tallies.size_eq
  counts := h.tallies
  sum := h.tallies.sum_eq_length.trans h.total.symm

/-! ## Runs -/

/-- A report that was made and is not printed yet. -/
def State.Holds (s : State) (report : StatsReport) : Prop :=
  s.reporter = .print report ∨ s.main = .print report

/-- What the steps do to the counts, to the packet in hand and to the reports. -/
inductive Steps (s : State) : Event → State → List Output → Prop
  | parsed (data : Bytes) (remoteAddr : Option UDPAddr) (sid : UUID)
      (hparse : parsePacket data = (sid, true)) (hreceiver : s.receiver = .read) :
      Steps s (.read data remoteAddr) { s with receiver := .record sid data remoteAddr } []
  | recorded (sid : UUID) (data : Bytes) (remoteAddr : Option UDPAddr)
      (hreceiver : s.receiver = .record sid data remoteAddr) :
      Steps s .record
        { s with stats := s.stats.record sid remoteAddr, receiver := .echo data remoteAddr }
        [.recorded sid]
  | echoed (data : Bytes) (addr : UDPAddr) (writeFails : Bool)
      (hreceiver : s.receiver = .echo data (some addr)) :
      Steps s (.echo writeFails) { s with receiver := .read }
        [.echoed data addr (!writeFails && !s.main.connClosed)]
  | reported (event : Event) (next : State) (report : StatsReport) (hholds : s.Holds report)
      (hstats : next.stats = s.stats) (hreceiver : next.receiver = s.receiver)
      (hopen : next.main.connClosed = false → s.main.connClosed = false)
      (hnext : ∀ other, next.Holds other → s.Holds other)
      (hsession : event.session = none) (hechoes : event.echoes = none) :
      Steps s event next [.reported report]
  | quiet (event : Event) (next : State) (now : List Output) (hstats : next.stats = s.stats)
      (hunrecorded : next.receiver.unrecorded = s.receiver.unrecorded)
      (hunechoed : next.receiver.unechoed = s.receiver.unechoed)
      (hopen : next.main.connClosed = false → s.main.connClosed = false)
      (hnext : ∀ report, next.Holds report → s.Holds report ∨ report = s.stats.snapshot)
      (hsession : event.session = none) (hechoes : event.echoes = none)
      (hnow : now = [] ∨ now = [.warned]) : Steps s event next now

theorem steps_of_receiverStep {s next : State} {event : Event} {now : List Output}
    (hstep : receiverStep s event = .ok (next, now)) : Steps s event next now := by
  cases event with
  | read data remoteAddr =>
      simp only [receiverStep] at hstep
      split at hstep
      case h_1 hreceiver =>
        split at hstep
        · cases hstep
        · split at hstep <;> cases hstep
          · rename_i hparse
            exact .quiet _ _ _ rfl rfl rfl id (fun _ => Or.inl)
              (by simp [Event.session, session, hparse]) (by simp [Event.echoes, hparse])
              (Or.inl rfl)
          · rename_i hparse
            exact .parsed data remoteAddr _ hparse hreceiver
      all_goals cases hstep
  | readError =>
      simp only [receiverStep] at hstep
      split at hstep
      case h_1 hreceiver =>
        split at hstep <;> cases hstep
        · exact .quiet _ _ _ rfl (by rw [hreceiver]; rfl) (by rw [hreceiver]; rfl) id
            (fun _ => Or.inl) rfl rfl (Or.inl rfl)
        · exact .quiet _ _ _ rfl rfl rfl id (fun _ => Or.inl) rfl rfl (Or.inr rfl)
      all_goals cases hstep
  | record =>
      simp only [receiverStep] at hstep
      split at hstep <;> cases hstep
      exact .recorded _ _ _ (by assumption)
  | echo writeFails =>
      simp only [receiverStep] at hstep
      split at hstep <;> cases hstep
      · exact .echoed _ _ writeFails (by assumption)
      · rename_i hreceiver
        exact .quiet _ _ _ rfl (by rw [hreceiver]; rfl) (by rw [hreceiver]; rfl) id
          (fun _ => Or.inl) rfl rfl (Or.inl rfl)
  | tick | reporterPrint | reporterDone | signal | closeConn | finalSnapshot | finalPrint
  | exit => cases hstep

theorem steps_of_reporterStep {s next : State} {event : Event} {now : List Output}
    (hstep : reporterStep s event = .ok (next, now)) : Steps s event next now := by
  cases event with
  | tick =>
      simp only [reporterStep] at hstep
      split at hstep <;> cases hstep
      refine .quiet _ _ _ rfl rfl rfl id ?_ rfl rfl (Or.inl rfl)
      rintro report (hreport | hreport)
      · cases hreport
        exact Or.inr rfl
      · exact Or.inl (Or.inr hreport)
  | reporterPrint =>
      simp only [reporterStep] at hstep
      split at hstep <;> cases hstep
      rename_i hreporter
      refine .reported _ _ _ (Or.inl hreporter) rfl rfl id ?_ rfl rfl
      rintro other (hother | hother)
      · cases hother
      · exact Or.inr hother
  | reporterDone =>
      simp only [reporterStep] at hstep
      split at hstep
      case h_1 hreporter =>
        split at hstep <;> cases hstep
        refine .quiet _ _ _ rfl rfl rfl id ?_ rfl rfl (Or.inl rfl)
        rintro report (hreport | hreport)
        · cases hreport
        · exact Or.inl (Or.inr hreport)
      all_goals cases hstep
  | read | readError | record | echo | signal | closeConn | finalSnapshot | finalPrint
  | exit => cases hstep

theorem steps_of_mainStep {s next : State} {event : Event} {now : List Output}
    (hstep : mainStep s event = .ok (next, now)) : Steps s event next now := by
  cases event with
  | finalSnapshot =>
      simp only [mainStep] at hstep
      split at hstep <;> cases hstep
      refine .quiet _ _ _ rfl rfl rfl nofun ?_ rfl rfl (Or.inl rfl)
      rintro report (hreport | hreport)
      · exact Or.inl (Or.inl hreport)
      · cases hreport
        exact Or.inr rfl
  | finalPrint =>
      simp only [mainStep] at hstep
      split at hstep <;> cases hstep
      rename_i hmain
      refine .reported _ _ _ (Or.inr hmain) rfl rfl nofun ?_ rfl rfl
      rintro other (hother | hother)
      · exact Or.inl hother
      · cases hother
  | signal | closeConn | exit =>
      simp only [mainStep] at hstep
      split at hstep <;> cases hstep
      rename_i hmain
      refine .quiet _ _ _ rfl rfl rfl (by simp [hmain, Main.connClosed]) ?_ rfl rfl (Or.inl rfl)
      rintro report (hreport | hreport)
      · exact Or.inl (Or.inl hreport)
      · cases hreport
  | read | readError | record | echo | tick | reporterPrint | reporterDone => cases hstep

theorem steps_of_step {s next : State} {event : Event} {now : List Output}
    (hstep : step s event = .ok (next, now)) : Steps s event next now := by
  unfold step at hstep
  split at hstep
  · cases hstep
  all_goals first
    | exact steps_of_receiverStep hstep
    | exact steps_of_reporterStep hstep
    | exact steps_of_mainStep hstep

/-- The counts are those of the recorded packets, and a report was once true of them. -/
structure Sound (s : State) (out : List Output) : Prop where
  counted : Counted s.stats (recorded out)
  held : ∀ report, s.Holds report →
    ∃ before, before <+: recorded out ∧ report.TrueOf before

theorem sound_step {s next : State} {event : Event} {out now : List Output}
    (h : Sound s out) (hsteps : Steps s event next now) : Sound next (out ++ now) := by
  have hgrows : recorded out <+: recorded (out ++ now) := by
    rw [recorded_append]
    exact List.prefix_append _ _
  have hheld : ∀ report, s.Holds report →
      ∃ before, before <+: recorded (out ++ now) ∧ report.TrueOf before := by
    intro report hreport
    obtain ⟨before, hbefore, htrue⟩ := h.held report hreport
    exact ⟨before, hbefore.trans hgrows, htrue⟩
  cases hsteps with
  | parsed => exact ⟨by simpa using h.counted, hheld⟩
  | recorded sid data remoteAddr =>
      refine ⟨?_, hheld⟩
      rw [recorded_append]
      exact h.counted.record sid remoteAddr
  | echoed => exact ⟨by simpa [recorded] using h.counted, hheld⟩
  | reported event next report hholds hstats hreceiver hopen hnext =>
      refine ⟨?_, fun other hother => hheld other (hnext other hother)⟩
      simpa [hstats, recorded] using h.counted
  | quiet event next now hstats hunrecorded hunechoed hopen hnext hsession hechoes hnow =>
      constructor
      · rcases hnow with rfl | rfl <;> simpa [hstats, recorded] using h.counted
      · intro report hreport
        rcases hnext report hreport with hold | rfl
        · exact hheld report hold
        · exact ⟨_, hgrows, h.counted.snapshot⟩

theorem sound_run {events : List Event} {last : State} {out : List Output}
    (hrun : run step start events = .ok (last, out)) : Sound last out := by
  have hstart : Sound start [] := by
    refine ⟨⟨rfl, AssocMap.tallies_empty⟩, ?_⟩
    rintro report (hreport | hreport) <;> cases hreport
  refine run_keeps Sound hstart ?_ hrun
  intro s now event next now' h hstep
  exact sound_step h (steps_of_step hstep)

/-- The packets that can be parsed are recorded, up to the one in hand. -/
theorem recorded_run {events : List Event} {last : State} {out : List Output}
    (hrun : run step start events = .ok (last, out)) :
    recorded out ++ last.receiver.unrecorded = events.filterMap Event.session := by
  refine run_fifo recorded recorded_append (fun s => s.receiver.unrecorded) _ ?_ hrun
  intro s event next now hstep
  cases steps_of_step hstep with
  | parsed data remoteAddr sid hparse hreceiver =>
      simp [recorded, hreceiver, Receiver.unrecorded, Event.session, session, hparse]
  | recorded sid data remoteAddr hreceiver =>
      simp [recorded, hreceiver, Receiver.unrecorded, Event.session]
  | echoed data addr writeFails hreceiver =>
      simp [recorded, hreceiver, Receiver.unrecorded, Event.session]
  | reported event next report hholds hstats hreceiver hopen hnext hsession =>
      simp [recorded, hreceiver, hsession]
  | quiet event next now hstats hunrecorded hunechoed hopen hnext hsession hechoes hnow =>
      rcases hnow with rfl | rfl <;> simp [recorded, hunrecorded, hsession]

/-- They are sent back likewise. -/
theorem echoed_run {events : List Event} {last : State} {out : List Output}
    (hrun : run step start events = .ok (last, out)) :
    echoed out ++ last.receiver.unechoed = events.filterMap Event.echoes := by
  refine run_fifo echoed echoed_append (fun s => s.receiver.unechoed) _ ?_ hrun
  intro s event next now hstep
  cases steps_of_step hstep with
  | parsed data remoteAddr sid hparse hreceiver =>
      simp [echoed, hreceiver, Receiver.unechoed, Event.echoes, hparse]
  | recorded sid data remoteAddr hreceiver =>
      simp [echoed, hreceiver, Receiver.unechoed, Event.echoes]
  | echoed data addr writeFails hreceiver =>
      simp [echoed, hreceiver, Receiver.unechoed, Event.echoes]
  | reported event next report hholds hstats hreceiver hopen hnext hsession hechoes =>
      simp [echoed, hreceiver, hechoes]
  | quiet event next now hstats hunrecorded hunechoed hopen hnext hsession hechoes hnow =>
      rcases hnow with rfl | rfl <;> simp [echoed, hunechoed, hechoes]

theorem connClosed_of_steps {s next : State} {event : Event} {now : List Output}
    (hsteps : Steps s event next now) (hopen : next.main.connClosed = false) :
    s.main.connClosed = false := by
  cases hsteps with
  | parsed | recorded | echoed => exact hopen
  | reported event next report hholds hstats hreceiver hback => exact hback hopen
  | quiet event next now hstats hunrecorded hunechoed hback => exact hback hopen

/-- An echo that is tried while the connection is open reaches the network. -/
theorem written_run {events : List Event} {last : State} {out : List Output}
    (hrun : run step start events = .ok (last, out)) (hwrites : .echo true ∉ events)
    (hopen : last.main.connClosed = false) {data : Bytes} {addr : UDPAddr} {written : Bool}
    (hechoed : .echoed data addr written ∈ out) : written = true := by
  have halong : Along step (fun _ _ event => event ≠ .echo true) start [] events := by
    apply Along.of_forall
    rintro s now event hevent rfl
    exact hwrites hevent
  have hinv : last.main.connClosed = false →
      ∀ data addr written, .echoed data addr written ∈ [] ++ out → written = true := by
    refine run_induction (fun s out => s.main.connClosed = false →
      ∀ data addr written, .echoed data addr written ∈ out → written = true) ?_ ?_ halong hrun
    · simp
    · intro s now event next now' h hevent hstep hopen data addr written hmem
      have hopen' := connClosed_of_steps (steps_of_step hstep) hopen
      rcases List.mem_append.mp hmem with hold | hnew
      · exact h hopen' data addr written hold
      · cases steps_of_step hstep with
        | echoed data' addr' writeFails =>
            cases writeFails with
            | true => exact absurd rfl hevent
            | false => simp_all
        | parsed | recorded | reported => simp at hnew
        | quiet event next now hstats hunrecorded hunechoed hopen hnext hsession hechoes hnow =>
            rcases hnow with rfl | rfl <;> simp at hnew
  exact hinv hopen data addr written hechoed

/--
Whatever is read and whenever a report is printed: the datagrams that can be
parsed are recorded and sent back, in order and no others, up to the one that the
receive goroutine has in hand.  A write that is tried fails only on its own or
because the connection is closed.  A printed report is true of the packets that were
recorded up to some moment before: its total is the number of them and the sum of
the counts, and a session is listed exactly if it has come up.
-/
theorem reports_true (events : List Event) (last : State) (out : List Output)
    (hrun : run step start events = .ok (last, out)) :
    recorded out ++ last.receiver.unrecorded = events.filterMap Event.session ∧
      echoed out ++ last.receiver.unechoed = events.filterMap Event.echoes ∧
      (.echo true ∉ events → last.main.connClosed = false →
        ∀ data addr written, .echoed data addr written ∈ out → written = true) ∧
      ∀ earlier report later, out = earlier ++ .reported report :: later →
        ∃ before, before <+: recorded earlier ∧ report.TrueOf before := by
  refine ⟨recorded_run hrun, echoed_run hrun, ?_, ?_⟩
  · intro hwrites hopen data addr written hechoed
    exact written_run hrun hwrites hopen hechoed
  · rintro earlier report later rfl
    have hlength : ∀ s event next now, step s event = .ok (next, now) → now.length ≤ 1 := by
      intro s event next now hstep
      cases steps_of_step hstep with
      | parsed => exact Nat.zero_le 1
      | recorded | echoed | reported => exact Nat.le_refl 1
      | quiet event next now hstats hunrecorded hunechoed hopen hnext hsession hechoes hnow =>
          rcases hnow with rfl | rfl <;> simp
    obtain ⟨first, event, rest, middle, next, -, hfirst, hstep⟩ := run_emits hlength hrun
    cases steps_of_step hstep with
    | reported event next report hholds => exact (sound_run hfirst).held report hholds
    | quiet event next now hstats hunrecorded hunechoed hopen hnext hsession hechoes hnow =>
        simp at hnow

/-- A packet of the generator with an empty payload. -/
def examplePacket (sid : UUID) : Bytes := packetOf 0 sid

/--
A report is made before the second packet is recorded and printed after it, and the
connection is closed before that packet is sent back.
-/
def exampleEvents : List Event :=
  [.read (examplePacket (Vector.replicate 16 9)) (some ⟨"10.0.0.100", 54321⟩), .record,
    .echo false, .read [1, 2, 3] none,
    .read (examplePacket (Vector.replicate 16 9)) (some ⟨"10.0.0.100", 54321⟩), .tick,
    .record, .signal, .closeConn, .echo false, .reporterPrint, .finalSnapshot, .readError,
    .finalPrint, .exit]

theorem reports_true_after_signal :
    ∃ last out, run step start exampleEvents = .ok (last, out) ∧
      recorded out = [Vector.replicate 16 9, Vector.replicate 16 9] ∧
      (echoed out).length = 2 ∧ last.stats.totalReceived = 2 ∧
      ∀ earlier report later, out = earlier ++ .reported report :: later →
        ∃ before, before <+: recorded earlier ∧ report.TrueOf before := by
  obtain ⟨⟨last, out⟩, hrun, hrecorded, hechoed, htotal⟩ :
      Returns (run step start exampleEvents) fun result =>
        recorded result.2 = [Vector.replicate 16 9, Vector.replicate 16 9] ∧
          (echoed result.2).length = 2 ∧ result.1.stats.totalReceived = 2 :=
    ⟨_, rfl, by decide, by decide, by decide⟩
  exact ⟨last, out, hrun, hrecorded, hechoed, htotal,
    (reports_true exampleEvents last out hrun).2.2.2⟩

end Udplb.Cmd.EchoBackend
