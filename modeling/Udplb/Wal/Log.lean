import Udplb.StateMachine.Machines
import Udplb.Util.LinkedList
import Udplb.Util.RingBuffer

/-!
# The write-ahead log

`Propose` writes into a ring buffer.  A reader goroutine takes the entries out
of it and hands them to the event loop, which appends each of them to the list
and dispatches its data.  Entries may be lost in the ring buffer; those that get
through are appended in the order in which they were written.
-/

namespace Udplb

open Udplb.Foundation Udplb.Util

structure WALEntry (T : Type) where
  key : String
  data : T
  verb : StateMachine.Command
  timestamp : Int
  walName : String
  proposalHash : Vector UInt8 32
  previousHash : Vector UInt8 32
  hash : Vector UInt8 32

namespace Wal

/-- Where the reader goroutine is. -/
inductive Reader (T : Type) where
  | next
  | reading
  | sending (entry : WALEntry T)
  | returned

/-- Where the event loop is. -/
inductive Loop (T : Type) where
  | selecting
  | received (proposal : WALEntry T)
  | appended (proposal : WALEntry T)
  | terminated

end Wal

structure Wal (T : Type) where
  name : String
  linkedList : LinkedList (WALEntry T)
  proposalBuffer : RingBuffer (WALEntry T)
  reader : Wal.Reader T
  loop : Wal.Loop T
  terminateCh : Bool

namespace Wal

def proposingRingBufferSize : Nat := 32

variable {T : Type}

/-- The log as `New` makes it, at the start of `Run`. -/
def new (name : String) (capacity : Nat) : Wal T where
  name := name
  linkedList := .new capacity
  proposalBuffer := .new proposingRingBufferSize
  reader := .next
  loop := .selecting
  terminateCh := false

inductive Stop where
  | blocked
  | ringBuffer (stop : RingBuffer.Stop)
  | linkedList
  deriving DecidableEq, Repr

inductive Event (T : Type) where
  | propose (proposal : WALEntry T)
  | takeToken
  | lockedRead
  | handOff
  | append
  | dispatch
  | close
  | readerReturn
  | terminate

inductive Output (T : Type) where
  | wrote (entry : WALEntry T)
  | appended (entry : WALEntry T)
  | dispatched (values : List T)

def setName (name : String) (proposal : WALEntry T) : WALEntry T :=
  { proposal with walName := name }

/-- A step of some goroutine; the select of either loop may take any ready case. -/
def step (w : Wal T) : Event T → Except Stop (Wal T × List (Output T))
  | .propose proposal => do
      let entry := setName w.name proposal
      let buffer ← (w.proposalBuffer.write entry).mapError .ringBuffer
      .ok ({ w with proposalBuffer := buffer }, [.wrote entry])
  | .takeToken =>
      match w.reader with
      | .next => do
          let buffer ← w.proposalBuffer.takeToken.mapError .ringBuffer
          .ok ({ w with proposalBuffer := buffer, reader := .reading }, [])
      | _ => .error .blocked
  | .lockedRead =>
      match w.reader with
      | .reading => do
          let (buffer, entry) ← w.proposalBuffer.lockedRead.mapError .ringBuffer
          .ok ({ w with proposalBuffer := buffer, reader := .sending entry }, [])
      | _ => .error .blocked
  | .handOff =>
      match w.reader, w.loop with
      | .sending entry, .selecting =>
          .ok ({ w with reader := .next, loop := .received entry }, [])
      | _, _ => .error .blocked
  | .append =>
      match w.loop with
      | .received proposal => do
          let list ← (w.linkedList.append proposal).elim (.error .linkedList) .ok
          .ok ({ w with linkedList := list, loop := .appended proposal },
            [.appended proposal])
      | _ => .error .blocked
  | .dispatch =>
      match w.loop with
      | .appended proposal =>
          .ok ({ w with loop := .selecting }, [.dispatched [proposal.data]])
      | _ => .error .blocked
  | .close => .ok ({ w with terminateCh := true }, [])
  | .readerReturn =>
      match w.reader, w.terminateCh with
      | .sending _, true => .ok ({ w with reader := .returned }, [])
      | _, _ => .error .blocked
  | .terminate =>
      match w.loop, w.terminateCh with
      | .selecting, true => .ok ({ w with loop := .terminated }, [])
      | _, _ => .error .blocked

/-! ## What a run has written, appended and dispatched -/

def Event.proposal? : Event T → Option (WALEntry T)
  | .propose proposal => some proposal
  | _ => none

def Output.wrote? : Output T → Option (WALEntry T)
  | .wrote entry => some entry
  | .appended _ | .dispatched _ => none

def Output.appended? : Output T → Option (WALEntry T)
  | .appended entry => some entry
  | .wrote _ | .dispatched _ => none

def Output.dispatched? : Output T → Option (List T)
  | .dispatched values => some values
  | .wrote _ | .appended _ => none

def appendedEntries (out : List (Output T)) : List (WALEntry T) :=
  out.filterMap Output.appended?

def dispatchedValues (out : List (Output T)) : List (List T) :=
  out.filterMap Output.dispatched?

def writtenEntries (out : List (Output T)) : List (WALEntry T) :=
  out.filterMap Output.wrote?

def Reader.held : Reader T → List (WALEntry T)
  | .sending entry => [entry]
  | .next | .reading | .returned => []

def Loop.held : Loop T → List (WALEntry T)
  | .received proposal => [proposal]
  | .selecting | .appended _ | .terminated => []

/-- What the loop has appended and not dispatched yet. -/
def Loop.undispatched : Loop T → List (List T)
  | .appended proposal => [[proposal.data]]
  | .selecting | .received _ | .terminated => []

@[simp] theorem appendedEntries_append (out now : List (Output T)) :
    appendedEntries (out ++ now) = appendedEntries out ++ appendedEntries now :=
  List.filterMap_append

/-- What every step keeps: the entries on their way, in order, and the list. -/
structure InOrder (w : Wal T) (out : List (Output T)) (q : List (WALEntry T)) :
    Prop where
  buffer : w.proposalBuffer.Holds q
  pipeline : (appendedEntries out ++ (w.loop.held ++ (w.reader.held ++ q))).Sublist
    (writtenEntries out)
  dispatched : dispatchedValues out ++ w.loop.undispatched =
    (appendedEntries out).map fun entry => [entry.data]
  list : ∃ first, w.linkedList.Represents first
    (LinkedList.retained w.linkedList.capacity (appendedEntries out))

theorem inOrder_new (name : String) (capacity : Nat) :
    InOrder (new name capacity : Wal T) [] [] := by
  refine ⟨RingBuffer.holds_new (by decide), .refl _, rfl, 0, ?_⟩
  simpa [new, LinkedList.new, appendedEntries, LinkedList.retained] using
    LinkedList.represents_new capacity

/-! ## One step -/

/-- What a step can do. -/
inductive Steps (w : Wal T) : Event T → Wal T → List (Output T) → Prop
  | proposed (proposal : WALEntry T) (buffer : RingBuffer (WALEntry T))
      (h : w.proposalBuffer.write (setName w.name proposal) = .ok buffer) :
      Steps w (.propose proposal) { w with proposalBuffer := buffer }
        [.wrote (setName w.name proposal)]
  | took (buffer : RingBuffer (WALEntry T)) (hreader : w.reader = .next)
      (h : w.proposalBuffer.takeToken = .ok buffer) :
      Steps w .takeToken { w with proposalBuffer := buffer, reader := .reading } []
  | read (buffer : RingBuffer (WALEntry T)) (entry : WALEntry T)
      (hreader : w.reader = .reading)
      (h : w.proposalBuffer.lockedRead = .ok (buffer, entry)) :
      Steps w .lockedRead { w with proposalBuffer := buffer, reader := .sending entry } []
  | handedOff (entry : WALEntry T) (hreader : w.reader = .sending entry)
      (hloop : w.loop = .selecting) :
      Steps w .handOff { w with reader := .next, loop := .received entry } []
  | appended (proposal : WALEntry T) (list : LinkedList (WALEntry T))
      (hloop : w.loop = .received proposal)
      (h : w.linkedList.append proposal = some list) :
      Steps w .append { w with linkedList := list, loop := .appended proposal }
        [.appended proposal]
  | dispatched (proposal : WALEntry T) (hloop : w.loop = .appended proposal) :
      Steps w .dispatch { w with loop := .selecting } [.dispatched [proposal.data]]
  | closed : Steps w .close { w with terminateCh := true } []
  | readerReturned (entry : WALEntry T) (hreader : w.reader = .sending entry) :
      Steps w .readerReturn { w with reader := .returned } []
  | terminated (hloop : w.loop = .selecting) :
      Steps w .terminate { w with loop := .terminated } []

theorem steps_of_step_eq_ok {w next : Wal T} {event : Event T}
    {now : List (Output T)} (h : step w event = .ok (next, now)) :
    Steps w event next now := by
  cases event with
  | propose proposal =>
      simp only [step, bind_eq_ok, mapError_eq_ok] at h
      obtain ⟨buffer, hbuffer, h⟩ := h
      cases h
      exact .proposed proposal buffer hbuffer
  | takeToken =>
      simp only [step] at h
      split at h
      · simp only [bind_eq_ok, mapError_eq_ok] at h
        obtain ⟨buffer, hbuffer, h⟩ := h
        cases h
        exact .took buffer (by assumption) hbuffer
      · cases h
  | lockedRead =>
      simp only [step] at h
      split at h
      · simp only [bind_eq_ok, mapError_eq_ok] at h
        obtain ⟨⟨buffer, entry⟩, hbuffer, h⟩ := h
        cases h
        exact .read buffer entry (by assumption) hbuffer
      · cases h
  | handOff =>
      simp only [step] at h
      split at h
      · cases h
        exact .handedOff _ (by assumption) (by assumption)
      · cases h
  | append =>
      simp only [step] at h
      split at h
      · rename_i proposal hloop
        cases hlist : w.linkedList.append proposal with
        | none => simp [hlist] at h
        | some list =>
            rw [hlist] at h
            cases h
            exact .appended proposal list hloop hlist
      · cases h
  | dispatch =>
      simp only [step] at h
      split at h
      · cases h
        exact .dispatched _ (by assumption)
      · cases h
  | close =>
      cases h
      exact .closed
  | readerReturn =>
      simp only [step] at h
      split at h
      · cases h
        exact .readerReturned _ (by assumption)
      · cases h
  | terminate =>
      simp only [step] at h
      split at h
      · cases h
        exact .terminated (by assumption)
      · cases h

theorem steps_inOrder {w next : Wal T} {event : Event T} {out now : List (Output T)}
    {q : List (WALEntry T)} (h : InOrder w out q) (hsteps : Steps w event next now) :
    ∃ q', InOrder next (out ++ now) q' := by
  obtain ⟨hbuffer, hpipeline, hdispatched, first, hlist⟩ := h
  cases hsteps with
  | proposed proposal buffer hwrite =>
      obtain ⟨hholds, -⟩ :=
        (hbuffer.write_spec (setName w.name proposal)).of_eq_ok hwrite
      refine ⟨_, hholds, ?_, ?_, first, ?_⟩
      · rw [← List.append_assoc, ← List.append_assoc] at hpipeline
        simpa [List.filterMap_cons, appendedEntries, writtenEntries, Output.appended?,
          Output.wrote?] using
          RingBuffer.append_push_sublist (setName w.name proposal) hpipeline
      · simpa [List.filterMap_cons, appendedEntries, dispatchedValues, Output.appended?,
          Output.dispatched?] using hdispatched
      · simpa [List.filterMap_cons, appendedEntries, Output.appended?] using hlist
  | took buffer hreader htoken =>
      refine ⟨q, hbuffer.takeToken htoken, ?_, by simpa using hdispatched, first,
        by simpa using hlist⟩
      simpa [hreader, Reader.held] using hpipeline
  | read buffer entry hreader hread =>
      obtain ⟨q', rfl, hholds⟩ := hbuffer.lockedRead_eq_ok hread
      refine ⟨q', hholds, ?_, by simpa using hdispatched, first, by simpa using hlist⟩
      simpa [hreader, Reader.held] using hpipeline
  | handedOff entry hreader hloop =>
      refine ⟨q, hbuffer, ?_, ?_, first, by simpa using hlist⟩
      · simpa [hreader, hloop, Reader.held, Loop.held] using hpipeline
      · simpa [hloop, Loop.undispatched] using hdispatched
  | appended proposal list hloop happend =>
      obtain ⟨list', first', happend', hrep⟩ := hlist.append_spec proposal
      rw [happend'] at happend
      cases happend
      have hcap := LinkedList.capacity_append happend'
      refine ⟨q, hbuffer, ?_, ?_, first', ?_⟩
      · simpa [List.filterMap_cons, hloop, Loop.held, appendedEntries, writtenEntries,
          Output.appended?, Output.wrote?] using hpipeline
      · simpa [List.filterMap_cons, hloop, Loop.undispatched, appendedEntries, dispatchedValues,
          Output.appended?, Output.dispatched?] using hdispatched
      · rw [hcap, appendedEntries_append]
        rw [← LinkedList.retained_append] at hrep
        exact hrep
  | dispatched proposal hloop =>
      refine ⟨q, hbuffer, ?_, ?_, first, ?_⟩
      · simpa [List.filterMap_cons, hloop, Loop.held, appendedEntries, writtenEntries,
          Output.appended?, Output.wrote?] using hpipeline
      · simpa [List.filterMap_cons, hloop, Loop.undispatched, appendedEntries, dispatchedValues,
          Output.appended?, Output.dispatched?] using hdispatched
      · simpa [List.filterMap_cons, appendedEntries, Output.appended?] using hlist
  | closed =>
      exact ⟨q, hbuffer, by simpa using hpipeline, by simpa using hdispatched, first,
        by simpa using hlist⟩
  | readerReturned entry hreader =>
      refine ⟨q, hbuffer, ?_, by simpa using hdispatched, first, by simpa using hlist⟩
      -- the entry that the reader held is dropped
      rw [List.append_nil]
      refine List.Sublist.trans ?_ hpipeline
      simp [hreader, Reader.held]
  | terminated hloop =>
      refine ⟨q, hbuffer, ?_, ?_, first, by simpa using hlist⟩
      · simpa [hloop, Loop.held] using hpipeline
      · simpa [hloop, Loop.undispatched] using hdispatched

theorem steps_name {w next : Wal T} {event : Event T} {now : List (Output T)}
    (h : Steps w event next now) : next.name = w.name := by
  cases h <;> rfl

theorem steps_capacity {w next : Wal T} {event : Event T} {now : List (Output T)}
    (h : Steps w event next now) :
    next.linkedList.capacity = w.linkedList.capacity := by
  cases h with
  | appended proposal list hloop happend => exact LinkedList.capacity_append happend
  | _ => rfl

theorem steps_written {w next : Wal T} {event : Event T} {now : List (Output T)}
    (h : Steps w event next now) :
    now.filterMap Output.wrote? = (event.proposal?.map (setName w.name)).toList := by
  cases h <;> rfl

/-- A step that cannot be taken yet, or the panic of the reader. -/
def Stop.Expected : Stop → Prop
  | .blocked | .ringBuffer .blocked | .ringBuffer .nilDereference => True
  | .ringBuffer .indexOutOfRange | .linkedList => False

theorem step_stops {w : Wal T} {event : Event T} {out : List (Output T)}
    {q : List (WALEntry T)} {stop : Stop} (h : InOrder w out q)
    (hstep : step w event = .error stop) : stop.Expected := by
  obtain ⟨hbuffer, -, -, first, hlist⟩ := h
  cases event with
  | propose proposal =>
      obtain ⟨buffer, hwrite, -⟩ := hbuffer.write_spec (setName w.name proposal)
      simp only [step, hwrite] at hstep
      cases hstep
  | takeToken =>
      simp only [step, RingBuffer.takeToken] at hstep
      split at hstep
      · split at hstep <;> cases hstep
        trivial
      · cases hstep
        trivial
  | lockedRead =>
      simp only [step] at hstep
      split at hstep
      · simp only [RingBuffer.lockedRead, hbuffer.window.head] at hstep
        cases hhead : q.head? with
        | none =>
            rw [hhead] at hstep
            cases hstep
            trivial
        | some entry =>
            rw [hhead] at hstep
            cases hstep
      · cases hstep
        trivial
  | append =>
      simp only [step] at hstep
      split at hstep
      · rename_i proposal hloop
        obtain ⟨list, first', happend, -⟩ := hlist.append_spec proposal
        rw [happend] at hstep
        cases hstep
      · cases hstep
        trivial
  | handOff | dispatch | readerReturn | terminate =>
      simp only [step] at hstep
      split at hstep <;> cases hstep
      trivial
  | close => cases hstep

/-! ## A whole run -/

/-- The log was made with this name and capacity, and is in order. -/
def Kept (name : String) (capacity : Nat) (w : Wal T) (out : List (Output T)) : Prop :=
  (w.name = name ∧ w.linkedList.capacity = capacity) ∧ ∃ q, InOrder w out q

theorem kept_new (name : String) (capacity : Nat) :
    Kept name capacity (new name capacity : Wal T) [] :=
  ⟨⟨rfl, rfl⟩, [], inOrder_new name capacity⟩

theorem step_kept {name : String} {capacity : Nat} {w : Wal T}
    {out : List (Output T)} {event : Event T} (h : Kept name capacity w out) :
    (∀ stop, step w event = .error stop → stop.Expected) ∧
      ∀ next now, step w event = .ok (next, now) →
        Kept name capacity next (out ++ now) := by
  obtain ⟨⟨hname, hcapacity⟩, q, hq⟩ := h
  refine ⟨fun stop hstep => step_stops hq hstep, ?_⟩
  intro next now hstep
  have hsteps := steps_of_step_eq_ok hstep
  exact ⟨⟨(steps_name hsteps).trans hname, (steps_capacity hsteps).trans hcapacity⟩,
    steps_inOrder hq hsteps⟩

theorem run_written {name : String} {capacity : Nat} {events : List (Event T)}
    {w : Wal T} {out : List (Output T)}
    (hrun : run step (new name capacity) events = .ok (w, out)) :
    writtenEntries out = (events.filterMap Event.proposal?).map (setName name) := by
  rw [List.map_filterMap]
  refine run_filterMap (fun w : Wal T => w.name = name) Output.wrote? _ rfl ?_ hrun
  intro s event next now hname hstep
  have hsteps := steps_of_step_eq_ok hstep
  exact ⟨(steps_name hsteps).trans hname, hname ▸ steps_written hsteps⟩

def exampleEntry (data : Nat) : WALEntry Nat :=
  ⟨"", data, .put, 0, "", .replicate 32 0, .replicate 32 0, .replicate 32 0⟩

/-- Three proposals, of which the first two get to the list of capacity one. -/
def exampleEvents : List (Event Nat) :=
  [.propose (exampleEntry 1), .propose (exampleEntry 2), .takeToken, .lockedRead,
    .handOff, .takeToken, .append, .propose (exampleEntry 3), .dispatch, .lockedRead,
    .handOff, .append]

end Wal

end Udplb
