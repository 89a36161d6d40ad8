import Udplb.Foundation.Codec
import Udplb.Util.Producer

/-!
# Receiving from the cluster

The receive loop of the cluster multiplexer reads every datagram into the same
buffer, copies it and dispatches the copy.  A typed cluster watches the
multiplexer: its decode loop takes the copies, decodes them, skips what is
malformed and dispatches the values to watchers of its own.  What is dispatched
first is a slice, that is a reference to an array that all watchers share, so
arrays are cells of a heap here; the buffer is cell 0.

Nobody writes to an array that was dispatched.
-/

namespace Udplb.Cluster.Receive

open Udplb.Foundation Udplb.Util

variable {T : Type}

/-- `json.Marshal`, and `json.Unmarshal` into a variable of value zero. -/
structure Json (T : Type) where
  marshal : T → Option Bytes
  unmarshal : Bytes → Option T

/-- Where the receive loop is, apart from its calls of `Dispatch` and `Close`. -/
inductive RecvLoop where
  | checking
  | settingDeadline
  | reading
  | failed
  | terminated
  deriving DecidableEq, Repr

inductive DecodeLoop where
  | notRunning
  | selecting
  | decoding (raw : Nat)
  | left
  deriving DecidableEq, Repr

structure State (T : Type) where
  heap : List Bytes
  terminateCh : Bool
  recvLoop : RecvLoop
  recvMux : Producer Nat
  typedTerminateCh : Bool
  /-- The watcher of the decode loop. -/
  rawRecvCh : Option Nat
  decodeLoop : DecodeLoop
  typedMux : Producer T

/-- The size of the buffer is a variable of the package; it is set to 65536. -/
def start (recvBufSize capacity typedCapacity : Nat)
    (dispatchFunc typedDispatchFunc : DispatchFunc) : State T where
  heap := [List.replicate recvBufSize 0]
  terminateCh := false
  recvLoop := .checking
  recvMux := .new capacity dispatchFunc
  typedTerminateCh := false
  rawRecvCh := none
  decodeLoop := .notRunning
  typedMux := .new typedCapacity typedDispatchFunc

inductive ReadFrom where
  | datagram (data : Bytes)
  | timeout
  | error

inductive Event (T : Type) where
  | terminate
  | check
  | setReadDeadline (fails : Bool)
  | readFrom (result : ReadFrom)
  | checkAgain
  | recvMux (event : Producer.Event Nat)
  | typedTerminate
  | typedRun
  | unmarshal
  | leave
  | rawClosed
  | typedMux (event : Producer.Event T)

inductive Output (T : Type) where
  | read (data : Bytes)
  | recvMux (output : WatcherMux.Output Nat)
  | typedMux (output : WatcherMux.Output T)

/-- The datagram is read into the buffer, and what was read is copied. -/
def readInto (heap : List Bytes) (data : Bytes) : List Bytes :=
  let old := heap.getD 0 []
  let buf := writeAt old 0 (data.take old.length)
  heap.set 0 buf ++ [slice buf 0 (min data.length old.length)]

/-- Only the decode loop takes from its watcher, and only in its select. -/
def DecodeLoop.take (loop : DecodeLoop) (typedMux : Producer T) :
    List Nat → Except WatcherMux.Stop DecodeLoop
  | [] => .ok loop
  | [raw] =>
      match loop, typedMux.producing with
      | .selecting, .outside => .ok (.decoding raw)
      | _, _ => .error .blocked
  | _ => .error .blocked

/-- What the step brings the decode loop. -/
def State.taken (s : State T) (now : List (WatcherMux.Output Nat)) : List Nat :=
  s.rawRecvCh.elim [] (WatcherMux.receivedBy · now)

/-- The loop leaves and closes its multiplexer. -/
def State.leaveDecodeLoop (s : State T) : State T :=
  { s with decodeLoop := .left, typedMux := { s.typedMux with producing := .closing } }

def State.terminateRecvLoop (s : State T) : State T :=
  { s with
    recvLoop := .terminated
    recvMux := { s.recvMux with producing := .closing } }

def step (json : Json T) (s : State T) :
    Event T → Except WatcherMux.Stop (State T × List (Output T))
  | .terminate =>
      if s.terminateCh then .error .closeOfClosedChannel
      else .ok ({ s with terminateCh := true }, [])
  | .check =>
      match s.recvLoop, s.recvMux.producing with
      | .checking, .outside =>
          if s.terminateCh then .ok (s.terminateRecvLoop, [])
          else .ok ({ s with recvLoop := .settingDeadline }, [])
      | _, _ => .error .blocked
  | .setReadDeadline fails =>
      match s.recvLoop with
      | .settingDeadline =>
          .ok ({ s with recvLoop := if fails then .checking else .reading }, [])
      | _ => .error .blocked
  | .readFrom result =>
      match s.recvLoop with
      | .reading =>
          match result with
          | .timeout => .ok ({ s with recvLoop := .checking }, [])
          | .error => .ok ({ s with recvLoop := .failed }, [])
          | .datagram data =>
              .ok ({ s with
                heap := readInto s.heap data
                recvLoop := .checking
                recvMux := { s.recvMux with producing := .calling s.heap.length } },
                [.read data])
      | _ => .error .blocked
  | .checkAgain =>
      match s.recvLoop with
      | .failed =>
          if s.terminateCh then .ok (s.terminateRecvLoop, [])
          else .ok ({ s with recvLoop := .checking }, [])
      | _ => .error .blocked
  | .recvMux event => do
      let (recvMux, now) ← s.recvMux.step event
      let decodeLoop ← s.decodeLoop.take s.typedMux (s.taken now)
      .ok ({ s with recvMux := recvMux, decodeLoop := decodeLoop }, now.map .recvMux)
  | .typedTerminate =>
      if s.typedTerminateCh then .error .closeOfClosedChannel
      else .ok ({ s with typedTerminateCh := true }, [])
  | .typedRun =>
      match s.decodeLoop with
      | .notRunning => do
          let (recvMux, now) ← s.recvMux.step (.watch none)
          .ok ({ s with
            recvMux := recvMux
            rawRecvCh := some s.recvMux.mux.watchers.length
            decodeLoop := .selecting }, now.map .recvMux)
      | _ => .error .blocked
  | .unmarshal =>
      match s.decodeLoop with
      | .decoding raw =>
          match (s.heap[raw]?).bind json.unmarshal with
          | none => .ok ({ s with decodeLoop := .selecting }, [])
          | some v =>
              .ok ({ s with
                decodeLoop := .selecting
                typedMux := { s.typedMux with producing := .calling v } }, [])
      | _ => .error .blocked
  | .leave =>
      match s.decodeLoop, s.typedMux.producing with
      | .selecting, .outside =>
          if s.typedTerminateCh then .ok (s.leaveDecodeLoop, []) else .error .blocked
      | _, _ => .error .blocked
  | .rawClosed =>
      match s.decodeLoop, s.typedMux.producing,
        s.rawRecvCh.bind (s.recvMux.mux.watchers[·]?) with
      | .selecting, .outside, some w =>
          if w.chClosed = true ∧ w.ch.isEmpty = true then .ok (s.leaveDecodeLoop, [])
          else .error .blocked
      | _, _, _ => .error .blocked
  | .typedMux event => do
      let (typedMux, now) ← s.typedMux.step event
      .ok ({ s with typedMux := typedMux }, now.map .typedMux)

/-! ## What was read, dispatched and decoded -/

def datagrams (out : List (Output T)) : List Bytes :=
  out.filterMap fun
    | .read data => some data
    | .recvMux _ | .typedMux _ => none

def recvOut (out : List (Output T)) : List (WatcherMux.Output Nat) :=
  out.filterMap fun
    | .recvMux output => some output
    | .read _ | .typedMux _ => none

def typedOut (out : List (Output T)) : List (WatcherMux.Output T) :=
  out.filterMap fun
    | .typedMux output => some output
    | .read _ | .recvMux _ => none

@[simp] theorem datagrams_append (first second : List (Output T)) :
    datagrams (first ++ second) = datagrams first ++ datagrams second :=
  List.filterMap_append

@[simp] theorem recvOut_append (first second : List (Output T)) :
    recvOut (first ++ second) = recvOut first ++ recvOut second :=
  List.filterMap_append

@[simp] theorem typedOut_append (first second : List (Output T)) :
    typedOut (first ++ second) = typedOut first ++ typedOut second :=
  List.filterMap_append

@[simp] theorem datagrams_map_recvMux (now : List (WatcherMux.Output Nat)) :
    datagrams (now.map .recvMux : List (Output T)) = [] := by
  simp [datagrams]

@[simp] theorem recvOut_map_recvMux (now : List (WatcherMux.Output Nat)) :
    recvOut (now.map .recvMux : List (Output T)) = now := by
  simp [recvOut, List.filterMap_map]

@[simp] theorem typedOut_map_recvMux (now : List (WatcherMux.Output Nat)) :
    typedOut (now.map .recvMux : List (Output T)) = [] := by
  simp [typedOut]

@[simp] theorem datagrams_map_typedMux (now : List (WatcherMux.Output T)) :
    datagrams (now.map .typedMux) = [] := by
  simp [datagrams]

@[simp] theorem recvOut_map_typedMux (now : List (WatcherMux.Output T)) :
    recvOut (now.map .typedMux) = [] := by
  simp [recvOut]

@[simp] theorem typedOut_map_typedMux (now : List (WatcherMux.Output T)) :
    typedOut (now.map .typedMux) = now := by
  simp [typedOut, List.filterMap_map]

/-- The loop is in an iteration and has not called `Dispatch` yet. -/
def RecvLoop.inIteration : RecvLoop → Bool
  | .settingDeadline | .reading | .failed => true
  | .checking | .terminated => false

def DecodeLoop.inHand : DecodeLoop → List Nat
  | .decoding raw => [raw]
  | .notRunning | .selecting | .left => []

/-- The arrays whose dispatch has begun. -/
def copies (s : State T) (out : List (Output T)) : List Nat :=
  WatcherMux.dispatched (recvOut out) ++ s.recvMux.producing.pending

def decode (json : Json T) (heap : List Bytes) (raw : Nat) : Option T :=
  (heap[raw]?).bind json.unmarshal

/-- The copies hold what was read, and nobody is given the buffer itself. -/
structure Copied (recvBufSize : Nat) (s : State T) (out : List (Output T)) : Prop where
  buffer : s.heap[0]?.map List.length = some recvBufSize
  held : (copies s out).map (s.heap[·]?) =
    (datagrams out).map fun data => some (data.take recvBufSize)
  apart : ∀ raw ∈ copies s out, 0 < raw

/-- What the decode loop took is dispatched where it could be decoded. -/
def Decoded (json : Json T) (s : State T) (out : List (Output T)) : Prop :=
  ∃ handled, s.taken (recvOut out) = handled ++ s.decodeLoop.inHand ∧
    WatcherMux.dispatched (typedOut out) ++ s.typedMux.producing.pending =
      handled.filterMap (decode json s.heap)

structure Sound (json : Json T) (recvBufSize : Nat) (s : State T)
    (out : List (Output T)) : Prop where
  recv : s.recvMux.Sound (recvOut out)
  typed : s.typedMux.Sound (typedOut out)
  recvOutside : s.recvLoop.inIteration = true → s.recvMux.producing = .outside
  decodeOutside : s.decodeLoop.inHand ≠ [] → s.typedMux.producing = .outside
  notRunning : s.decodeLoop = .notRunning → s.rawRecvCh = none
  copied : Copied recvBufSize s out
  decoded : Decoded json s out

section Start

variable (recvBufSize capacity typedCapacity : Nat)
  (dispatchFunc typedDispatchFunc : DispatchFunc)

theorem sound_start (json : Json T) :
    Sound json recvBufSize
      (start recvBufSize capacity typedCapacity dispatchFunc typedDispatchFunc) [] where
  recv := Producer.sound_new capacity dispatchFunc
  typed := Producer.sound_new typedCapacity typedDispatchFunc
  recvOutside := by simp [start, RecvLoop.inIteration]
  decodeOutside := by simp [start, DecodeLoop.inHand]
  notRunning := fun _ => rfl
  copied := ⟨by simp [start], rfl, by simp [copies, start, Producer.new, recvOut,
    WatcherMux.dispatched, Producing.pending]⟩
  decoded := ⟨[], rfl, rfl⟩

end Start

/-! ## Reading -/

theorem getElem?_readInto {heap : List Bytes} {raw : Nat} (data : Bytes) (hpos : 0 < raw)
    (hlt : raw < heap.length) : (readInto heap data)[raw]? = heap[raw]? := by
  rw [readInto, List.getElem?_append_left (by simpa using hlt),
    List.getElem?_set_ne (by omega)]

theorem readInto_copy {recvBufSize : Nat} {heap : List Bytes} (data : Bytes)
    (hbuffer : heap[0]?.map List.length = some recvBufSize) :
    (readInto heap data)[heap.length]? = some (data.take recvBufSize) ∧
      (readInto heap data)[0]?.map List.length = some recvBufSize := by
  obtain ⟨buf, hbuf, hlength⟩ := Option.map_eq_some_iff.mp hbuffer
  have hget : heap.getD 0 [] = buf := by rw [List.getD_eq_getElem?_getD, hbuf, Option.getD_some]
  have hpos : 0 < heap.length := (List.getElem?_eq_some_iff.mp hbuf).1
  subst hlength
  have htake : (data.take buf.length).length = min data.length buf.length := by
    rw [List.length_take, Nat.min_comm]
  constructor
  · rw [readInto, hget, List.getElem?_append_right (by simp), List.length_set, Nat.sub_self,
      List.getElem?_cons_zero, ← htake, slice_writeAt_same]
    rw [htake, Nat.zero_add]
    exact Nat.min_le_right _ _
  · rw [readInto, hget, List.getElem?_append_left (by simpa using hpos),
      List.getElem?_set_self hpos, Option.map_some, length_writeAt]

theorem Copied.lt_length {recvBufSize : Nat} {s : State T} {out : List (Output T)}
    (h : Copied recvBufSize s out) {raw : Nat}
    (hraw : raw ∈ copies s out) : raw < s.heap.length := by
  have hmem : s.heap[raw]? ∈ (copies s out).map (s.heap[·]?) := List.mem_map_of_mem hraw
  rw [h.held] at hmem
  obtain ⟨data, -, hdata⟩ := List.mem_map.mp hmem
  exact (List.getElem?_eq_some_iff.mp hdata.symm).1

/-- A copy is never written again. -/
theorem Copied.getElem?_readInto {recvBufSize : Nat} {s : State T} {out : List (Output T)}
    (h : Copied recvBufSize s out) (data : Bytes) {raw : Nat} (hraw : raw ∈ copies s out) :
    (readInto s.heap data)[raw]? = s.heap[raw]? :=
  Receive.getElem?_readInto data (h.apart raw hraw) (h.lt_length hraw)

theorem taken_subset {json : Json T} {recvBufSize : Nat} {s : State T}
    {out : List (Output T)} (h : Sound json recvBufSize s out) :
    ∀ raw ∈ s.taken (recvOut out), raw ∈ copies s out := by
  intro raw hraw
  rw [copies, List.mem_append]
  cases hch : s.rawRecvCh with
  | none => simp [State.taken, hch] at hraw
  | some id =>
      rw [State.taken, hch] at hraw
      exact Or.inl ((h.recv.receivedBy_sublist id).subset hraw)

/-! ## One step -/

section Step

variable {json : Json T} {recvBufSize : Nat} {s : State T} {out : List (Output T)}

theorem Sound.setLoop (h : Sound json recvBufSize s out) (terminateCh typedTerminateCh : Bool)
    (recvLoop : RecvLoop)
    (houtside : recvLoop.inIteration = true → s.recvMux.producing = .outside) :
    Sound json recvBufSize { s with
      terminateCh := terminateCh
      typedTerminateCh := typedTerminateCh
      recvLoop := recvLoop } out :=
  ⟨h.recv, h.typed, houtside, h.decodeOutside, h.notRunning,
    ⟨h.copied.buffer, h.copied.held, h.copied.apart⟩, h.decoded⟩

theorem Sound.terminateRecvLoop (h : Sound json recvBufSize s out)
    (houtside : s.recvMux.producing = .outside) :
    Sound json recvBufSize s.terminateRecvLoop out := by
  have hcopies : copies s.terminateRecvLoop out = copies s out := by
    rw [copies, copies, houtside]
    rfl
  refine ⟨h.recv.setProducing houtside .closing, h.typed, ?_, h.decodeOutside, h.notRunning,
    ⟨h.copied.buffer, ?_, ?_⟩, h.decoded⟩
  · simp [State.terminateRecvLoop, RecvLoop.inIteration]
  · rw [hcopies]
    exact h.copied.held
  · rw [hcopies]
    exact h.copied.apart

theorem Sound.leaveDecodeLoop (h : Sound json recvBufSize s out)
    (hselecting : s.decodeLoop = .selecting) (houtside : s.typedMux.producing = .outside) :
    Sound json recvBufSize s.leaveDecodeLoop out := by
  obtain ⟨handled, htaken, hdispatched⟩ := h.decoded
  rw [hselecting] at htaken
  rw [houtside] at hdispatched
  exact ⟨h.recv, h.typed.setProducing houtside .closing, h.recvOutside,
    fun hne => absurd rfl hne, by simp [State.leaveDecodeLoop],
    ⟨h.copied.buffer, h.copied.held, h.copied.apart⟩, handled, htaken, hdispatched⟩

/-- The copy of a datagram is a new array, which the loop is about to dispatch. -/
theorem Sound.read (h : Sound json recvBufSize s out) (houtside : s.recvMux.producing = .outside)
    (data : Bytes) :
    Sound json recvBufSize { s with
      heap := readInto s.heap data
      recvLoop := .checking
      recvMux := { s.recvMux with producing := .calling s.heap.length } }
      (out ++ [.read data]) := by
  obtain ⟨hcopy, hbuffer⟩ := readInto_copy data h.copied.buffer
  have hpos : 0 < s.heap.length := by
    obtain ⟨buf, hbuf, -⟩ := Option.map_eq_some_iff.mp h.copied.buffer
    exact (List.getElem?_eq_some_iff.mp hbuf).1
  have hrecv : recvOut (out ++ [.read data]) = recvOut out := by simp [recvOut]
  have htyped : typedOut (out ++ [.read data]) = typedOut out := by simp [typedOut]
  have hbefore : copies s out = WatcherMux.dispatched (recvOut out) := by
    rw [copies, houtside]
    exact List.append_nil _
  have hcopies : copies { s with
      heap := readInto s.heap data
      recvLoop := .checking
      recvMux := { s.recvMux with producing := .calling s.heap.length } }
      (out ++ [.read data]) = copies s out ++ [s.heap.length] := by
    rw [hbefore, copies, hrecv]
    rfl
  refine ⟨?_, ?_, ?_, h.decodeOutside, h.notRunning, ⟨hbuffer, ?_, ?_⟩, ?_⟩
  · rw [hrecv]
    exact h.recv.setProducing houtside _
  · rw [htyped]
    exact h.typed
  · simp [RecvLoop.inIteration]
  · have hkept : (copies s out).map ((readInto s.heap data)[·]?) =
        (copies s out).map (s.heap[·]?) :=
      List.map_congr_left fun raw hraw => h.copied.getElem?_readInto data hraw
    rw [hcopies, List.map_append, hkept, h.copied.held]
    simp [datagrams, hcopy]
  · rw [hcopies]
    intro raw hraw
    rcases List.mem_append.mp hraw with hraw | hraw
    · exact h.copied.apart raw hraw
    · rw [List.mem_singleton.mp hraw]
      exact hpos
  · obtain ⟨handled, htaken, hdispatched⟩ := h.decoded
    refine ⟨handled, by rw [hrecv]; exact htaken, ?_⟩
    rw [htyped]
    refine hdispatched.trans (List.filterMap_congr ?_)
    intro raw hraw
    have hmem : raw ∈ s.taken (recvOut out) := by
      rw [htaken]
      exact List.mem_append_left _ hraw
    rw [decode, decode, h.copied.getElem?_readInto data (taken_subset h raw hmem)]

/-- A step of the multiplexer, which may bring the decode loop an array. -/
theorem Sound.recvMux (h : Sound json recvBufSize s out) {event : Producer.Event Nat}
    {recvMux : Producer Nat} {now : List (WatcherMux.Output Nat)} {decodeLoop : DecodeLoop}
    (hstep : s.recvMux.step event = .ok (recvMux, now))
    (htake : s.decodeLoop.take s.typedMux (s.taken now) = .ok decodeLoop) :
    Sound json recvBufSize { s with recvMux := recvMux, decodeLoop := decodeLoop }
      (out ++ now.map .recvMux) := by
  have hcopies : copies { s with recvMux := recvMux, decodeLoop := decodeLoop }
      (out ++ now.map .recvMux) = copies s out := by
    rw [copies, copies, recvOut_append, recvOut_map_recvMux, WatcherMux.dispatched_append,
      List.append_assoc, Producer.dispatched_append_pending hstep]
  have htaken : s.taken (recvOut (out ++ now.map .recvMux)) =
      s.taken (recvOut out) ++ s.taken now := by
    rw [recvOut_append, recvOut_map_recvMux]
    cases hch : s.rawRecvCh <;> simp [State.taken, hch]
  -- the loop keeps what it had in hand, or had nothing and is given one array
  have hloop : decodeLoop.inHand = s.decodeLoop.inHand ++ s.taken now ∧
      (decodeLoop.inHand ≠ [] → s.typedMux.producing = .outside) ∧
      (decodeLoop = .notRunning → s.decodeLoop = .notRunning) := by
    unfold DecodeLoop.take at htake
    split at htake
    · rename_i hnone
      cases htake
      rw [hnone, List.append_nil]
      exact ⟨rfl, h.decodeOutside, fun hloop => hloop⟩
    · rename_i raw hone
      split at htake <;> cases htake
      rename_i hselecting houtside
      rw [hone, hselecting]
      exact ⟨rfl, fun _ => houtside, fun hloop => by cases hloop⟩
    · cases htake
  obtain ⟨hinHand, houtside, hnotRunning⟩ := hloop
  refine ⟨?_, ?_, ?_, houtside, fun hloop => h.notRunning (hnotRunning hloop),
    ⟨h.copied.buffer, ?_, ?_⟩, ?_⟩
  · rw [recvOut_append, recvOut_map_recvMux]
    exact Producer.sound_step h.recv hstep
  · rw [typedOut_append, typedOut_map_recvMux, List.append_nil]
    exact h.typed
  · exact fun hiteration => Producer.producing_outside (h.recvOutside hiteration) hstep
  · rw [hcopies, datagrams_append, datagrams_map_recvMux, List.append_nil]
    exact h.copied.held
  · rw [hcopies]
    exact h.copied.apart
  · obtain ⟨handled, hhandled, hdispatched⟩ := h.decoded
    refine ⟨handled, ?_, ?_⟩
    · refine htaken.trans ?_
      rw [hhandled, hinHand, List.append_assoc]
    · rw [typedOut_append, typedOut_map_recvMux, List.append_nil]
      exact hdispatched

/-- The decode loop starts with a watcher that nobody has received from. -/
theorem Sound.typedRun (h : Sound json recvBufSize s out) (hloop : s.decodeLoop = .notRunning)
    {recvMux : Producer Nat} {now : List (WatcherMux.Output Nat)}
    (hstep : s.recvMux.step (.watch none) = .ok (recvMux, now)) :
    Sound json recvBufSize { s with
      recvMux := recvMux
      rawRecvCh := some s.recvMux.mux.watchers.length
      decodeLoop := .selecting } (out ++ now.map .recvMux) := by
  have hquiet : s.decodeLoop.take s.typedMux (s.taken now) = .ok s.decodeLoop := by
    rw [State.taken, h.notRunning hloop]
    rfl
  have hnext := h.recvMux hstep hquiet
  have hnow : now = [] := by
    cases hstep
    rfl
  subst hnow
  have hnone := h.recv.receivedBy_eq_nil (Nat.le_refl s.recvMux.mux.watchers.length)
  obtain ⟨handled, htaken, hdispatched⟩ := hnext.decoded
  have hnil : handled = [] := by
    rw [State.taken, h.notRunning hloop] at htaken
    exact (List.append_eq_nil_iff.mp htaken.symm).1
  subst hnil
  refine ⟨hnext.recv, hnext.typed, hnext.recvOutside, fun hne => absurd rfl hne,
    (fun hloop => by cases hloop),
    ⟨hnext.copied.buffer, hnext.copied.held, hnext.copied.apart⟩, [], ?_, hdispatched⟩
  simpa [State.taken, DecodeLoop.inHand, recvOut] using hnone

/-- What the loop has in hand is decoded or skipped. -/
theorem Sound.unmarshal (h : Sound json recvBufSize s out) {raw : Nat}
    (hloop : s.decodeLoop = .decoding raw) (producing : Producing T)
    (hproducing : producing.pending = (decode json s.heap raw).toList) :
    Sound json recvBufSize { s with
      decodeLoop := .selecting
      typedMux := { s.typedMux with producing := producing } } out := by
  have houtside : s.typedMux.producing = .outside :=
    h.decodeOutside (by rw [hloop]; simp [DecodeLoop.inHand])
  obtain ⟨handled, htaken, hdispatched⟩ := h.decoded
  rw [hloop] at htaken
  rw [houtside] at hdispatched
  refine ⟨h.recv, h.typed.setProducing houtside producing, h.recvOutside,
    fun hne => absurd rfl hne, (fun hloop => by cases hloop),
    ⟨h.copied.buffer, h.copied.held, h.copied.apart⟩, handled ++ [raw], ?_, ?_⟩
  · exact htaken.trans (List.append_nil _).symm
  · rw [hproducing, List.filterMap_append, ← hdispatched]
    cases hdecode : decode json s.heap raw <;> simp [hdecode, Producing.pending]

theorem Sound.typedMux (h : Sound json recvBufSize s out) {event : Producer.Event T}
    {typedMux : Producer T} {now : List (WatcherMux.Output T)}
    (hstep : s.typedMux.step event = .ok (typedMux, now)) :
    Sound json recvBufSize { s with typedMux := typedMux } (out ++ now.map .typedMux) := by
  have hrecv : recvOut (out ++ now.map .typedMux) = recvOut out := by simp
  have hdatagrams : datagrams (out ++ now.map .typedMux) = datagrams out := by simp
  refine ⟨?_, ?_, h.recvOutside, ?_, h.notRunning, ⟨h.copied.buffer, ?_, ?_⟩, ?_⟩
  · rw [hrecv]
    exact h.recv
  · rw [typedOut_append, typedOut_map_typedMux]
    exact Producer.sound_step h.typed hstep
  · exact fun hne => Producer.producing_outside (h.decodeOutside hne) hstep
  · rw [copies, hrecv, hdatagrams]
    exact h.copied.held
  · rw [copies, hrecv]
    exact h.copied.apart
  · obtain ⟨handled, htaken, hdispatched⟩ := h.decoded
    refine ⟨handled, by rw [hrecv]; exact htaken, ?_⟩
    rw [typedOut_append, typedOut_map_typedMux, WatcherMux.dispatched_append,
      List.append_assoc, Producer.dispatched_append_pending hstep]
    exact hdispatched

theorem sound_step (h : Sound json recvBufSize s out) {event : Event T} {next : State T}
    {now : List (Output T)} (hstep : step json s event = .ok (next, now)) :
    Sound json recvBufSize next (out ++ now) := by
  cases event with
  | terminate | typedTerminate =>
      simp only [step] at hstep
      split at hstep <;> cases hstep
      rw [List.append_nil]
      exact h.setLoop _ _ s.recvLoop h.recvOutside
  | check =>
      simp only [step] at hstep
      split at hstep
      · rename_i hloop houtside
        split at hstep <;> cases hstep <;> rw [List.append_nil]
        · exact h.terminateRecvLoop houtside
        · exact h.setLoop _ _ .settingDeadline fun _ => houtside
      · cases hstep
  | setReadDeadline fails =>
      simp only [step] at hstep
      split at hstep <;> cases hstep
      rename_i hloop
      rw [List.append_nil]
      exact h.setLoop _ _ _ fun _ => h.recvOutside (by rw [hloop]; rfl)
  | readFrom result =>
      simp only [step] at hstep
      split at hstep
      · rename_i hloop
        have houtside := h.recvOutside (by rw [hloop]; rfl)
        split at hstep <;> cases hstep
        · rw [List.append_nil]
          exact h.setLoop _ _ _ fun _ => houtside
        · rw [List.append_nil]
          exact h.setLoop _ _ _ fun _ => houtside
        · exact h.read houtside _
      · cases hstep
  | checkAgain =>
      simp only [step] at hstep
      split at hstep
      · rename_i hloop
        have houtside := h.recvOutside (by rw [hloop]; rfl)
        split at hstep <;> cases hstep <;> rw [List.append_nil]
        · exact h.terminateRecvLoop houtside
        · exact h.setLoop _ _ _ fun _ => houtside
      · cases hstep
  | recvMux event =>
      simp only [step, bind_eq_ok, Prod.exists] at hstep
      obtain ⟨recvMux, outputs, hmux, decodeLoop, htake, hnext⟩ := hstep
      cases hnext
      exact h.recvMux hmux htake
  | typedRun =>
      simp only [step] at hstep
      split at hstep
      · rename_i hloop
        simp only [bind_eq_ok, Prod.exists] at hstep
        obtain ⟨recvMux, outputs, hmux, hnext⟩ := hstep
        cases hnext
        exact h.typedRun hloop hmux
      · cases hstep
  | unmarshal =>
      simp only [step] at hstep
      split at hstep
      · rename_i raw hloop
        split at hstep <;> cases hstep <;> rw [List.append_nil]
        · rename_i hdecode
          have houtside := h.decodeOutside (by rw [hloop]; simp [DecodeLoop.inHand])
          refine h.unmarshal hloop s.typedMux.producing ?_
          rw [decode, hdecode, houtside]
          rfl
        · rename_i v hdecode
          refine h.unmarshal hloop (.calling v) ?_
          rw [decode, hdecode]
          rfl
      · cases hstep
  | leave =>
      simp only [step] at hstep
      split at hstep
      · rename_i hloop houtside
        split at hstep <;> cases hstep
        rw [List.append_nil]
        exact h.leaveDecodeLoop hloop houtside
      · cases hstep
  | rawClosed =>
      simp only [step] at hstep
      split at hstep
      · rename_i hloop houtside _
        split at hstep <;> cases hstep
        rw [List.append_nil]
        exact h.leaveDecodeLoop hloop houtside
      · cases hstep
  | typedMux event =>
      simp only [step, bind_eq_ok, Prod.exists] at hstep
      obtain ⟨typedMux, outputs, hmux, hnext⟩ := hstep
      cases hnext
      exact h.typedMux hmux

end Step

/-! ## What the watchers receive -/

theorem Sound.received_sublist {json : Json T} {recvBufSize : Nat} {s : State T}
    {out : List (Output T)} (h : Sound json recvBufSize s out) (id : Nat) :
    ((WatcherMux.receivedBy id (recvOut out)).map (s.heap[·]?)).Sublist
      ((datagrams out).map fun data => some (data.take recvBufSize)) := by
  rw [← h.copied.held]
  exact ((h.recv.receivedBy_sublist id).trans (List.sublist_append_left _ _)).map _

/-- The decode loop has taken a part of the datagrams. -/
theorem Sound.taken_sublist {json : Json T} {recvBufSize : Nat} {s : State T}
    {out : List (Output T)} (h : Sound json recvBufSize s out) :
    ((s.taken (recvOut out)).map (s.heap[·]?)).Sublist
      ((datagrams out).map fun data => some (data.take recvBufSize)) := by
  unfold State.taken
  cases s.rawRecvCh with
  | none => exact List.nil_sublist _
  | some id => exact h.received_sublist id

theorem Sound.typed_sublist {json : Json T} {recvBufSize : Nat} {s : State T}
    {out : List (Output T)} (h : Sound json recvBufSize s out) (id : Nat) :
    (WatcherMux.receivedBy id (typedOut out)).Sublist
      ((datagrams out).filterMap fun data => json.unmarshal (data.take recvBufSize)) := by
  obtain ⟨handled, htaken, hdispatched⟩ := h.decoded
  have hhandled : (handled.map (s.heap[·]?)).Sublist
      ((datagrams out).map fun data => some (data.take recvBufSize)) := by
    refine List.Sublist.trans ?_ h.taken_sublist
    rw [htaken]
    exact (List.sublist_append_left _ _).map _
  have hdecoded : handled.filterMap (decode json s.heap) =
      (handled.map (s.heap[·]?)).filterMap (·.bind json.unmarshal) := by
    rw [List.filterMap_map]
    rfl
  have hread : ((datagrams out).map fun data => some (data.take recvBufSize)).filterMap
      (·.bind json.unmarshal) =
      (datagrams out).filterMap fun data => json.unmarshal (data.take recvBufSize) := by
    rw [List.filterMap_map]
    rfl
  calc (WatcherMux.receivedBy id (typedOut out)).Sublist
        (WatcherMux.dispatched (typedOut out)) := h.typed.receivedBy_sublist id
    List.Sublist _ (WatcherMux.dispatched (typedOut out) ++ s.typedMux.producing.pending) :=
        List.sublist_append_left _ _
    _ = handled.filterMap (decode json s.heap) := hdispatched
    _ = (handled.map (s.heap[·]?)).filterMap (·.bind json.unmarshal) := hdecoded
    List.Sublist _ (((datagrams out).map fun data => some (data.take recvBufSize)).filterMap
        (·.bind json.unmarshal)) := hhandled.filterMap _
    _ = _ := hread

/-! ## Runs -/

theorem sound_run {json : Json T} {recvBufSize capacity typedCapacity : Nat}
    {dispatchFunc typedDispatchFunc : DispatchFunc} {events : List (Event T)} {last : State T}
    {out : List (Output T)}
    (hrun : run (step json)
      (start recvBufSize capacity typedCapacity dispatchFunc typedDispatchFunc) events =
        .ok (last, out)) : Sound json recvBufSize last out := by
  refine run_keeps (Sound json recvBufSize) (sound_start _ _ _ _ _ json) ?_ hrun
  intro s now event next now' h hstep
  exact sound_step h hstep

/--
At any moment of any run: an array that a watcher has received still holds the
datagram that it was made for, however often the buffer was overwritten since; the
watcher's datagrams come in the order in which they were read, none twice.  The
values that a watcher of the typed cluster has received are decoded from datagrams
in that order; a malformed one in between is skipped and stops nothing.
-/
theorem received_as_read (json : Json T) (recvBufSize capacity typedCapacity : Nat)
    (dispatchFunc typedDispatchFunc : DispatchFunc) (events : List (Event T)) (last : State T)
    (out : List (Output T))
    (hrun : run (step json)
      (start recvBufSize capacity typedCapacity dispatchFunc typedDispatchFunc) events =
        .ok (last, out)) (id : Nat) :
    ((WatcherMux.receivedBy id (recvOut out)).map (last.heap[·]?)).Sublist
      ((datagrams out).map fun data => some (data.take recvBufSize)) ∧
    (WatcherMux.receivedBy id (typedOut out)).Sublist
      ((datagrams out).filterMap fun data => json.unmarshal (data.take recvBufSize)) := by
  have h := sound_run hrun
  exact ⟨h.received_sublist id, h.typed_sublist id⟩

def boolJson : Json Bool := ⟨fun v => some (boolText v), readBool⟩

/-- The receive loop reads a datagram and dispatches it to the decode loop alone. -/
def readEvents (data : Bytes) : List (Event Bool) :=
  [.check, .setReadDeadline false, .readFrom (.datagram data), .recvMux (.snapshot [0]),
    .recvMux (.select .send), .recvMux .dispatched]

def decodeEvents : List (Event Bool) :=
  [.recvMux (.receive 0), .unmarshal, .typedMux (.snapshot [0]), .typedMux (.select .send),
    .typedMux .dispatched, .typedMux (.receive 0)]

/-- Three datagrams are read before the first is decoded; the second is malformed. -/
def exampleEvents : List (Event Bool) :=
  [.typedRun, .typedMux (.watch none)] ++ readEvents (boolText true) ++
    readEvents [7, 7] ++ readEvents (boolText false) ++ decodeEvents ++
    [.recvMux (.receive 0), .unmarshal] ++ decodeEvents

theorem received_as_read_overwritten :
    ∃ last out,
      run (step boolJson) (start 6 3 3 .nonBlocking .nonBlocking) exampleEvents =
        .ok (last, out) ∧
      last.heap[0]? = some (boolText false ++ [0]) ∧
      WatcherMux.receivedBy 0 (typedOut out) = [true, false] ∧
      (WatcherMux.receivedBy 0 (typedOut out)).Sublist
        ((datagrams out).filterMap fun data => boolJson.unmarshal (data.take 6)) := by
  obtain ⟨⟨last, out⟩, hrun, hbuffer, hreceived⟩ :
      Returns (run (step boolJson) (start 6 3 3 .nonBlocking .nonBlocking) exampleEvents)
        fun result => result.1.heap[0]? = some (boolText false ++ [0]) ∧
          WatcherMux.receivedBy 0 (typedOut result.2) = [true, false] :=
    ⟨_, rfl, by decide, by decide⟩
  exact ⟨last, out, hrun, hbuffer, hreceived,
    (received_as_read boolJson 6 3 3 .nonBlocking .nonBlocking exampleEvents last out hrun 0).2⟩

end Udplb.Cluster.Receive
