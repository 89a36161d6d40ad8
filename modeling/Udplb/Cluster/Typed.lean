import Udplb.Cluster.Receive
import Udplb.Cluster.SendLoop

/-!
# From one node to another

`Send` of a typed cluster starts a goroutine for the channel it is given: it
encodes the values, skips those that cannot be encoded, and hands the bytes to
the unbuffered `rawSendCh`, which is one of the sources of the send loop.  With
the network in between, the send loop of one node and the receive loop of another
carry values from the channels of the senders to the watchers of the receiver.
-/

namespace Udplb.Cluster.Typed

open Udplb.Foundation Udplb.Util Receive

variable {T : Type}

inductive Sender where
  | receiving
  | sending (buf : Bytes)
  | returned

def Sender.hasReturned : Sender → Bool
  | .returned => true
  | .receiving | .sending _ => false

/-- A channel that `Send` was called with, and its goroutine. -/
structure Channel (T : Type) where
  /-- What can still be received from the channel. -/
  ch : List T
  sender : Sender

structure State (T : Type) where
  channels : List (Channel T)
  terminateCh : Bool

inductive Stop where
  | blocked
  deriving DecidableEq, Repr

inductive Event where
  | terminate
  | receive (i : Nat)
  | closed (i : Nat)
  | leave (i : Nat)
  | handOver (i : Nat)
  deriving DecidableEq, Repr

def start (sequences : List (List T)) : State T :=
  ⟨sequences.map fun sequence => ⟨sequence, .receiving⟩, false⟩

/-- The output is what `rawSendCh` is handed, with the number of its channel. -/
def step (json : Json T) (s : State T) :
    Event → Except Stop (State T × List (Nat × Bytes))
  | .terminate =>
      if s.terminateCh then .error .blocked else .ok ({ s with terminateCh := true }, [])
  | .receive i =>
      match s.channels[i]? with
      | some ⟨v :: ch, .receiving⟩ =>
          match json.marshal v with
          | none => .ok ({ s with channels := s.channels.set i ⟨ch, .receiving⟩ }, [])
          | some buf => .ok ({ s with channels := s.channels.set i ⟨ch, .sending buf⟩ }, [])
      | _ => .error .blocked
  | .closed i =>
      match s.channels[i]? with
      | some ⟨[], .receiving⟩ =>
          .ok ({ s with channels := s.channels.set i ⟨[], .returned⟩ }, [])
      | _ => .error .blocked
  | .leave i =>
      match s.channels[i]? with
      | some channel =>
          if s.terminateCh = true ∧ channel.sender.hasReturned = false then
            .ok ({ s with channels := s.channels.set i ⟨channel.ch, .returned⟩ }, [])
          else .error .blocked
      | none => .error .blocked
  | .handOver i =>
      match s.channels[i]? with
      | some ⟨ch, .sending buf⟩ =>
          .ok ({ s with channels := s.channels.set i ⟨ch, .receiving⟩ }, [(i, buf)])
      | _ => .error .blocked

/-! ## What a channel contributes -/

/-- What a channel still brings, encoded, as long as its goroutine has not returned. -/
def Channel.pending (json : Json T) : Channel T → Option (List Bytes)
  | ⟨ch, .receiving⟩ => some (ch.filterMap json.marshal)
  | ⟨ch, .sending buf⟩ => some (buf :: ch.filterMap json.marshal)
  | ⟨_, .returned⟩ => none

/-- The encoded values of the channels. -/
def encoded (json : Json T) (sequences : List (List T)) : List (List Bytes) :=
  sequences.map (·.filterMap json.marshal)

theorem accounted_start (json : Json T) (sequences : List (List T)) :
    Accounted (Channel.pending json) (encoded json sequences) (start sequences).channels
      [] := by
  refine ⟨by simp [start, encoded], by simp, ?_⟩
  intro i values channel hvalues hchannel
  simp only [start, encoded, List.getElem?_map] at hvalues hchannel
  obtain ⟨sequence, hsequence, rfl⟩ := Option.map_eq_some_iff.mp hvalues
  rw [hsequence, Option.map_some, Option.some.injEq] at hchannel
  subst hchannel
  rfl

theorem accounted_step {json : Json T} {values : List (List Bytes)} {s next : State T}
    {sent now : List (Nat × Bytes)} {event : Event}
    (h : Accounted (Channel.pending json) values s.channels sent)
    (hstep : step json s event = .ok (next, now)) :
    Accounted (Channel.pending json) values next.channels (sent ++ now) := by
  cases event with
  | terminate =>
      simp only [step] at hstep
      split at hstep <;> cases hstep
      rwa [List.append_nil]
  | receive i =>
      simp only [step] at hstep
      split at hstep
      · rename_i v ch hchannel
        split at hstep <;> cases hstep
        all_goals
          rename_i hmarshal
          rw [List.append_nil]
          exact h.keep hchannel (by simp [Channel.pending, hmarshal])
      · cases hstep
  | closed i =>
      simp only [step] at hstep
      split at hstep <;> cases hstep
      rename_i hchannel
      rw [List.append_nil]
      exact h.giveUp hchannel rfl
  | leave i =>
      simp only [step] at hstep
      split at hstep
      · rename_i channel hchannel
        split at hstep <;> cases hstep
        rw [List.append_nil]
        exact h.giveUp hchannel rfl
      · cases hstep
  | handOver i =>
      simp only [step] at hstep
      split at hstep <;> cases hstep
      rename_i ch buf hchannel
      exact h.take hchannel rfl rfl

/-- In any run, `rawSendCh` carries an interleaving of the fronts of the channels. -/
theorem sent_fronts {json : Json T} {sequences : List (List T)} {events : List Event}
    {last : State T} {sent : List (Nat × Bytes)}
    (hrun : run (step json) (start sequences) events = .ok (last, sent)) :
    InterleavesFronts (encoded json sequences) (sent.map Prod.snd) := by
  have h : Accounted (Channel.pending json) (encoded json sequences) last.channels sent := by
    refine run_keeps
      (fun s sent => Accounted (Channel.pending json) (encoded json sequences) s.channels sent)
      (accounted_start json sequences) ?_ hrun
    intro s now event next now' h hstep
    exact accounted_step h hstep
  exact h.interleavesFronts

/-! ## From the channels of one node to the watchers of another -/

/-- The values of a channel as JSON brings them back, without those it cannot carry. -/
def carried (json : Json T) (sequence : List T) : List T :=
  sequence.filterMap fun v => (json.marshal v).bind json.unmarshal

theorem encoded_filterMap_unmarshal (json : Json T) (sequences : List (List T)) :
    (encoded json sequences).map (·.filterMap json.unmarshal) =
      sequences.map (carried json) := by
  simp [encoded, carried, List.map_map, Function.comp_def, List.filterMap_filterMap]

/--
Several typed clusters of one node send through its send loop, and a network that
may lose datagrams but keeps their order carries what a peer is written to the
receive loop there, whose buffer is large enough for them.  At any moment, a watcher
of the peer's typed cluster has received a part of an interleaving of what the
clusters have sent, and each of them has sent an interleaving of the fronts of its
channels: every value as JSON brings it back, at most as often as it was sent, and
those of one channel in their order.
-/
theorem received_as_sent (json : Json T)
    (clusters : List (List (List T))) (sent : List (List (Nat × Bytes)))
    (hsent : List.Forall₂ (fun sequences sent => ∃ events last,
      run (step json) (start sequences) events = .ok (last, sent)) clusters sent)
    (nodeId : UUID) (nodes : SendLoop.NodeMap) (sendEvents : List SendLoop.Event)
    (sender : SendLoop.State Bytes) (sendOut : List (SendLoop.Output Bytes))
    (hsend : run (SendLoop.step nodeId nodes)
      (SendLoop.start (sent.map (·.map Prod.snd))) sendEvents = .ok (sender, sendOut))
    (peer : SendLoop.Node) (hpeer : peer ∈ SendLoop.nextPeers nodeId nodes)
    (recvBufSize capacity typedCapacity : Nat)
    (dispatchFunc typedDispatchFunc : DispatchFunc) (events : List (Receive.Event T))
    (receiver : Receive.State T) (out : List (Receive.Output T))
    (hreceive : run (Receive.step json)
      (Receive.start recvBufSize capacity typedCapacity dispatchFunc typedDispatchFunc)
      events = .ok (receiver, out))
    (hnetwork : (datagrams out).Sublist (SendLoop.written peer.id sendOut))
    (hsize : ∀ data ∈ datagrams out, data.length ≤ recvBufSize) (id : Nat) :
    ∃ taken whole, Interleaves taken whole ∧
      (WatcherMux.receivedBy id (typedOut out)).Sublist whole ∧
      List.Forall₂ (fun part sequences =>
        InterleavesFronts (sequences.map (carried json)) part) taken clusters := by
  obtain ⟨taken, htaken, hinterleaves⟩ := (SendLoop.sound_run hsend).written_fronts hpeer
  refine ⟨taken.map (·.filterMap json.unmarshal), _, hinterleaves.filterMap json.unmarshal,
    ?_, ?_⟩
  · have hwhole : ((datagrams out).filterMap fun data =>
        json.unmarshal (data.take recvBufSize)) =
        (datagrams out).filterMap json.unmarshal := by
      apply List.filterMap_congr
      intro data hdata
      rw [List.take_of_length_le (hsize data hdata)]
    refine ((sound_run hreceive).typed_sublist id).trans ?_
    rw [hwhole]
    exact hnetwork.filterMap _
  · rw [List.forall₂_map_left_iff]
    rw [List.forall₂_map_right_iff] at htaken
    rw [List.forall₂_iff_get] at htaken hsent ⊢
    refine ⟨htaken.1.trans hsent.1.symm, ?_⟩
    intro i hi hi'
    obtain ⟨clusterEvents, last, hrun⟩ := hsent.2 i hi' (by omega)
    have hfronts := ((sent_fronts hrun).of_isPrefix
      (htaken.2 i hi (by omega))).filterMap json.unmarshal
    rw [encoded_filterMap_unmarshal] at hfronts
    exact hfronts

/-- The first cluster has two channels; the second value of the first comes last. -/
def exampleClusters : List (List (List Bool)) := [[[true, false], [true]], [[false]]]

def exampleSent : List (List (Nat × Bytes)) :=
  [[(0, boolText true), (1, boolText true), (0, boolText false)], [(0, boolText false)]]

def exampleSend : List SendLoop.Event :=
  [.receive 0, .receive 1,
    .merge 1 (SendLoop.nextPeers (Vector.replicate 16 1) SendLoop.exampleNodes), .write, .write,
    .merge 0 (SendLoop.nextPeers (Vector.replicate 16 1) SendLoop.exampleNodes), .write, .write]

/-- The network loses the first of two datagrams. -/
def exampleReceive : List (Receive.Event Bool) :=
  [.typedRun, .typedMux (.watch none)] ++ readEvents (boolText true) ++ decodeEvents

theorem received_as_sent_two_clusters :
    ∃ sender sendOut receiver out,
      run (SendLoop.step (Vector.replicate 16 1) SendLoop.exampleNodes)
        (SendLoop.start (exampleSent.map (·.map Prod.snd))) exampleSend =
          .ok (sender, sendOut) ∧
      SendLoop.written (Vector.replicate 16 2) sendOut = [boolText false, boolText true] ∧
      run (Receive.step boolJson) (Receive.start 6 3 3 .nonBlocking .nonBlocking)
        exampleReceive = .ok (receiver, out) ∧
      WatcherMux.receivedBy 0 (typedOut out) = [true] ∧
      ∃ taken whole, Interleaves taken whole ∧
        (WatcherMux.receivedBy 0 (typedOut out)).Sublist whole ∧
        List.Forall₂ (fun part sequences =>
          InterleavesFronts (sequences.map (carried boolJson)) part) taken
            exampleClusters := by
  obtain ⟨⟨sender, sendOut⟩, hsend, hwritten⟩ :
      Returns (run (SendLoop.step (Vector.replicate 16 1) SendLoop.exampleNodes)
        (SendLoop.start (exampleSent.map (·.map Prod.snd))) exampleSend) fun result =>
          SendLoop.written (Vector.replicate 16 2) result.2 = [boolText false, boolText true] :=
    ⟨_, rfl, by decide⟩
  obtain ⟨⟨receiver, out⟩, hreceive, hreceived, hdatagrams⟩ :
      Returns (run (Receive.step boolJson) (Receive.start 6 3 3 .nonBlocking .nonBlocking)
        exampleReceive) fun result =>
          WatcherMux.receivedBy 0 (typedOut result.2) = [true] ∧
            datagrams result.2 = [boolText true] :=
    ⟨_, rfl, by decide, by decide⟩
  have hsent : List.Forall₂ (fun sequences sent => ∃ events last,
      run (step boolJson) (start sequences) events = .ok (last, sent))
      exampleClusters exampleSent :=
    .cons ⟨[.receive 0, .handOver 0, .receive 1, .receive 0, .handOver 1, .handOver 0], _, rfl⟩
      (.cons ⟨[.receive 0, .handOver 0], _, rfl⟩ .nil)
  refine ⟨sender, sendOut, receiver, out, hsend, hwritten, hreceive, hreceived, ?_⟩
  refine received_as_sent boolJson exampleClusters exampleSent hsent (Vector.replicate 16 1)
    SendLoop.exampleNodes exampleSend sender sendOut hsend
    ⟨Vector.replicate 16 2, "10.0.0.2:7000"⟩ (by decide) 6 3 3 .nonBlocking .nonBlocking
    exampleReceive receiver out hreceive ?_ ?_ 0
  · rw [hdatagrams, hwritten]
    decide
  · rw [hdatagrams]
    decide

end Udplb.Cluster.Typed
