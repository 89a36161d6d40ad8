import Udplb.Foundation.AssocMap
import Udplb.Foundation.Interleaving
import Udplb.Foundation.Trace
import Udplb.Types

/-!
# The send loop of the cluster multiplexer

Each send source has a goroutine that moves its messages to the unbuffered
`merged` channel.  The send loop takes them from there and writes each one to all
peers before it takes the next.  Closing `terminateCh` makes the goroutines and
the loop leave at their next select; a message that a goroutine has received but
not handed over is then lost.

A source is a channel of its own.  Asking for the peers, dialling and writing
succeed, and the node map does not change.
-/

namespace Udplb.Cluster.SendLoop

open Udplb.Foundation

structure Node where
  id : UUID
  addr : String
  deriving DecidableEq, Repr

/-- The map of all known members; a node is stored under its own id. -/
structure NodeMap where
  nodes : List Node
  nodup : (nodes.map (·.id)).Nodup

/-- The peers in the fully connected topology, up to the order of the map. -/
def nextPeers (self : UUID) (nodes : NodeMap) : List Node :=
  nodes.nodes.filter (·.id ≠ self)

variable {α : Type}

/-- Where the goroutine of a source is. -/
inductive Merger (α : Type) where
  | receiving
  | sending (data : α)
  | returned

def Merger.hasReturned : Merger α → Bool
  | .returned => true
  | .receiving | .sending _ => false

structure Source (α : Type) where
  /-- What can still be received from the channel. -/
  ch : List α
  merger : Merger α

/-- Where the send loop is; a message in work has peers left to write it to. -/
inductive Sender (α : Type) where
  | selecting
  | writing (data : α) (peers : List Node)
  | terminated

structure State (α : Type) where
  sources : List (Source α)
  terminateCh : Bool
  mergedClosed : Bool
  /-- The open connections; a connection is known by the address dialled. -/
  conns : AssocMap UUID String
  sender : Sender α

inductive Stop where
  | blocked
  deriving DecidableEq, Repr

/-- The peers of a `merge` come in the iteration order of the map. -/
inductive Event where
  | terminate
  | receive (i : Nat)
  | sourceClosed (i : Nat)
  | leave (i : Nat)
  | merge (i : Nat) (peers : List Node)
  | closeMerged
  | write
  | finish
  | stop

inductive Output (α : Type) where
  | merged (source : Nat) (data : α)
  | wrote (peer : UUID) (conn : String) (data : α)

def start (sequences : List (List α)) : State α where
  sources := sequences.map fun sequence => ⟨sequence, .receiving⟩
  terminateCh := false
  mergedClosed := false
  conns := ∅
  sender := .selecting

def getOrDialConn (conns : AssocMap UUID String) (peer : Node) :
    String × AssocMap UUID String :=
  match conns.lookup peer.id with
  | some conn => (conn, conns)
  | none => (peer.addr, conns.insert peer.id peer.addr)

/-- The loop over the peers; it goes back to the select after the last one. -/
def Sender.next (data : α) : List Node → Sender α
  | [] => .selecting
  | peer :: peers => .writing data (peer :: peers)

def step (nodeId : UUID) (nodes : NodeMap) (s : State α) :
    Event → Except Stop (State α × List (Output α))
  | .terminate =>
      if s.terminateCh then .error .blocked
      else .ok ({ s with terminateCh := true }, [])
  | .receive i =>
      match s.sources[i]? with
      | some ⟨data :: ch, .receiving⟩ =>
          .ok ({ s with sources := s.sources.set i ⟨ch, .sending data⟩ }, [])
      | _ => .error .blocked
  | .sourceClosed i =>
      match s.sources[i]? with
      | some ⟨[], .receiving⟩ =>
          .ok ({ s with sources := s.sources.set i ⟨[], .returned⟩ }, [])
      | _ => .error .blocked
  | .leave i =>
      match s.sources[i]? with
      | some source =>
          if s.terminateCh = true ∧ source.merger.hasReturned = false then
            .ok ({ s with sources := s.sources.set i ⟨source.ch, .returned⟩ }, [])
          else .error .blocked
      | none => .error .blocked
  | .merge i peers =>
      match s.sources[i]?, s.sender with
      | some ⟨ch, .sending data⟩, .selecting =>
          if peers.Perm (nextPeers nodeId nodes) then
            .ok ({ s with
              sources := s.sources.set i ⟨ch, .receiving⟩
              sender := .next data peers }, [.merged i data])
          else .error .blocked
      | _, _ => .error .blocked
  | .closeMerged =>
      if s.mergedClosed = false ∧
          s.sources.all (fun source => source.merger.hasReturned) = true then
        .ok ({ s with mergedClosed := true }, [])
      else .error .blocked
  | .write =>
      match s.sender with
      | .writing data (peer :: peers) =>
          let (conn, conns) := getOrDialConn s.conns peer
          .ok ({ s with conns := conns, sender := .next data peers },
            [.wrote peer.id conn data])
      | _ => .error .blocked
  | .finish =>
      match s.sender with
      | .selecting =>
          if s.mergedClosed then .ok ({ s with conns := ∅, sender := .terminated }, [])
          else .error .blocked
      | _ => .error .blocked
  | .stop =>
      match s.sender with
      | .selecting =>
          if s.terminateCh then .ok ({ s with conns := ∅, sender := .terminated }, [])
          else .error .blocked
      | _ => .error .blocked

/-- What a step that is taken does. -/
inductive Steps (nodeId : UUID) (nodes : NodeMap) (s : State α) :
    State α → List (Output α) → Prop
  | signalled (terminateCh mergedClosed : Bool) :
      Steps nodeId nodes s
        { s with terminateCh := terminateCh, mergedClosed := mergedClosed } []
  | received (i : Nat) (data : α) (ch : List α)
      (hsource : s.sources[i]? = some ⟨data :: ch, .receiving⟩) :
      Steps nodeId nodes s
        { s with sources := s.sources.set i ⟨ch, .sending data⟩ } []
  | returned (i : Nat) (source : Source α) (hsource : s.sources[i]? = some source) :
      Steps nodeId nodes s
        { s with sources := s.sources.set i ⟨source.ch, .returned⟩ } []
  | merged (i : Nat) (peers : List Node) (data : α) (ch : List α)
      (hsource : s.sources[i]? = some ⟨ch, .sending data⟩)
      (hsender : s.sender = .selecting) (hpeers : peers.Perm (nextPeers nodeId nodes)) :
      Steps nodeId nodes s
        { s with
          sources := s.sources.set i ⟨ch, .receiving⟩
          sender := .next data peers } [.merged i data]
  | wrote (data : α) (peer : Node) (peers : List Node)
      (hsender : s.sender = .writing data (peer :: peers)) :
      Steps nodeId nodes s
        { s with conns := (getOrDialConn s.conns peer).2, sender := .next data peers }
        [.wrote peer.id (getOrDialConn s.conns peer).1 data]
  | terminated (hsender : s.sender = .selecting) :
      Steps nodeId nodes s { s with conns := ∅, sender := .terminated } []

theorem steps_of_step {nodeId : UUID} {nodes : NodeMap} {s next : State α}
    {event : Event} {now : List (Output α)}
    (hstep : step nodeId nodes s event = .ok (next, now)) :
    Steps nodeId nodes s next now := by
  cases event with
  | terminate =>
      simp only [step] at hstep
      split at hstep <;> cases hstep
      exact .signalled true s.mergedClosed
  | receive i =>
      simp only [step] at hstep
      split at hstep <;> cases hstep
      exact .received i _ _ (by assumption)
  | sourceClosed i =>
      simp only [step] at hstep
      split at hstep <;> cases hstep
      exact .returned i _ (by assumption)
  | leave i =>
      simp only [step] at hstep
      split at hstep
      · split at hstep <;> cases hstep
        exact .returned i _ (by assumption)
      · cases hstep
  | merge i peers =>
      simp only [step] at hstep
      split at hstep
      · split at hstep <;> cases hstep
        exact .merged i peers _ _ (by assumption) (by assumption) (by assumption)
      · cases hstep
  | closeMerged =>
      simp only [step] at hstep
      split at hstep <;> cases hstep
      exact .signalled s.terminateCh true
  | write =>
      simp only [step] at hstep
      split at hstep <;> cases hstep
      exact .wrote _ _ _ (by assumption)
  | finish | stop =>
      simp only [step] at hstep
      split at hstep
      · split at hstep <;> cases hstep
        exact .terminated (by assumption)
      · cases hstep

/-! ## What was merged and what was written -/

/-- The messages that reached the loop, with the number of their source. -/
def merged (out : List (Output α)) : List (Nat × α) :=
  out.filterMap fun
    | .merged i data => some (i, data)
    | .wrote _ _ _ => none

def written (peer : UUID) (out : List (Output α)) : List α :=
  out.filterMap fun
    | .merged _ _ => none
    | .wrote id _ data => if id = peer then some data else none

@[simp] theorem merged_append (first second : List (Output α)) :
    merged (first ++ second) = merged first ++ merged second :=
  List.filterMap_append

@[simp] theorem written_append (peer : UUID) (first second : List (Output α)) :
    written peer (first ++ second) = written peer first ++ written peer second :=
  List.filterMap_append

/-- What a source still brings, as long as its goroutine has not returned. -/
def Source.pending : Source α → Option (List α)
  | ⟨ch, .receiving⟩ => some ch
  | ⟨ch, .sending data⟩ => some (data :: ch)
  | ⟨_, .returned⟩ => none

theorem accounted_start (sequences : List (List α)) :
    Accounted Source.pending sequences (start sequences).sources [] := by
  refine ⟨by simp [start], by simp, ?_⟩
  intro i sequence source hsequence hsource
  simp only [start, List.getElem?_map, hsequence, Option.map_some,
    Option.some.injEq] at hsource
  subst hsource
  rfl

theorem accounted_step {nodeId : UUID} {nodes : NodeMap} {sequences : List (List α)}
    {s next : State α} {out now : List (Output α)}
    (h : Accounted Source.pending sequences s.sources (merged out))
    (hstep : Steps nodeId nodes s next now) :
    Accounted Source.pending sequences next.sources (merged (out ++ now)) := by
  cases hstep with
  | signalled | terminated | wrote => simpa [merged] using h
  | received i data ch hsource =>
      rw [List.append_nil]
      exact h.keep hsource rfl
  | returned i source hsource =>
      rw [List.append_nil]
      exact h.giveUp hsource rfl
  | merged i peers data ch hsource =>
      rw [merged_append]
      exact h.take hsource rfl rfl

/-! ## What the peers were sent -/

/-- The peers that the message in work has not been written to yet. -/
def Sender.remaining : Sender α → List Node
  | .writing _ peers => peers
  | .selecting | .terminated => []

/-- The message in work, if there is one. -/
def Sender.current : Sender α → List α
  | .writing data _ => [data]
  | .selecting | .terminated => []

structure Broadcast (nodeId : UUID) (nodes : NodeMap) (sender : Sender α)
    (out : List (Output α)) : Prop where
  nodup : sender.remaining.Nodup
  remaining : ∀ peer ∈ sender.remaining, peer ∈ nextPeers nodeId nodes
  /-- All peers were sent the same, up to the message in work. -/
  written : ∃ completed, (merged out).map Prod.snd = completed ++ sender.current ∧
    ∀ peer ∈ nextPeers nodeId nodes, written peer.id out =
      completed ++ if peer ∈ sender.remaining then [] else sender.current

theorem nextPeers_id_inj {nodeId : UUID} {nodes : NodeMap} {peer peer' : Node}
    (hpeer : peer ∈ nextPeers nodeId nodes) (hpeer' : peer' ∈ nextPeers nodeId nodes)
    (hid : peer.id = peer'.id) : peer = peer' :=
  List.inj_on_of_nodup_map nodes.nodup (List.mem_filter.mp hpeer).1
    (List.mem_filter.mp hpeer').1 hid

theorem broadcast_next {nodeId : UUID} {nodes : NodeMap} {data : α} {peers : List Node}
    {out : List (Output α)} (completed : List α) (hnodup : peers.Nodup)
    (hpeers : ∀ peer ∈ peers, peer ∈ nextPeers nodeId nodes)
    (hmerged : (merged out).map Prod.snd = completed ++ [data])
    (hwritten : ∀ peer ∈ nextPeers nodeId nodes, written peer.id out =
      completed ++ if peer ∈ peers then [] else [data]) :
    Broadcast nodeId nodes (.next data peers) out := by
  cases peers with
  | nil =>
      refine ⟨by simp [Sender.next, Sender.remaining],
        by simp [Sender.next, Sender.remaining], completed ++ [data], ?_, ?_⟩
      · simpa [Sender.next, Sender.current] using hmerged
      · simpa [Sender.next, Sender.remaining, Sender.current] using hwritten
  | cons peer peers => exact ⟨hnodup, hpeers, completed, hmerged, hwritten⟩

theorem broadcast_step {nodeId : UUID} {nodes : NodeMap} {s next : State α}
    {out now : List (Output α)} (h : Broadcast nodeId nodes s.sender out)
    (hstep : Steps nodeId nodes s next now) :
    Broadcast nodeId nodes next.sender (out ++ now) := by
  cases hstep with
  | signalled | received | returned =>
      rw [List.append_nil]
      exact h
  | merged i peers data ch hsource hsender hpeers =>
      obtain ⟨completed, hmerged, hwritten⟩ := h.written
      rw [hsender] at hmerged hwritten
      have hnodup : (nextPeers nodeId nodes).Nodup :=
        (List.Nodup.of_map _ nodes.nodup).filter _
      refine broadcast_next completed (hpeers.nodup_iff.mpr hnodup)
        (fun peer hpeer => hpeers.mem_iff.mp hpeer) ?_ ?_
      · simpa [merged, Sender.current] using hmerged
      · intro peer hpeer
        rw [if_pos (hpeers.mem_iff.mpr hpeer)]
        simpa [written, Sender.current] using hwritten peer hpeer
  | wrote data peer peers hsender =>
      have hnodup := h.nodup
      have hremaining := h.remaining
      obtain ⟨completed, hmerged, hwritten⟩ := h.written
      rw [hsender] at hnodup hremaining hmerged hwritten
      obtain ⟨hfresh, hnodup⟩ := List.nodup_cons.mp hnodup
      have hpeer := hremaining peer (by simp [Sender.remaining])
      refine broadcast_next completed hnodup
        (fun peer' hpeer' => hremaining peer' (List.mem_cons_of_mem _ hpeer')) ?_ ?_
      · simpa [merged, Sender.current] using hmerged
      · intro peer' hpeer'
        have hbefore := hwritten peer' hpeer'
        simp only [Sender.remaining, Sender.current, List.mem_cons] at hbefore
        by_cases heq : peer' = peer
        · subst heq
          rw [if_neg hfresh, written_append, hbefore, if_pos (Or.inl rfl)]
          simp [written]
        · have hid : peer.id ≠ peer'.id := fun hid =>
            heq (nextPeers_id_inj hpeer' hpeer hid.symm)
          rw [written_append, hbefore]
          simp [written, hid, heq]
  | terminated hsender =>
      obtain ⟨completed, hmerged, hwritten⟩ := h.written
      rw [hsender] at hmerged hwritten
      rw [List.append_nil]
      exact ⟨by simp [Sender.remaining], by simp [Sender.remaining],
        completed, hmerged, hwritten⟩

/-! ## Connections -/

/-- Connections and writes go to the address of the peer they are for. -/
structure Addressed (nodeId : UUID) (nodes : NodeMap) (s : State α)
    (out : List (Output α)) : Prop where
  conns : ∀ id conn, s.conns.lookup id = some conn → ⟨id, conn⟩ ∈ nextPeers nodeId nodes
  written : ∀ id conn data, .wrote id conn data ∈ out →
    ⟨id, conn⟩ ∈ nextPeers nodeId nodes

theorem getOrDialConn_addressed {nodeId : UUID} {nodes : NodeMap}
    {conns : AssocMap UUID String} {peer : Node}
    (hconns : ∀ id conn, conns.lookup id = some conn →
      ⟨id, conn⟩ ∈ nextPeers nodeId nodes)
    (hpeer : peer ∈ nextPeers nodeId nodes) :
    ⟨peer.id, (getOrDialConn conns peer).1⟩ ∈ nextPeers nodeId nodes ∧
      ∀ id conn, (getOrDialConn conns peer).2.lookup id = some conn →
        ⟨id, conn⟩ ∈ nextPeers nodeId nodes := by
  unfold getOrDialConn
  cases hlookup : conns.lookup peer.id with
  | some conn => exact ⟨hconns _ _ hlookup, hconns⟩
  | none =>
      refine ⟨hpeer, ?_⟩
      intro id conn hconn
      by_cases hid : id = peer.id
      · subst hid
        rw [AList.lookup_insert, Option.some.injEq] at hconn
        subst hconn
        exact hpeer
      · rw [AList.lookup_insert_ne hid] at hconn
        exact hconns id conn hconn

theorem addressed_step {nodeId : UUID} {nodes : NodeMap} {s next : State α}
    {out now : List (Output α)} (h : Addressed nodeId nodes s out)
    (hsender : ∀ peer ∈ s.sender.remaining, peer ∈ nextPeers nodeId nodes)
    (hstep : Steps nodeId nodes s next now) :
    Addressed nodeId nodes next (out ++ now) := by
  cases hstep with
  | signalled | received | returned =>
      rw [List.append_nil]
      exact ⟨h.conns, h.written⟩
  | merged => exact ⟨h.conns, by simpa using h.written⟩
  | wrote data peer peers hwriting =>
      rw [hwriting] at hsender
      obtain ⟨hconn, hconns⟩ := getOrDialConn_addressed h.conns
        (hsender peer (by simp [Sender.remaining]))
      refine ⟨hconns, ?_⟩
      intro id conn data' hmem
      rcases List.mem_append.mp hmem with hmem | hmem
      · exact h.written id conn data' hmem
      · cases List.mem_singleton.mp hmem
        exact hconn
  | terminated =>
      rw [List.append_nil]
      exact ⟨by simp, h.written⟩

/-! ## Runs -/

structure Sound (nodeId : UUID) (nodes : NodeMap) (sequences : List (List α))
    (s : State α) (out : List (Output α)) : Prop where
  accounted : Accounted Source.pending sequences s.sources (merged out)
  broadcast : Broadcast nodeId nodes s.sender out
  addressed : Addressed nodeId nodes s out

theorem sound_start (nodeId : UUID) (nodes : NodeMap) (sequences : List (List α)) :
    Sound nodeId nodes sequences (start sequences) [] where
  accounted := accounted_start sequences
  broadcast := ⟨by simp [start, Sender.remaining], by simp [start, Sender.remaining],
    [], by simp [start, merged, Sender.current],
    by simp [start, written, Sender.remaining, Sender.current]⟩
  addressed := ⟨by simp [start], by simp⟩

theorem sound_run {nodeId : UUID} {nodes : NodeMap} {sequences : List (List α)}
    {events : List Event} {last : State α} {out : List (Output α)}
    (hrun : run (step nodeId nodes) (start sequences) events = .ok (last, out)) :
    Sound nodeId nodes sequences last out := by
  refine run_keeps (Sound nodeId nodes sequences) (sound_start nodeId nodes sequences) ?_ hrun
  intro s now event next now' h hstep
  have hsteps := steps_of_step hstep
  exact ⟨accounted_step h.accounted hsteps, broadcast_step h.broadcast hsteps,
    addressed_step h.addressed h.broadcast.remaining hsteps⟩

/-- What a peer was written, in terms of the sources. -/
theorem Sound.written_fronts {nodeId : UUID} {nodes : NodeMap} {sequences : List (List α)}
    {s : State α} {out : List (Output α)} (h : Sound nodeId nodes sequences s out)
    {peer : Node} (hpeer : peer ∈ nextPeers nodeId nodes) :
    InterleavesFronts sequences (written peer.id out) := by
  obtain ⟨completed, hmerged, hwritten⟩ := h.broadcast.written
  apply h.accounted.interleavesFronts.of_isPrefix
  rw [hwritten peer hpeer, hmerged, List.prefix_append_right_inj]
  split
  · exact List.nil_prefix
  · exact List.prefix_rfl

/--
At any moment of any run, each peer has been written an interleaving of what was
taken so far from the fronts of the sources, all peers the same up to the message
in work, and nobody else anything.
-/
theorem written_in_source_order (nodeId : UUID) (nodes : NodeMap)
    (sequences : List (List α)) (events : List Event) (last : State α)
    (out : List (Output α))
    (hrun : run (step nodeId nodes) (start sequences) events = .ok (last, out)) :
    (∀ peer ∈ nextPeers nodeId nodes, ∃ taken,
      List.Forall₂ (· <+: ·) taken sequences ∧
        Interleaves taken (written peer.id out)) ∧
    (∃ completed, ∀ peer ∈ nextPeers nodeId nodes, written peer.id out =
      completed ++ if peer ∈ last.sender.remaining then [] else last.sender.current) ∧
    ∀ id conn data, .wrote id conn data ∈ out → ⟨id, conn⟩ ∈ nextPeers nodeId nodes := by
  have h := sound_run hrun
  obtain ⟨completed, -, hwritten⟩ := h.broadcast.written
  exact ⟨fun peer hpeer => h.written_fronts hpeer, ⟨completed, hwritten⟩, h.addressed.written⟩

def exampleNodes : NodeMap where
  nodes := [⟨Vector.replicate 16 1, "10.0.0.1:7000"⟩,
    ⟨Vector.replicate 16 2, "10.0.0.2:7000"⟩, ⟨Vector.replicate 16 3, "10.0.0.3:7000"⟩]
  nodup := by decide

def exampleEvents : List Event :=
  [.receive 0, .receive 1,
    .merge 1 (nextPeers (Vector.replicate 16 1) exampleNodes).reverse, .write, .write,
    .merge 0 (nextPeers (Vector.replicate 16 1) exampleNodes), .write, .receive 0,
    .terminate]

/-- The second message is on its way while one peer has not got it yet. -/
theorem written_in_source_order_two_sources :
    ∃ last out,
      run (step (Vector.replicate 16 1) exampleNodes) (start [["a", "b"], ["c"]])
        exampleEvents = .ok (last, out) ∧
      written (Vector.replicate 16 2) out = ["c", "a"] ∧
      written (Vector.replicate 16 3) out = ["c"] ∧
      ∀ peer ∈ nextPeers (Vector.replicate 16 1) exampleNodes, ∃ taken,
        List.Forall₂ (· <+: ·) taken [["a", "b"], ["c"]] ∧
          Interleaves taken (written peer.id out) := by
  obtain ⟨⟨last, out⟩, hrun, hfirst, hsecond⟩ :
      Returns (run (step (Vector.replicate 16 1) exampleNodes)
        (start [["a", "b"], ["c"]]) exampleEvents) fun result =>
          written (Vector.replicate 16 2) result.2 = ["c", "a"] ∧
          written (Vector.replicate 16 3) result.2 = ["c"] :=
    ⟨_, rfl, by decide, by decide⟩
  exact ⟨last, out, hrun, hfirst, hsecond,
    (written_in_source_order _ _ _ _ _ _ hrun).1⟩

end Udplb.Cluster.SendLoop
