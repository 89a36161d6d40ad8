import Mathlib.Data.UInt
import Udplb.Foundation.Bytes

/-!
# Core types

The records shared by the controller, the lookup tables and the kernel adapter.
Positions in a slice and slice lengths are natural numbers.  The host is
little-endian: a coordinate is the little-endian value of four bytes of the id.
-/

namespace Udplb

open Udplb.Foundation

abbrev UUID := Vector UInt8 16

/-- The state of a subsystem; an unknown state must be considered unavailable. -/
inductive State where
  | unknown
  | available
  | unschedulable
  | unavailable
  deriving DecidableEq, Repr

structure Assignment where
  backendId : UUID
  sessionId : UUID
  deriving DecidableEq, Repr

structure BackendSpec where
  ip : Bytes
  port : Int
  macAddr : Bytes
  /-- The desired state of the backend. -/
  state : State
  deriving DecidableEq, Repr

structure BackendStatus where
  /-- The actual state of the backend. -/
  state : State
  deriving DecidableEq, Repr

structure BackendStatusEntry where
  backendId : UUID
  state : State
  deriving DecidableEq, Repr

def nCoordinates : Nat := 4

structure Backend where
  id : UUID
  spec : BackendSpec
  status : BackendStatus
  coordinates : Vector UInt32 nCoordinates
  deriving DecidableEq, Repr

def newBackend (id : UUID) (spec : BackendSpec) (status : BackendStatus) :
    Backend where
  id := id
  spec := spec
  status := status
  coordinates := Vector.ofFn fun i =>
    UInt32.ofNat (leNat (slice id.toList (4 * i) 4))

structure BackendConfig where
  enabled : Bool
  ip : String
  mac : String
  port : Int
  deriving DecidableEq, Repr

structure Config where
  ifname : String
  ip : String
  port : UInt16
  backends : List BackendConfig
  deriving DecidableEq, Repr

end Udplb
