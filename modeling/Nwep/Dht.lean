import Nwep.Sys

/-!
# The discovery dht

Model of the part of `Dht` (`nwep/src/dht.rs`) the managed runtime drives: `start_lookup`,
`lookup_result`, `tick`, `announce`, `next_timeout` and `metrics`. Each takes what the C call
answered. A node id and an address are compared and passed on, nothing looks inside them.
-/

namespace Nwep

/-- `NodeId`. -/
abbrev NodeId := Nat

/-- `Address`. -/
abbrev Address := Nat

/-- `Record`: what the lookup reads of one is its address. -/
structure Record where
  address : Address
  deriving DecidableEq

/-- `DhtMetrics`. -/
structure DhtMetrics where
  datagramsSent     : Nat
  datagramsReceived : Nat
  bytesSent         : Nat
  bytesReceived     : Nat
  deriving DecidableEq

namespace Dht

/-- `Dht::start_lookup`. -/
def startLookup (rc : CInt) : Result Unit := Error.check rc

/-- `Dht::lookup_result`, when the C call answers `rc` and writes `out`. -/
def lookupResult (rc : CInt) (out : Record) : Option Record :=
  if rc = 0 then some out else none

/-- `Dht::tick`. -/
def tick (rc : CInt) : Result Unit := Error.check rc

/-- `Dht::next_timeout`. -/
def nextTimeout (ms : CInt) : Option Nat := timeoutMs ms

end Dht

end Nwep
