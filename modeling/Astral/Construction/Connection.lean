/-
This file models the life of one connection as a sequence of local events and received packets.
-/

import Astral.Construction.Tcp

namespace Astral.Net

open Io (Byte)

/-- The bytes that the send calls accepted and the bytes that the receive calls took stand beside the endpoint. -/
structure Connection where
  endpoint : Endpoint
  accepted : List Byte
  taken : List Byte

/-- A timeout finds the packet that its worker handled before. -/
inductive TcbEvent where
  | send (data : List Byte) (copied : Copied)
  | recv (count : Nat) (peek : Bool) (copied : Copied)
  | packet (packet : Packet) (around : Surroundings)
  | timeout (elapsedms : Nat) (stale : Packet) (around : Surroundings)
  | close

/-- A worker treats the timeout of a block that is gone as the packet in its buffer. -/
def Endpoint.tcpTimeout (endpoint : Endpoint) (elapsedms : Nat) (stale : Packet) (around : Surroundings) :
    Except Assertion Endpoint :=
  if endpoint.tcb.state ≠ .closed ∧ endpoint.tcb.state ≠ .abort then .ok (endpoint.tcpHandletimeout elapsedms)
  else endpoint.tcpPacket stale around

/-- Closing a socket leaves a block that is already gone alone. -/
def Endpoint.tcpDestroy (endpoint : Endpoint) : Except Assertion Endpoint :=
  if endpoint.tcb.state ≠ .closed ∧ endpoint.tcb.state ≠ .abort then endpoint.tcpHandleclose else .ok endpoint

namespace Connection

def tcb (connection : Connection) : Tcb := connection.endpoint.tcb

def step (connection : Connection) : TcbEvent → Except Assertion Connection
  | .send data copied => do
      let result ← connection.endpoint.tcpSend data copied
      return { connection with endpoint := result.2.2, accepted := connection.accepted ++ data.take result.2.1 }
  | .recv count peek copied => do
      let result ← connection.endpoint.tcpRecv count peek copied
      let taken := if peek then [] else result.2.1
      return { connection with endpoint := result.2.2, taken := connection.taken ++ taken }
  | .packet packet around => do
      let endpoint ← connection.endpoint.tcpPacket packet around
      return { connection with endpoint := endpoint }
  | .timeout elapsedms stale around => do
      let endpoint ← connection.endpoint.tcpTimeout elapsedms stale around
      return { connection with endpoint := endpoint }
  | .close => do
      let endpoint ← connection.endpoint.tcpDestroy
      return { connection with endpoint := endpoint }

end Connection

/-- A block that has not been used for a connection. -/
structure Tcb.Pristine (tcb : Tcb) : Prop where
  state : tcb.state = .closed
  receivebuffer : tcb.receivebuffer = []
  transmitbuffer : tcb.transmitbuffer = []
  receivequeue : tcb.receivequeue = []
  shouldclose : tcb.shouldclose = false
  reset : tcb.reset = false

/-- A connection begins with a SYN to its peer or with the answer to a SYN. -/
inductive Opens : Connection → Prop where
  | active (tcb : Tcb) (pristine : tcb.Pristine) (key : Connkey) (iss : Seq) (mtu : Nat) :
      Opens ⟨(⟨tcb, [], 0⟩ : Endpoint).sendSyn key iss mtu, [], []⟩
  | passive (parent : Nat) (key : Connkey) (header : Tcpheader) (iss : Seq) (mtu newsendmss : Nat) :
      Opens ⟨Endpoint.sendSynack parent key header iss mtu newsendmss, [], []⟩

end Astral.Net
