/-
This file models how a UDP socket keeps datagrams in its ring buffer, and how they are received from there.
-/

import Astral.Construction.Ipv4
import Astral.Construction.SocketRing
import Astral.Library.Run

namespace Astral.Udp

open Io

/-- This stands before each datagram in the ring buffer. -/
structure Dataheader where
  peer : BitVec 32
  srcport : BitVec 16
  length : BitVec 16
  deriving DecidableEq

namespace Dataheader

def size : Nat := 8

def bytes (header : Dataheader) : List Byte :=
  [BitVec.ofNat 8 header.peer.toNat, BitVec.ofNat 8 (header.peer.toNat / 2 ^ 8),
    BitVec.ofNat 8 (header.peer.toNat / 2 ^ 16), BitVec.ofNat 8 (header.peer.toNat / 2 ^ 24),
    BitVec.ofNat 8 header.srcport.toNat, BitVec.ofNat 8 (header.srcport.toNat / 2 ^ 8),
    BitVec.ofNat 8 header.length.toNat, BitVec.ofNat 8 (header.length.toNat / 2 ^ 8)]

def ofBytes : List Byte → Option Dataheader
  | [first, second, third, fourth, low, high, least, most] =>
    some {
      peer := BitVec.ofNat 32
        (first.toNat + 2 ^ 8 * second.toNat + 2 ^ 16 * third.toNat + 2 ^ 24 * fourth.toNat)
      srcport := BitVec.ofNat 16 (low.toNat + 2 ^ 8 * high.toNat)
      length := BitVec.ofNat 16 (least.toNat + 2 ^ 8 * most.toNat) }
  | _ => none

end Dataheader

/-- The payload is all that follows the header in the buffer. -/
structure Frame where
  srcport : BitVec 16
  dstport : BitVec 16
  length : BitVec 16
  payload : List Byte
  deriving DecidableEq

structure Datagram where
  peer : BitVec 32
  srcport : BitVec 16
  payload : List Byte
  deriving DecidableEq

/-- A successful call of `udp_recv` returns this. -/
structure Delivery where
  addr : BitVec 32
  port : BitVec 16
  bytes : List Byte
  donecount : Nat
  deriving DecidableEq

/-- A call of `udp_recv` that returned. -/
structure Receipt where
  peek : Bool
  count : Nat
  outcome : Except Errno Delivery

/-- A call of `udp_recv` that has read its header. It goes on until everything is copied. -/
structure Call where
  header : Dataheader
  count : Nat
  peek : Bool
  copycount : Nat
  progress : Progress (List Byte × List Byte)
  going : Bool

/-- The last two fields record the datagrams that were not dropped and the calls that returned. -/
structure Socket where
  port : BitVec 16
  ring : List Byte
  call : Option Call
  accepted : List Datagram
  finished : List Receipt

namespace Socket

variable (socket : Socket)

/-- A socket without a port is not in the table of the ports. -/
def udpProcess (frame : Frame) (peer : BitVec 32) : Except Fault Socket :=
  if frame.dstport ≠ socket.port ∨ socket.port = 0 then .ok socket
  else
    let header : Dataheader := ⟨peer, frame.srcport, frame.length - 8⟩
    let needed := header.length.toNat + Dataheader.size
    if freespace socket.ring ≥ needed then
      if frame.payload.length < header.length.toNat then .error .overrun
      else
        let written := ringWrite socket.ring header.bytes
        let filled := ringWrite written.1 (frame.payload.take header.length.toNat)
        if written.2 = Dataheader.size ∧ filled.2 = header.length.toNat then
          .ok { socket with
            ring := filled.1
            accepted := socket.accepted ++ [⟨peer, frame.srcport, frame.payload.take header.length.toNat⟩] }
        else .error .assertion
    else .ok socket

/-- The call returns. -/
def finish (peek : Bool) (count : Nat) (outcome : Except Errno Delivery) : Socket :=
  { socket with call := none, finished := socket.finished ++ [⟨peek, count, outcome⟩] }

/-- The part of `udp_recv` up to the header. The mutex lets one call come here at a time. -/
def udpRecv (iterator : IovecIterator) (count : Nat) (peek nonblock : Bool) : Except Fault Socket :=
  if socket.call.isSome then .error .notReady
  else if socket.port = 0 then .ok (socket.finish peek count (.error .einval))
  else if socket.ring = [] then
    if nonblock then .ok (socket.finish peek count (.error .eagain)) else .error .notReady
  else
    match (ringPeek socket.ring 0 Dataheader.size).bind Dataheader.ofBytes with
    | none => .error .assertion
    | some header =>
      let copycount := minLong header.length.toNat count
      let remaining := minLong copycount (subWord iterator.totalSize iterator.totalOffset)
      .ok { socket with
        call := some ⟨header, count, peek, copycount, ⟨(socket.ring, []), iterator, remaining, 0, false⟩, true⟩ }

/-- One round of the copy of the payload, which does not hold the lock of the ring buffer. -/
def copyRound (call : Call) : Except Fault Socket :=
  match (iovecIteratorPeekFromRing Dataheader.size).round 1 call.copycount
      { call.progress with side := (socket.ring, call.progress.side.2) } with
  | none => .error .overrun
  | some (going, progress) =>
    if progress.failed then .ok (socket.finish call.peek call.count (.error .efault))
    else .ok { socket with call := some { call with progress := progress, going := going } }

/-- The part of `udp_recv` behind the copy. -/
def leaveRecv (call : Call) : Except Fault Socket :=
  if call.progress.done = call.copycount then
    let ring :=
      if call.peek then socket.ring else ringTruncate socket.ring (Dataheader.size + call.header.length.toNat)
    .ok ({ socket with ring := ring }.finish call.peek call.count
      (.ok ⟨call.header.peer, call.header.srcport, call.progress.side.2, call.copycount⟩))
  else .error .assertion

end Socket

/-- The copy of a call can meet a fault of the user's memory. -/
inductive Event where
  | process (frame : Frame) (peer : BitVec 32)
  | recv (iterator : IovecIterator) (count : Nat) (peek nonblock : Bool)
  | copy
  | fault
  | leave

def step (socket : Socket) : Event → Except Fault Socket
  | .process frame peer => socket.udpProcess frame peer
  | .recv iterator count peek nonblock => socket.udpRecv iterator count peek nonblock
  | .copy =>
    match socket.call with
    | none => .error .notReady
    | some call => if call.going then socket.copyRound call else .error .notReady
  | .fault =>
    match socket.call with
    | none => .error .notReady
    | some call =>
      if call.going then .ok (socket.finish call.peek call.count (.error .efault)) else .error .notReady
  | .leave =>
    match socket.call with
    | none => .error .notReady
    | some call => if call.going then .error .notReady else socket.leaveRecv call

/-- `udp_process` reads the ports and the length, in the byte order of the network, and passes over the checksum. -/
def Frame.ofBytes : List Byte → Option Frame
  | sourceHigh :: sourceLow :: destHigh :: destLow :: lengthHigh :: lengthLow :: rest =>
    some ⟨sourceHigh ++ sourceLow, destHigh ++ destLow, lengthHigh ++ lengthLow, rest.drop 2⟩
  | _ => none

def ipv4ProtoUdp : Nat := 17

/-- A packet that `ipv4_process` accepts goes to the socket. -/
def Socket.ipv4Process (socket : Socket) (netdev : Ipv4.Netdev) (packet : Ipv4.Frame) : Except Fault Socket :=
  match Ipv4.ipv4Process netdev packet with
  | none => .ok socket
  | some (protocol, payload) =>
    if protocol = ipv4ProtoUdp then
      match Frame.ofBytes (payload.map UInt8.toBitVec) with
      | none => .error .overrun
      | some frame => socket.udpProcess frame packet.srcaddr.toBitVec
    else .ok socket

/-- A new socket that is bound to a port. -/
def bound (port : BitVec 16) : Socket := ⟨port, [], none, [], []⟩

end Astral.Udp
