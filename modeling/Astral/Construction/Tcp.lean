/-
This file models the control block of a TCP connection and the functions that work on one block.
-/

import Astral.Construction.Usercopy

namespace Astral.Net

open Io (Byte)

/-- Sequence numbers wrap at 32 bits. -/
abbrev Seq := BitVec 32

abbrev Control := BitVec 8

def controlAck : Control := 16
def controlPsh : Control := 8
def controlRst : Control := 4
def controlSyn : Control := 2
def controlFin : Control := 1

inductive TcbState where
  | abort
  | closed
  | listen
  | synsent
  | synreceived
  | estabilished
  | finwait1
  | finwait2
  | closewait
  | closing
  | lastack
  | timewait
  deriving DecidableEq

def rtoStartSec : Nat := 1
def rtoMaxSec : Nat := 64
def tcbRingbufferSize : Nat := 1024 * 64 - 1
def mslSec : Nat := 5

structure Connkey where
  peer : Nat
  peerport : Nat
  localport : Nat
  deriving DecidableEq

/-- The header is in the byte order of the host. -/
structure Tcpheader where
  srcport : Nat
  dstport : Nat
  seq : Seq
  ack : Seq
  dataoffset : Nat
  control : Control
  window : Nat
  urgentptr : Nat
  deriving DecidableEq, Inhabited

def tcpheaderSize : Nat := 20

/-- A received packet has its decoded header beside all of its bytes. -/
structure Packet where
  header : Tcpheader
  bytes : List Byte
  deriving DecidableEq

def Packet.headerlen (packet : Packet) : Nat := packet.header.dataoffset / 16 * 4

/-- The length of the data is a difference of words. -/
def Packet.datalen (packet : Packet) : Nat := subWord packet.bytes.length packet.headerlen

def Packet.data (packet : Packet) : List Byte := packet.bytes.drop packet.headerlen

structure Queuedpacket where
  tcpheader : Tcpheader
  data : List Byte
  deriving DecidableEq

def Queuedpacket.seqend (queued : Queuedpacket) : Seq := queued.tcpheader.seq + BitVec.ofNat 32 queued.data.length

/-- A frame leaves with the header and with the bytes that its length covers. -/
structure Frame where
  length : Nat
  header : Tcpheader
  payload : List Byte
  deriving DecidableEq

/-- The rings are queues, other blocks are named by numbers, and a timer that is paused has no time. -/
structure Tcb where
  state : TcbState
  receivebuffer : List Byte
  refcount : Nat
  port : Nat
  transmitbuffer : List Byte
  retransmitpacketlen : Nat
  retransmitheader : Tcpheader
  retransmitpayload : List Byte
  parent : Option Nat
  key : Connkey
  shouldclose : Bool
  backlogfree : Nat
  backlog : List Nat
  reset : Bool
  itimer : Option Nat
  currentrto : Nat
  receivequeue : List Queuedpacket
  sndmss : Nat
  sndunack : Seq
  sndnext : Seq
  sndwindow : Nat
  iss : Seq
  rcvmss : Nat
  rcvnext : Seq
  rcvwindow : Seq
  irs : Seq
  deriving DecidableEq

/-- A control block has sent frames and has been taken out of the connection table a number of times. -/
structure Endpoint where
  tcb : Tcb
  sent : List Frame
  removals : Nat
  deriving DecidableEq

/-- These assertions of the code can fail. -/
inductive Assertion where
  | receiveWrite
  | receiveWindow
  | emptySegment
  | emptyWrite
  | sendCount
  | recvCount
  | closedTwice
  deriving DecidableEq

def seqinrange (seq seqend rangestart rangeend : Seq) : Bool :=
  if rangeend < rangestart then
    !((seqend ≤ rangestart && seqend > rangeend) || (seq < rangestart && seq ≥ rangeend))
  else seq ≥ rangestart && seqend ≤ rangeend

namespace Queuedpacket

/-- The ranges of a new segment and of a queued one meet. -/
def conflicts (queued : Queuedpacket) (seq seqend : Seq) : Bool :=
  seqinrange seq seqend queued.tcpheader.seq queued.seqend ||
    seqinrange queued.tcpheader.seq (queued.tcpheader.seq + 1) seq seqend ||
    seqinrange (queued.seqend - 1) queued.seqend seq seqend

end Queuedpacket

/-- A write to the receive ring must take all bytes. -/
def receiveWrite (receivebuffer data : List Byte) : Except Assertion (List Byte) :=
  if data.length ≤ tcbRingbufferSize - receivebuffer.length then .ok (receivebuffer ++ data)
  else .error .receiveWrite

/-- The walk over the queue stops at the first segment that is not the next one. -/
def flushReceivequeue : List Queuedpacket → (rcvnext : Seq) → (receivebuffer : List Byte) → (written : Nat) →
    Except Assertion (List Queuedpacket × Seq × List Byte × Nat)
  | [], rcvnext, receivebuffer, written => .ok ([], rcvnext, receivebuffer, written)
  | queued :: rest, rcvnext, receivebuffer, written =>
    if queued.tcpheader.seq = rcvnext then do
      let receivebuffer ← receiveWrite receivebuffer queued.data
      flushReceivequeue rest (rcvnext + BitVec.ofNat 32 queued.data.length) receivebuffer
        (written + queued.data.length)
    else .ok (queued :: rest, rcvnext, receivebuffer, written)

/-- The place of a segment is between the end of one queued segment and the start of the next. -/
def insertReceivequeue (packet : Queuedpacket) (previousend : Seq) : List Queuedpacket → List Queuedpacket
  | [] => [packet]
  | queued :: rest =>
    if seqinrange packet.tcpheader.seq packet.seqend previousend queued.tcpheader.seq then packet :: queued :: rest
    else queued :: insertReceivequeue packet queued.seqend rest

/-- The result says whether an acknowledgement should be sent. -/
def tcpQueuereceivepacket (tcb : Tcb) (packet : Packet) (allocated : Bool) : Except Assertion (Bool × Tcb) :=
  let datalen := packet.datalen
  let seq := packet.header.seq
  let seqend := seq + BitVec.ofNat 32 datalen
  if datalen > tcb.rcvwindow.toNat then .ok (true, tcb)
  else if datalen = 0 then .ok (false, tcb)
  else if seqinrange seq seqend tcb.rcvnext (tcb.rcvnext + tcb.rcvwindow) = false then .ok (true, tcb)
  else
    let receivequeue := tcb.receivequeue.filter fun queued => !queued.conflicts seq seqend
    if seq = tcb.rcvnext then do
      let receivebuffer ← receiveWrite tcb.receivebuffer packet.data
      let flushed ← flushReceivequeue receivequeue (tcb.rcvnext + BitVec.ofNat 32 datalen) receivebuffer datalen
      if flushed.2.2.2 ≤ tcb.rcvwindow.toNat then
        .ok (true, { tcb with
          receivequeue := flushed.1
          rcvnext := flushed.2.1
          receivebuffer := flushed.2.2.1
          rcvwindow := tcb.rcvwindow - BitVec.ofNat 32 flushed.2.2.2 })
      else .error .receiveWindow
    else if allocated then
      .ok (false, { tcb with
        receivequeue := insertReceivequeue ⟨packet.header, packet.data⟩ tcb.rcvnext receivequeue })
    else .ok (false, { tcb with receivequeue := receivequeue })

/-- The sequence number of every header is the next one to be sent. -/
def tcpCreateheader (tcb : Tcb) (optionslen : Nat) (control : Control) (urgentp : Nat) : Tcpheader where
  srcport := tcb.key.localport
  dstport := tcb.key.peerport
  seq := tcb.sndnext
  ack := tcb.rcvnext
  dataoffset := (tcpheaderSize + optionslen) / 4 * 16
  control := control
  window := tcb.rcvwindow.toNat % 2 ^ 16
  urgentptr := urgentp

/-- The retransmit buffer counts as far as its length goes. -/
def Tcb.retransmitFrame (tcb : Tcb) : Frame :=
  ⟨tcb.retransmitpacketlen, tcb.retransmitheader, tcb.retransmitpayload.take (tcb.retransmitpacketlen - tcpheaderSize)⟩

/-- What a packet meets outside of its control block. -/
structure Surroundings where
  allocated : Bool
  newsendmss : Nat
  parentClosed : Bool

/-- These events ask a socket for something. -/
structure Pollevents where
  pollin : Bool
  pollout : Bool
  pollhup : Bool
  pollerr : Bool

def internalpoll (tcb : Tcb) (wantin wantout : Bool) : Pollevents :=
  let readable := tcb.receivebuffer ≠ []
  match tcb.state with
  | .listen => ⟨wantin && tcb.backlog ≠ [], false, false, tcb.reset⟩
  | .abort | .synsent | .synreceived => ⟨false, false, false, tcb.reset⟩
  | .estabilished =>
    ⟨wantin && readable, wantout && tcb.transmitbuffer.length ≠ tcbRingbufferSize, false, tcb.reset⟩
  | .finwait1 | .finwait2 => ⟨wantin && readable, false, false, tcb.reset⟩
  | .closewait | .closing | .lastack | .timewait | .closed => ⟨wantin && readable, false, true, tcb.reset⟩

inductive SockError where
  | enotconn
  | econnreset
  | epipe
  | eagain
  | efault
  | einval
  | enomem
  | eaddrinuse
  | enetunreach
  | ealready
  | eisconn
  | einprogress
  | econnaborted
  | eacces
  deriving DecidableEq

/-- The copy between a ring and the entries of the caller moves all bytes, some of them, or fails. -/
inductive Copied where
  | whole
  | part
  | fault
  deriving DecidableEq

namespace Endpoint

variable (endpoint : Endpoint)

def tcpRetransmit : Endpoint :=
  { endpoint with sent := endpoint.sent ++ [endpoint.tcb.retransmitFrame] }

def tcpAck : Endpoint :=
  { endpoint with sent := endpoint.sent ++ [⟨tcpheaderSize, tcpCreateheader endpoint.tcb 0 controlAck 0, []⟩] }

/-- The data leaves the ring for the retransmit buffer. -/
def tcpTransmitnextsegment : Except Assertion Endpoint :=
  let tcb := endpoint.tcb
  let data := tcb.transmitbuffer.take tcb.sndmss
  if data = [] then .error .emptySegment
  else
    let endpoint := { endpoint with tcb := { tcb with
      transmitbuffer := tcb.transmitbuffer.drop tcb.sndmss
      retransmitpacketlen := data.length + tcpheaderSize
      retransmitheader := tcpCreateheader tcb 0 (controlAck ||| controlPsh) 0
      retransmitpayload := data ++ tcb.retransmitpayload.drop data.length } }
    let endpoint := endpoint.tcpRetransmit
    .ok { endpoint with tcb := { endpoint.tcb with
      sndnext := tcb.sndnext + BitVec.ofNat 32 data.length
      currentrto := rtoStartSec
      itimer := some (rtoStartSec * 1000000) } }

def tcpReset : Endpoint :=
  { endpoint with
    tcb := { endpoint.tcb with itimer := none, reset := true, state := .abort }
    removals := endpoint.removals + 1 }

/-- The FIN is written over the header of the retransmit buffer. -/
def tcpDofirstfin : Endpoint :=
  let tcb := endpoint.tcb
  let endpoint := { endpoint with tcb := { tcb with
    state := if tcb.state = TcbState.closewait then .lastack else .finwait1
    retransmitpacketlen := tcpheaderSize
    retransmitheader := tcpCreateheader tcb 0 (controlFin ||| controlAck) 0 } }
  let endpoint := endpoint.tcpRetransmit
  { endpoint with tcb := { endpoint.tcb with
    itimer := some (rtoStartSec * 1000000)
    currentrto := rtoStartSec } }

def tcpHandleack (header : Tcpheader) : Except Assertion Endpoint :=
  let endpoint := { endpoint with tcb := { endpoint.tcb with sndunack := header.ack } }
  if endpoint.tcb.transmitbuffer ≠ [] then endpoint.tcpTransmitnextsegment
  else if endpoint.tcb.shouldclose then .ok endpoint.tcpDofirstfin
  else .ok { endpoint with tcb := { endpoint.tcb with itimer := none } }

/-- A FIN is not checked against the next expected sequence number. -/
def tcpHandledatareceive (packet : Packet) (allocated : Bool) (finstate : TcbState) :
    Except Assertion Endpoint := do
  let fin := hasFlag packet.header.control controlFin
  let queued ← tcpQueuereceivepacket endpoint.tcb packet allocated
  let endpoint := { endpoint with tcb := queued.2 }
  let endpoint := if fin then
      { endpoint with tcb := { endpoint.tcb with state := finstate, rcvnext := endpoint.tcb.rcvnext + 1 } }
    else endpoint
  let endpoint := if queued.1 || fin then endpoint.tcpAck else endpoint
  if hasFlag packet.header.control controlAck && endpoint.tcb.sndnext = packet.header.ack then
    tcpHandleack { endpoint with tcb := { endpoint.tcb with sndwindow := packet.header.window } } packet.header
  else .ok endpoint

/-- A listening block and one that waits for its peer are only taken out of the table. -/
def tcpHandleclose : Except Assertion Endpoint :=
  let tcb := endpoint.tcb
  match tcb.state with
  | .listen | .synsent =>
    .ok { endpoint with tcb := { tcb with itimer := none, state := .closed }, removals := endpoint.removals + 1 }
  | .estabilished | .synreceived | .closewait =>
    if tcb.transmitbuffer = [] then .ok endpoint.tcpDofirstfin
    else .ok { endpoint with tcb := { tcb with shouldclose := true } }
  | _ => .error .closedTwice

def tcpHandletimeout (elapsedms : Nat) : Endpoint :=
  let tcb := endpoint.tcb
  if tcb.currentrto = rtoMaxSec ∨ tcb.state = .timewait then endpoint.tcpReset
  else if elapsedms / 1000 ≥ tcb.currentrto then
    let endpoint := endpoint.tcpRetransmit
    { endpoint with tcb := { endpoint.tcb with
      currentrto := tcb.currentrto * 2
      itimer := some (tcb.currentrto * 2 * 1000000) } }
  else { endpoint with tcb := { tcb with itimer := some (elapsedms * 1000) } }

/-- The maximum segment size of the peer is what its options say or a default. -/
def getsendmss (tcb : Tcb) (newsendmss : Nat) : Nat := minLong tcb.sndmss newsendmss

def armTimewait : Endpoint :=
  if endpoint.tcb.state = .timewait then
    { endpoint with tcb := { endpoint.tcb with itimer := some (mslSec * 1000000) } }
  else endpoint

/-- A reset goes out to the peer with the numbers of the packet. -/
def tcpSendreset (packet : Packet) : Endpoint :=
  let marks := if (packet.header.control &&& (controlFin ||| controlSyn)) ≠ 0 then (1 : Seq) else 0
  { endpoint with sent := endpoint.sent ++ [⟨tcpheaderSize,
      { srcport := endpoint.tcb.key.localport
        dstport := endpoint.tcb.key.peerport
        seq := packet.header.ack
        ack := packet.header.seq + marks + BitVec.ofNat 32 packet.datalen
        dataoffset := tcpheaderSize / 4 * 16
        control := controlRst ||| controlAck
        window := 0
        urgentptr := 0 }, []⟩] }

/-- One packet is handled in the state of its control block. -/
def tcpPacket (packet : Packet) (around : Surroundings) : Except Assertion Endpoint :=
  let tcb := endpoint.tcb
  let header := packet.header
  let isAck := hasFlag header.control controlAck
  let isSyn := hasFlag header.control controlSyn
  let isFin := hasFlag header.control controlFin
  if seqinrange header.seq (header.seq + 1) tcb.rcvnext (tcb.rcvnext + tcb.rcvwindow) &&
      hasFlag header.control controlRst && tcb.state ≠ .listen then .ok endpoint.tcpReset
  else match tcb.state with
  | .abort | .closed | .listen => .ok endpoint
  | .synsent =>
    if !(isSyn && isAck) || tcb.sndunack + 1 ≠ header.ack then .ok (endpoint.tcpSendreset packet)
    else
      let endpoint := { endpoint with tcb := { tcb with
        sndunack := tcb.sndnext
        itimer := none
        state := .estabilished
        sndwindow := header.window
        irs := header.seq
        rcvwindow := BitVec.ofNat 32 tcbRingbufferSize
        rcvnext := header.seq + 1
        sndmss := getsendmss tcb around.newsendmss } }
      .ok endpoint.tcpAck
  | .synreceived =>
    if isSyn && !isAck then .ok endpoint.tcpRetransmit
    else if isAck && tcb.sndunack + 1 = header.ack then
      let endpoint := { endpoint with tcb := { tcb with
        itimer := none
        state := .estabilished
        sndunack := tcb.sndunack + 1 } }
      if around.parentClosed then endpoint.tcpHandleclose else .ok endpoint
    else .ok (endpoint.tcpSendreset packet)
  | .estabilished =>
    if isSyn && isAck then .ok endpoint.tcpAck
    else endpoint.tcpHandledatareceive packet around.allocated .closewait
  | .closewait =>
    if isFin then .ok endpoint.tcpAck
    else if isAck && tcb.sndnext = header.ack then endpoint.tcpHandleack header
    else .ok endpoint
  | .lastack =>
    if isAck && tcb.sndnext + 1 = header.ack then
      .ok { endpoint with tcb := { tcb with itimer := none, state := .closed }, removals := endpoint.removals + 1 }
    else .ok endpoint
  | .finwait1 => do
      let endpoint := if isAck && tcb.sndnext + 1 = header.ack then
          { endpoint with tcb := { tcb with sndnext := tcb.sndnext + 1, state := .finwait2 } }
        else endpoint
      let endpoint ← endpoint.tcpHandledatareceive packet around.allocated
        (if endpoint.tcb.state = .finwait2 then .timewait else .closing)
      return endpoint.armTimewait
  | .finwait2 => do
      let endpoint ← endpoint.tcpHandledatareceive packet around.allocated .timewait
      return endpoint.armTimewait
  | .closing =>
    let endpoint := if isFin then endpoint.tcpAck else endpoint
    if isAck && tcb.sndnext + 1 = header.ack then
      .ok { endpoint with tcb := { endpoint.tcb with
        sndnext := tcb.sndnext + 1
        state := .timewait
        itimer := some (mslSec * 1000000) } }
    else .ok endpoint
  | .timewait => .ok endpoint.tcpAck

/-- A call that has to wait leaves the block alone. -/
def tcpSend (data : List Byte) (copied : Copied) :
    Except Assertion (Option SockError × Nat × Endpoint) :=
  let tcb := endpoint.tcb
  let revents := internalpoll tcb false true
  if tcb.reset then .ok (some .econnreset, 0, endpoint)
  else if revents.pollhup then .ok (some .epipe, 0, endpoint)
  else if !revents.pollout then .ok (some .eagain, 0, endpoint)
  else
    let free := tcbRingbufferSize - tcb.transmitbuffer.length
    let writesize := minLong free data.length
    if writesize = 0 then .error .emptyWrite
    else match copied with
    | .fault => .ok (some .efault, 0, endpoint)
    | .part => .error .sendCount
    | .whole =>
      if free < writesize then .error .sendCount
      else do
        let endpoint := { endpoint with tcb := { tcb with
          transmitbuffer := tcb.transmitbuffer ++ data.take writesize } }
        let endpoint ← if tcb.sndnext = tcb.sndunack then endpoint.tcpTransmitnextsegment else .ok endpoint
        return (none, writesize, endpoint)

/-- The window grows by the count that was asked for. -/
def tcpRecv (count : Nat) (peek : Bool) (copied : Copied) :
    Except Assertion (Option SockError × List Byte × Endpoint) :=
  let tcb := endpoint.tcb
  let revents := internalpoll tcb true false
  if tcb.state = .closed ∨ tcb.state = .synsent ∨ tcb.state = .synreceived then .ok (some .enotconn, [], endpoint)
  else if tcb.reset then .ok (some .econnreset, [], endpoint)
  else if !(revents.pollin || revents.pollout || revents.pollhup || revents.pollerr) then
    .ok (some .eagain, [], endpoint)
  else
    let copycount := minLong tcb.receivebuffer.length count
    match copied with
    | .fault => .ok (some .efault, [], endpoint)
    | .part => .error .recvCount
    | .whole =>
      if tcb.receivebuffer.length < copycount then .error .recvCount
      else if peek then .ok (none, tcb.receivebuffer.take copycount, endpoint)
      else
        let endpoint := { endpoint with tcb := { tcb with
          receivebuffer := tcb.receivebuffer.drop copycount
          rcvwindow := tcb.rcvwindow + BitVec.ofNat 32 copycount } }
        .ok (none, tcb.receivebuffer.take copycount, endpoint.tcpAck)

end Endpoint

/-- Fresh memory is zero. -/
def allocatetcb : Tcb where
  state := .closed
  receivebuffer := []
  refcount := 1
  port := 0
  transmitbuffer := []
  retransmitpacketlen := 0
  retransmitheader := ⟨0, 0, 0, 0, 0, 0, 0, 0⟩
  retransmitpayload := []
  parent := none
  key := ⟨0, 0, 0⟩
  shouldclose := false
  backlogfree := 0
  backlog := []
  reset := false
  itimer := none
  currentrto := 0
  receivequeue := []
  sndmss := 0
  sndunack := 0
  sndnext := 0
  sndwindow := 0
  iss := 0
  rcvmss := 0
  rcvnext := 0
  rcvwindow := 0
  irs := 0

/-- The limit leaves room for the two headers and for the buffer of a worker. -/
def mssLimit (mtu : Nat) : Nat := minLong (2048 - tcpheaderSize) (subWord (subWord mtu 20) tcpheaderSize)

/-- The options of a SYN hold the maximum segment size in network byte order. -/
def synoptions (mss : Nat) : List Byte := [2, 4, BitVec.ofNat 8 (mss % 2 ^ 16 / 256), BitVec.ofNat 8 mss]

/-- The options are copied behind the header. -/
def Tcb.putOptions (tcb : Tcb) (options : List Byte) : Tcb :=
  { tcb with retransmitpayload := options ++ tcb.retransmitpayload.drop options.length }

/-- The block is set up before the SYN leaves. -/
def Tcb.prepareSyn (tcb : Tcb) (key : Connkey) (iss : Seq) (mtu : Nat) : Tcb :=
  let tcb := { tcb with
    iss := iss
    rcvwindow := 0
    sndnext := iss
    sndunack := iss
    key := key
    rcvmss := mssLimit mtu
    sndmss := mtu }
  let options := synoptions tcb.rcvmss
  let tcb := { tcb with
    retransmitpacketlen := tcpheaderSize + options.length
    retransmitheader := tcpCreateheader tcb options.length controlSyn 0 }
  let tcb := tcb.putOptions options
  { tcb with sndnext := tcb.sndnext + 1, state := .synsent }

/-- A connection is asked for. -/
def Endpoint.sendSyn (endpoint : Endpoint) (key : Connkey) (iss : Seq) (mtu : Nat) : Endpoint :=
  let endpoint := { endpoint with tcb := endpoint.tcb.prepareSyn key iss mtu }.tcpRetransmit
  { endpoint with tcb := { endpoint.tcb with
    currentrto := rtoStartSec
    itimer := some (rtoStartSec * 1000000) } }

/-- The window of a new block is the one that its peer announces, and its packet length stays zero. -/
def Tcb.prepareSynack (parent : Nat) (key : Connkey) (header : Tcpheader) (iss : Seq) (mtu newsendmss : Nat) : Tcb :=
  let tcb := { allocatetcb with
    state := .synreceived
    parent := some parent
    key := key
    sndmss := mtu }
  let tcb := { tcb with
    sndmss := Endpoint.getsendmss tcb newsendmss
    iss := iss
    sndnext := iss
    rcvmss := mssLimit mtu
    rcvnext := header.seq + 1
    rcvwindow := BitVec.ofNat 32 header.window
    irs := header.seq }
  let options := synoptions tcb.rcvmss
  let tcb := { tcb with retransmitheader := tcpCreateheader tcb options.length (controlSyn ||| controlAck) 0 }
  let tcb := tcb.putOptions options
  { tcb with sndunack := tcb.sndnext, sndnext := tcb.sndnext + 1 }

/-- The answer to a SYN leaves with the length that stands in the listening block. -/
def Endpoint.sendSynack (parent : Nat) (key : Connkey) (header : Tcpheader) (iss : Seq) (mtu newsendmss : Nat) :
    Endpoint :=
  let tcb := Tcb.prepareSynack parent key header iss mtu newsendmss
  let length := tcpheaderSize + 4
  ⟨tcb, [⟨length, tcb.retransmitheader, tcb.retransmitpayload.take (length - tcpheaderSize)⟩], 0⟩

end Astral.Net
