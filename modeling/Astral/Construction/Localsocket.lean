/-
This file models local sockets: the backlog of a listening one, and how data and files pass to a connected one.
-/

import Astral.Construction.SocketRing
import Astral.Library.Run

namespace Astral.Localsocket

open Function Io

/-- An array is accessed at an index. -/
def checkIndex (size index : Nat) : Except Fault Unit := if index < size then .ok () else .error .outside

/-- The backlog of a listening socket holds connections, whose clients may give up. -/
structure Listener where
  backlogsize : Nat
  backlog : Nat → Option Nat
  backlogcurrentwrite : Nat
  backlogcurrentread : Nat
  closed : Nat → Bool

namespace Listener

def listen (backlogsize : Nat) : Listener where
  backlogsize
  backlog _ := none
  backlogcurrentwrite := 0
  backlogcurrentread := 0
  closed _ := false

def pushbacklog (server : Listener) (pair : Nat) : Except Fault Listener :=
  if server.backlogcurrentwrite < server.backlogcurrentread + server.backlogsize then do
    checkIndex server.backlogsize server.backlogcurrentwrite
    pure { server with
      backlog := update server.backlog server.backlogcurrentwrite (some pair)
      backlogcurrentwrite := server.backlogcurrentwrite + 1 }
  else .error .assertion

def popbacklog (server : Listener) : Except Fault (Option Nat × Listener) :=
  if server.backlogcurrentread < server.backlogcurrentwrite then do
    checkIndex server.backlogsize server.backlogcurrentread
    pure (server.backlog server.backlogcurrentread, { server with
      backlog := update server.backlog server.backlogcurrentread none
      backlogcurrentread := server.backlogcurrentread + 1 })
  else .error .assertion

/-- A client waits until the backlog has space. -/
def connect (server : Listener) (pair : Nat) : Except Fault Listener :=
  if server.backlogcurrentwrite < server.backlogcurrentread + server.backlogsize then server.pushbacklog pair
  else .error .blocked

/-- Connections whose client is gone are skipped. -/
def acceptLoop : (remaining : Nat) → Listener → Except Fault Listener
  | 0, _ => .error .blocked
  | remaining + 1, server =>
    if server.backlogcurrentwrite ≠ server.backlogcurrentread then do
      let (pair, server) ← server.popbacklog
      if pair.any server.closed then acceptLoop remaining server else pure server
    else .error .blocked

/-- The loop ends at the latest when the backlog is empty. -/
def accept (server : Listener) : Except Fault Listener :=
  acceptLoop (server.backlogcurrentwrite - server.backlogcurrentread + 1) server

end Listener

inductive ListenerEvent where
  | connect (pair : Nat)
  | accept
  | close (pair : Nat)

def Listener.step (server : Listener) : ListenerEvent → Except Fault Listener
  | .connect pair => server.connect pair
  | .accept => server.accept
  | .close pair => .ok { server with closed := update server.closed pair true }

def fileCount : Nat := 16

def barrierSize : Nat := 16

/-- A value is stored in an int. -/
def toInt (value : Int) : Int := value.bmod (2 ^ 32)

/-- The entries of a call, of which the first bytes can be accessed. -/
structure Buffers where
  iterator : IovecIterator
  accessible : Nat

/-- A walk has a round for each entry and one for a full ring buffer. -/
def Buffers.fuel (buffers : Buffers) : Nat := buffers.iterator.iovec.length + 2

/-- What a connected socket receives from its peer. -/
structure Channel where
  ringbuffer : List UInt8
  fds : List Nat
  barriercurrent : Nat
  barrierwrite : Nat
  filesremaining : Nat → Nat
  bytesremaining : Nat → Int

/-- A control block carries descriptors, each of which names a file or nothing. -/
structure Ctrl where
  ofSocket : Bool
  ofFiles : Bool
  fds : List (Option Nat)

namespace Channel

def fresh : Channel where
  ringbuffer := []
  fds := []
  barriercurrent := 0
  barrierwrite := 0
  filesremaining _ := 0
  bytesremaining _ := 0

/-- Start a new barrier section with these files and bytes. -/
def addBarrier (peer : Channel) (fdcount datasent : Nat) : Except Fault Channel :=
  if peer.barrierwrite ≠ peer.barriercurrent + barrierSize then
    let barrierwrite := peer.barrierwrite + 1
    let slot := barrierwrite % barrierSize
    .ok { peer with
      barrierwrite
      filesremaining := update peer.filesremaining slot fdcount
      bytesremaining := update peer.bytesremaining slot (toInt datasent) }
  else .error .assertion

def sendFiles (peer : Channel) (fds : List (Option Nat)) (datasent : Nat) : Except Fault (Option Errno × Channel) :=
  if fds.length > fileCount - peer.fds.length then .ok (some .enomem, peer)
  else
    match fds.mapM id with
    | none => .ok (some .ebadf, peer)
    | some files => do
        let peer ← { peer with fds := peer.fds ++ files }.addBarrier fds.length datasent
        pure (none, peer)

/-- A block of another level is skipped without moving on to the next block. -/
def sendBlocks (datasent : Nat) : (remaining : Nat) → List Ctrl → Channel → Except Fault (Option Errno × Channel)
  | 0, _, peer => .ok (none, peer)
  | _ + 1, [], peer => .ok (none, peer)
  | remaining + 1, ctrl :: rest, peer =>
    if ctrl.ofSocket then
      if ctrl.ofFiles then do
        let (error, peer) ← peer.sendFiles ctrl.fds datasent
        if error.isSome then pure (error, peer) else sendBlocks datasent remaining rest peer
      else sendBlocks datasent remaining rest peer
    else sendBlocks datasent remaining (ctrl :: rest) peer

def sendctrl (peer : Channel) (ctrl : Option (List Ctrl)) (datasent : Nat) : Except Fault (Option Errno × Channel) :=
  match ctrl with
  | none => do
      checkIndex barrierSize peer.barrierwrite
      let bytes := peer.bytesremaining peer.barrierwrite
      pure (none, { peer with
        bytesremaining := update peer.bytesremaining peer.barrierwrite (toInt (bytes + datasent)) })
  | some blocks => sendBlocks datasent blocks.length blocks peer

/-- The data is in the buffer also when the control data is refused. The result has the number of bytes. -/
def localsockSend (peer : Channel) (buffers : Buffers) (data : List UInt8) (ctrl : Option (List Ctrl)) :
    Except Fault (Nat × Option Errno × Channel) :=
  if peer.ringbuffer.length = socketBuffer then .error .blocked
  else
    match (iovecIteratorWriteToRing data buffers.accessible).run buffers.fuel data.length buffers.iterator
        peer.ringbuffer with
    | none => .error .overrun
    | some progress =>
      if progress.failed then .ok (0, some .efault, { peer with ringbuffer := progress.side })
      else if progress.done > 0 then do
        let (error, peer) ← { peer with ringbuffer := progress.side }.sendctrl ctrl progress.done
        pure (progress.done, error, peer)
      else .error .assertion

end Channel

/-- The flags and buffers of a receive, and how many descriptors the process can still take. -/
structure Request where
  peek : Bool
  waitall : Bool
  count : Nat
  ctrllen : Option Nat
  slots : Nat
  buffers : Buffers

/-- What a receive returns. -/
structure Receipt where
  data : List UInt8
  files : List Nat
  truncated : Bool
  error : Option Errno
  deriving DecidableEq

/-- Files are inserted into the table of the process, and the first one that does not fit is dropped. -/
def insertFiles : (count slots : Nat) → List Nat → Except Fault (List Nat × List Nat)
  | 0, _, fds => .ok ([], fds)
  | _ + 1, _, [] => .error .assertion
  | _ + 1, 0, _ :: fds => .ok ([], fds)
  | count + 1, slots + 1, file :: fds => do
      let (inserted, fds) ← insertFiles count slots fds
      pure (file :: inserted, fds)

namespace Channel

def sockctrlSize : Nat := 16

variable (socket : Channel)

/-- Take the files that fit into the control buffer from the current section. -/
def takeFiles (ctrllen slots : Nat) : Except Fault (List Nat × Channel) := do
  checkIndex barrierSize socket.barriercurrent
  let remaining := socket.filesremaining socket.barriercurrent
  let actualcount := min (min (subWord ctrllen sockctrlSize / 4) socket.fds.length) remaining
  let (inserted, fds) ← insertFiles actualcount slots socket.fds
  pure (inserted, { socket with
    fds
    filesremaining := update socket.filesremaining socket.barriercurrent (remaining - inserted.length) })

/-- Release the files that are left in the current section. -/
def discard : Except Fault (Bool × Channel) := do
  checkIndex barrierSize socket.barriercurrent
  let remaining := socket.filesremaining socket.barriercurrent
  if remaining ≤ socket.fds.length then
    pure (decide (0 < remaining), { socket with
      fds := socket.fds.drop remaining
      filesremaining := update socket.filesremaining socket.barriercurrent 0 })
  else .error .badRelease

def recvctrl (ctrllen : Option Nat) (slots : Nat) :
    Except Fault (List Nat × Bool × Channel) :=
  match ctrllen with
  | none => do
      let (truncated, socket) ← socket.discard
      pure ([], truncated, socket)
  | some ctrllen => do
      let (inserted, socket) ← socket.takeFiles ctrllen slots
      let (truncated, socket) ← socket.discard
      pure (inserted, truncated, socket)

/-- A receive stops at the end of the current section, and steps to the next one there. -/
def stepBarrier (recvcount : Nat) : Except Fault (Nat × Channel) :=
  let slot := socket.barriercurrent % barrierSize
  let bytes := socket.bytesremaining slot
  if bytes ≠ 0 then do
    checkIndex barrierSize socket.barriercurrent
    let recvcount := min (recvcount : Int) (socket.bytesremaining socket.barriercurrent)
    if recvcount < 0 then .error .overrun
    else
      let left := toInt (bytes - recvcount)
      pure (recvcount.toNat, { socket with
        bytesremaining := update socket.bytesremaining slot left
        barriercurrent := if left = 0 then socket.barriercurrent + 1 else socket.barriercurrent })
  else pure (recvcount, socket)

/-- Whether a receive waits for data. -/
def waits (request : Request) : Bool :=
  socket.ringbuffer = [] || (request.waitall && !request.peek && socket.ringbuffer.length < request.count)

/-- The files and the section are gone also when the data cannot be copied. -/
def localsockRecv (request : Request) : Except Fault (Receipt × Channel) :=
  if socket.waits request then .error .blocked
  else do
    let (files, truncated, socket) ← socket.recvctrl request.ctrllen request.slots
    let (recvcount, socket) ← socket.stepBarrier (min request.count socket.ringbuffer.length)
    match ((iovecIteratorPeekFromRing 0).faultingAt request.buffers.accessible).run request.buffers.fuel recvcount
        request.buffers.iterator (socket.ringbuffer, []) with
    | none => .error .overrun
    | some progress =>
      if progress.failed then
        pure (⟨[], files, truncated, some (if request.peek then .efault else .epipe)⟩, socket)
      else if progress.done = recvcount then
        pure (⟨progress.side.2, files, truncated, none⟩, { socket with
          ringbuffer :=
            if request.peek then socket.ringbuffer else ringTruncate socket.ringbuffer progress.done })
      else .error .assertion

end Channel

inductive ChannelEvent where
  | send (buffers : Buffers) (data : List UInt8) (ctrl : Option (List Ctrl))
  | recv (request : Request)

def Channel.step (channel : Channel) : ChannelEvent → Except Fault Channel
  | .send buffers data ctrl => (fun result => result.2.2) <$> channel.localsockSend buffers data ctrl
  | .recv request => Prod.snd <$> channel.localsockRecv request

/-- What a send put into the buffers. -/
structure Message where
  data : List UInt8
  files : Option (List Nat)
  deriving DecidableEq

/-- A channel together with what was sent and received on it. -/
structure Conversation where
  channel : Channel
  sent : List Message
  received : List Receipt

/-- A send has at most one control block, whose descriptors all name files. -/
inductive Exchange where
  | send (buffers : Buffers) (data : List UInt8) (files : Option (List Nat))
  | recv (request : Request)

namespace Conversation

def fresh : Conversation where
  channel := Channel.fresh
  sent := []
  received := []

/-- The control block for a list of files. -/
def block (files : List Nat) : Ctrl := ⟨true, true, files.map some⟩

def step (conversation : Conversation) : Exchange → Except Fault Conversation
  | .send buffers data files => do
      let (donecount, _, channel) ←
        conversation.channel.localsockSend buffers data (files.map fun files => [block files])
      let sent := if donecount = 0 then [] else [⟨data.take donecount, files⟩]
      pure { conversation with channel, sent := conversation.sent ++ sent }
  | .recv request => do
      let (receipt, channel) ← conversation.channel.localsockRecv request
      pure { conversation with channel, received := conversation.received ++ [receipt] }

end Conversation

end Astral.Localsocket
