/-
This file models a listening control block with its backlog, and the connections that are opened through it.
-/

import Astral.Construction.Connection

namespace Astral.Net

/-- A call goes wrong when the backlog has no room or no entry, or fails another assertion. A task can block for ever. -/
inductive ListenFault where
  | backlogWrite
  | backlogRead
  | assertion (failed : Assertion)
  | blocked
  | notReady
  deriving DecidableEq

/-- A block that was opened by a SYN. Its mutex stays locked when the worker did not release it. -/
structure Child where
  endpoint : Endpoint
  locked : Bool
  deriving DecidableEq

def Child.state (child : Child) : TcbState := child.endpoint.tcb.state

/-- The children are numbered in the order of their allocation, and some calls of `tcp_accept` wait. -/
structure Listening where
  size : Nat
  listener : Endpoint
  children : List Child
  conntable : List (Connkey × Nat)
  waiting : Nat
  deriving DecidableEq

/-- What a SYN meets outside of the listening block. -/
structure SynSurroundings where
  mtu : Nat
  self : Nat
  newsendmss : Nat
  iss : Seq
  allocated : Bool
  stored : Bool
  sent : Bool

namespace Listening

variable (listening : Listening)

def tcb : Tcb := listening.listener.tcb

def withListener (change : Tcb → Tcb) : Listening :=
  { listening with listener := { listening.listener with tcb := change listening.tcb } }

/-- A block stays behind with its mutex locked when it cannot be stored. -/
def addChild (endpoint : Endpoint) (locked : Bool) : Listening :=
  { listening with children := listening.children ++ [⟨endpoint, locked⟩] }

/-- A SYN that the listening block handles. When the answer cannot be sent, the listening block is reset. -/
def openConnection (key : Connkey) (header : Tcpheader) (around : SynSurroundings) :
    Listening :=
  let answered := Endpoint.sendSynack 0 key header around.iss around.mtu around.newsendmss
  if (listening.conntable.lookup key).isSome then listening
  else if around.mtu = 0 ∨ around.self = 0 then listening
  else if !around.allocated then listening
  else if !around.stored then listening.addChild ⟨answered.tcb, [], 0⟩ true
  else if listening.tcb.backlogfree = 0 then listening
  else
    let listening := { listening with conntable := (key, listening.children.length) :: listening.conntable }
    let listening := listening.withListener fun tcb => { tcb with retransmitpacketlen := tcpheaderSize + 4 }
    if !around.sent then { listening with listener := listening.listener.tcpReset }.addChild ⟨answered.tcb, [], 0⟩ true
    else (listening.withListener fun tcb => { tcb with backlogfree := tcb.backlogfree - 1 }).addChild answered false

/-- A packet that a worker handles with the listening block. -/
def listenPacket (key : Connkey) (packet : Packet) (around : SynSurroundings) :
    Except ListenFault Listening :=
  if listening.tcb.state = .listen then .ok (listening.openConnection key packet.header around)
  else
    match listening.listener.tcpPacket packet ⟨around.allocated, around.newsendmss, false⟩ with
    | .error failed => .error (.assertion failed)
    | .ok listener => .ok { listening with listener := listener }

/-- A step of a child may take it out of the table. -/
def settle (id : Nat) (child : Child) (endpoint : Endpoint) : Listening :=
  let conntable := if child.endpoint.removals < endpoint.removals then
      listening.conntable.filter fun entry => entry.1 ≠ child.endpoint.tcb.key
    else listening.conntable
  { listening with children := listening.children.set id { child with endpoint := endpoint }, conntable := conntable }

/-- A connection that is complete goes to the backlog. -/
def enqueue (id : Nat) : Except ListenFault Listening :=
  if listening.tcb.backlog.length < listening.size then
    .ok (listening.withListener fun tcb => { tcb with backlog := tcb.backlog ++ [id] })
  else .error .backlogWrite

/-- A worker handles a task with a child. -/
def task (id : Nat) (run : Endpoint → Except Assertion Endpoint) :
    Except ListenFault Listening :=
  match listening.children[id]? with
  | none => .error .notReady
  | some child =>
    if child.locked then .error .blocked
    else
      match run child.endpoint with
      | .error failed => .error (.assertion failed)
      | .ok endpoint =>
        let listening := listening.settle id child endpoint
        if child.state = .synreceived ∧ endpoint.tcb.state = .estabilished then listening.enqueue id
        else .ok listening

/-- The part of `tcp_accept` behind the wait. -/
def takeBacklog : Except ListenFault Listening :=
  match listening.tcb.backlog with
  | [] => .error .backlogRead
  | _ :: rest => .ok (listening.withListener fun tcb => { tcb with backlog := rest, backlogfree := tcb.backlogfree + 1 })

def polled : Bool :=
  let events := internalpoll listening.tcb true false
  events.pollin || events.pollerr || events.pollhup

def tcpAccept (nonblocking : Bool) : Except ListenFault Listening :=
  if listening.tcb.state ≠ .listen then .ok listening
  else if listening.polled then listening.takeBacklog
  else if nonblocking then .ok listening
  else .ok { listening with waiting := listening.waiting + 1 }

/-- A waiting call goes on. It does not look at the state of the block again. -/
def resumeAccept : Except ListenFault Listening :=
  if listening.waiting = 0 then .error .notReady
  else if listening.polled then { listening with waiting := listening.waiting - 1 }.takeBacklog
  else .ok listening

end Listening

/-- The timeout of a child finds the packet that its worker handled before. Each event is one step, although
`tcp_listen` releases the mutex of the listening block once more than it acquires it, so that the mutex does not keep
two workers apart. -/
inductive ListenEvent where
  | syn (key : Connkey) (packet : Packet) (around : SynSurroundings)
  | packet (id : Nat) (packet : Packet) (allocated : Bool) (newsendmss : Nat)
  | timeout (id elapsedms : Nat) (stale : Packet) (allocated : Bool) (newsendmss : Nat)
  | accept (nonblocking : Bool)
  | resumeAccept

namespace Listening

def step (listening : Listening) : ListenEvent → Except ListenFault Listening
  | .syn key packet around => listening.listenPacket key packet around
  | .packet id packet allocated newsendmss =>
    listening.task id fun endpoint =>
      endpoint.tcpPacket packet ⟨allocated, newsendmss, listening.tcb.state = .closed⟩
  | .timeout id elapsedms stale allocated newsendmss =>
    listening.task id fun endpoint =>
      endpoint.tcpTimeout elapsedms stale ⟨allocated, newsendmss, listening.tcb.state = .closed⟩
  | .accept nonblocking => listening.tcpAccept nonblocking
  | .resumeAccept => listening.resumeAccept

end Listening

/-- A block that starts to listen with a backlog of this size. -/
def listen (size : Nat) : Listening where
  size := size
  listener := ⟨{ allocatetcb with state := .listen, backlogfree := size }, [], 0⟩
  children := []
  conntable := []
  waiting := 0

end Astral.Net
