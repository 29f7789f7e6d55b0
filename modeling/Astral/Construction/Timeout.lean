/-
This file models the timer of a connection, whose expiries are handled by a worker some time later.
-/

import Astral.Construction.Tcp

namespace Astral.Net.Timeout

def nanoseconds : Nat := 1000000000

structure Timespec where
  s : Nat
  ns : Nat
  small : ns < nanoseconds
  deriving DecidableEq

def Timespec.total (time : Timespec) : Nat := time.s * nanoseconds + time.ns

def distance (one two : Nat) : Nat := one - two + (two - one)

/-- The parts of the times are compared on their own. -/
def timespecDiffms (one two : Timespec) : Nat := distance one.ns two.ns / 1000000 + distance one.s two.s * 1000

def timespecDiffus (one two : Timespec) : Nat := distance one.ns two.ns / 1000 + distance one.s two.s * 1000000

inductive State where
  | open_
  | timewait
  | abort
  deriving DecidableEq

structure Tcb where
  now : Timespec
  state : State
  lastsend : Timespec
  currentrto : Nat
  /-- The time when a running timer expires. -/
  itimer : Option Nat
  /-- The expiries that wait for a worker. -/
  tasks : Nat
  deriving DecidableEq

namespace Tcb

variable (tcb : Tcb)

def itimerPause : Tcb := { tcb with itimer := none }

/-- A time is set and the timer resumed, which must be paused and have time left. -/
def itimerResume (timerus : Nat) : Except Fault Tcb :=
  if tcb.itimer = none ∧ timerus ≠ 0 then .ok { tcb with itimer := some (tcb.now.total + timerus * 1000) }
  else .error .assertion

def tcpTransmitnextsegment : Except Fault Tcb :=
  { tcb.itimerPause with currentrto := rtoStartSec, lastsend := tcb.now }.itimerResume (rtoStartSec * 1000000)

def tcpReset : Tcb := { tcb.itimerPause with state := .abort }

inductive Outcome where
  | reset
  | retransmitted
  | rearmed
  deriving DecidableEq

def tcpHandletimeout : Except Fault (Outcome × Tcb) :=
  if tcb.currentrto = rtoMaxSec ∨ tcb.state = .timewait then .ok (.reset, tcb.itimerPause.tcpReset)
  else if timespecDiffms tcb.now tcb.lastsend / 1000 ≥ tcb.currentrto then
    let tcb := { tcb.itimerPause with lastsend := tcb.now, currentrto := tcb.currentrto * 2 }
    (Outcome.retransmitted, ·) <$> tcb.itimerResume (tcb.currentrto * 1000000)
  else (Outcome.rearmed, ·) <$> tcb.itimerPause.itimerResume (timespecDiffms tcb.now tcb.lastsend * 1000)

inductive Event where
  | wait (time : Timespec)
  | send
  | ack
  | timewait
  | expire
  | handle

def ready : Event → Bool
  | .wait time => tcb.now.total ≤ time.total
  | .send | .timewait => tcb.state = .open_
  | .ack => true
  | .expire => tcb.itimer.any (· ≤ tcb.now.total)
  | .handle => tcb.tasks ≠ 0 ∧ tcb.state ≠ .abort

def act : Event → Except Fault Tcb
  | .wait time => .ok { tcb with now := time }
  | .send => tcb.tcpTransmitnextsegment
  | .ack => .ok tcb.itimerPause
  | .timewait => { tcb.itimerPause with state := .timewait }.itimerResume (mslSec * 1000000)
  | .expire => .ok { tcb.itimerPause with tasks := tcb.tasks + 1 }
  | .handle => Prod.snd <$> { tcb with tasks := tcb.tasks - 1 }.tcpHandletimeout

def step (event : Event) : Except Fault Tcb := if tcb.ready event then tcb.act event else .error .notReady

end Tcb

/-- The first segment of a connection was sent. -/
def start (now : Timespec) : Tcb where
  now := now
  state := .open_
  lastsend := now
  currentrto := rtoStartSec
  itimer := some (now.total + rtoStartSec * nanoseconds)
  tasks := 0

end Astral.Net.Timeout
