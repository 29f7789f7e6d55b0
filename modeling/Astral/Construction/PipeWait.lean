/-
This file models how blocking writers wait for a pipe and how they are woken.
-/

import Astral.Construction.Pipe

namespace Astral.Pipefs

/-- The descriptor of a writer in `poll_dowait`: whether it is in the list of the pipe, and whether an event reached it. -/
structure Wait where
  registered : Bool
  event : Bool
  deriving DecidableEq

/-- The last field records the calls that raised `SIGPIPE`. -/
structure Room where
  pipe : Pipe
  waits : Nat → Option Wait
  sigpipe : List Nat

inductive Call where
  | «open» (read write : Bool)
  | close (read write : Bool)
  | write (id : Nat) (data : List UInt8) (memory : Bool)
  | wake (id : Nat) (memory : Bool)
  | interrupt (id : Nat)
  | read (id size : Nat) (nonblock memory : Bool)
  | resumeRead (id : Nat) (memory : Bool)
  | interruptRead (id : Nat)

def Revents.any (revents : Revents) : Bool := revents.pollin || revents.pollout || revents.pollerr || revents.pollhup

namespace Room

variable (room : Room)

/-- An event that all waiting writers look for. -/
def pollEvent : Room :=
  { room with waits := fun id => (room.waits id).map fun wait => { wait with event := wait.event || wait.registered } }

/-- A round of a write ended. When the call goes on it is put in the list only if the pipe reports nothing. -/
def settle (id : Nat) (pipe : Pipe) : Room :=
  let result := (pipe.writes id).bind Write.result
  { pipe
    waits := Function.update room.waits id
      (if result = none then some ⟨!(pipe.internalpoll false true).any, false⟩ else none)
    sigpipe := if result.map Prod.fst = some (some .epipe) then id :: room.sigpipe else room.sigpipe }

/-- Only a read that did not fail or wait tells the writers that there is space. -/
def readStep (event : Event) (took : Bool) : Except Fault Room := do
  let pipe ← step room.pipe event
  let room := { room with pipe }
  if took && pipe.data.length < bufferSize - pipeAtomicSize then return room.pollEvent else return room

def close (read write : Bool) : Except Fault Room :=
  if (read && room.pipe.readers = 0) || (write && room.pipe.writers = 0) then .error .notReady
  else
    let pipe := { room.pipe with
      readers := room.pipe.readers - read.toNat
      writers := room.pipe.writers - write.toNat }
    let room := { room with pipe }
    let room := if pipe.readers = 0 then room.pollEvent else room
    .ok (if pipe.writers = 0 then room.pollEvent else room)

def step : Call → Except Fault Room
  | .open read write =>
    .ok { room with pipe := { room.pipe with
      readers := room.pipe.readers + read.toNat
      writers := room.pipe.writers + write.toNat } }
  -- an `open` that fails after it was counted closes the pipe again
  | .close read write => room.close read write
  | .write id data memory => do
      return room.settle id (← Pipefs.step room.pipe (.write id data false memory))
  | .wake id memory =>
    if (room.waits id).any Wait.event then do
      return room.settle id (← Pipefs.step room.pipe (.resumeWrite id memory))
    else .error .notReady
  | .interrupt id =>
    if (room.waits id).isSome then do
      return room.settle id (← Pipefs.step room.pipe (.interruptWrite id))
    else .error .notReady
  | .read id size nonblock memory =>
    room.readStep (.read id size nonblock memory) (room.pipe.internalpoll true false).any
  | .resumeRead id memory => room.readStep (.resumeRead id memory) (room.pipe.internalpoll true false).any
  | .interruptRead id => room.readStep (.interruptRead id) false

end Room

/-- A pipe without calls. -/
def quiet (readers writers : Nat) : Room := ⟨opened readers writers, fun _ => none, []⟩

end Astral.Pipefs
