/-
This file models a pipe. Each part of a call that holds its lock is one step.
-/

import Astral.Construction.Machine
import Astral.Library.Run

namespace Astral.Pipefs

def bufferSize : Nat := 16 * 4096

def pipeAtomicSize : Nat := 4096

/-- A call of `pipefs_write`. The result is there once it returned, with an error and the count in `writec`. -/
structure Write where
  data : List UInt8
  nonblock : Bool
  case3written : Nat
  result : Option (Option Errno × Nat)
  deriving DecidableEq

/-- A call of `pipefs_read`. -/
structure Read where
  size : Nat
  nonblock : Bool
  result : Option (Option Errno × List UInt8)
  deriving DecidableEq

/-- The last two fields record the parts of writes that entered the pipe, each with its call, and all bytes read. -/
structure Pipe where
  data : List UInt8
  readers : Nat
  writers : Nat
  writes : Nat → Option Write
  reads : Nat → Option Read
  accepted : List (Nat × List UInt8)
  received : List UInt8

structure Revents where
  pollin : Bool
  pollout : Bool
  pollerr : Bool
  pollhup : Bool
  deriving DecidableEq

namespace Pipe

variable (pipe : Pipe)

def freespace : Nat := bufferSize - pipe.data.length

/-- The end of the readers is reported as an error, the end of the writers as a hang-up. -/
def internalpoll (pollin pollout : Bool) : Revents where
  pollhup := pollin && pipe.writers = 0
  pollin := pollin && pipe.writers ≠ 0 && pipe.data.length > 0
  pollerr := pollout && pipe.readers = 0
  pollout := pollout && pipe.readers ≠ 0 && pipe.data.length < bufferSize - pipeAtomicSize

def setWrite (id : Nat) (write : Write) : Pipe :=
  { pipe with writes := Function.update pipe.writes id (some write) }

def setRead (id : Nat) (read : Read) : Pipe :=
  { pipe with reads := Function.update pipe.reads id (some read) }

/-- The result has an error, the count and the pipe. -/
def writetopipe (id : Nat) (bytes : List UInt8) : Except Fault (Option Errno × Nat × Pipe) :=
  if pipe.readers = 0 then .ok (some .epipe, 0, pipe)
  else
    let writec := min bytes.length pipe.freespace
    if writec ≠ 0 then
      .ok (none, writec, { pipe with
        data := pipe.data ++ bytes.take writec
        accepted := pipe.accepted ++ [(id, bytes.take writec)] })
    else .error .assertion

/-- The call returns. -/
def leaveWrite (id : Nat) (write : Write) (error : Option Errno) (writec : Nat) : Pipe :=
  pipe.setWrite id { write with result := some (error, writec) }

/-- The call waits, unless there is no memory for the descriptor it needs. -/
def waitWrite (id : Nat) (write : Write) (memory : Bool) : Pipe :=
  if memory then pipe.setWrite id write else pipe.leaveWrite id write (some .enomem) 0

/-- The write after the loop. -/
def lastWrite (id : Nat) (write : Write) : Except Fault Pipe := do
  let (error, writec, pipe) ← pipe.writetopipe id (write.data.drop write.case3written)
  pure (pipe.leaveWrite id write error writec)

/-- A part of a large write that waits for space. -/
def partWrite (id : Nat) (write : Write) (memory : Bool) : Except Fault Pipe := do
  let size := write.data.length
  let writecount := min pipe.freespace (size - write.case3written)
  let (error, tmp, pipe) ← pipe.writetopipe id ((write.data.drop write.case3written).take writecount)
  if error.isSome then pure (pipe.leaveWrite id write error 0)
  else if tmp = writecount then
    let write := { write with case3written := write.case3written + writecount }
    if write.case3written = size then pure (pipe.leaveWrite id write none size)
    else pure (pipe.waitWrite id write memory)
  else .error .assertion

/-- One round of the loop, between two waits. -/
def writeRound (id : Nat) (write : Write) (memory : Bool) : Except Fault Pipe :=
  let size := write.data.length
  let atomic : Bool := size ≤ pipeAtomicSize
  let freebytes := pipe.freespace
  if (pipe.internalpoll false true).pollhup then pipe.lastWrite id write
  else if !write.nonblock && atomic && freebytes ≥ size then pipe.lastWrite id write
  else if write.nonblock && atomic && freebytes < size then .ok (pipe.leaveWrite id write (some .eagain) 0)
  else if write.nonblock && atomic then pipe.lastWrite id write
  else if !write.nonblock && !atomic && freebytes ≠ 0 then pipe.partWrite id write memory
  else if write.nonblock && !atomic && freebytes ≠ 0 then pipe.lastWrite id write
  else if write.nonblock && !atomic then .ok (pipe.leaveWrite id write (some .eagain) 0)
  else .ok (pipe.waitWrite id write memory)

def leaveRead (id : Nat) (read : Read) (error : Option Errno) (bytes : List UInt8) : Pipe :=
  pipe.setRead id { read with result := some (error, bytes) }

/-- One round of the loop of `pipefs_read`. -/
def readRound (id : Nat) (read : Read) (memory : Bool) : Pipe :=
  let revents := pipe.internalpoll true false
  if revents.pollin || revents.pollhup then
    let bytes := pipe.data.take read.size
    { pipe with
      data := pipe.data.drop read.size
      received := pipe.received ++ bytes }.leaveRead id read none bytes
  else if read.nonblock then pipe.leaveRead id read (some .eagain) []
  else if memory then pipe.setRead id read
  else pipe.leaveRead id read (some .enomem) []

/-- A waiting write goes on. -/
def resumeWrite (id : Nat) (memory : Bool) : Except Fault Pipe :=
  match pipe.writes id with
  | none => .error .notReady
  | some write => if write.result = none then pipe.writeRound id write memory else .error .notReady

/-- The wait of a write is interrupted. -/
def interruptWrite (id : Nat) : Except Fault Pipe :=
  match pipe.writes id with
  | none => .error .notReady
  | some write =>
    if write.result = none then .ok (pipe.leaveWrite id write (some .eintr) 0) else .error .notReady

def resumeRead (id : Nat) (memory : Bool) : Except Fault Pipe :=
  match pipe.reads id with
  | none => .error .notReady
  | some read => if read.result = none then .ok (pipe.readRound id read memory) else .error .notReady

def interruptRead (id : Nat) : Except Fault Pipe :=
  match pipe.reads id with
  | none => .error .notReady
  | some read => if read.result = none then .ok (pipe.leaveRead id read (some .eintr) []) else .error .notReady

end Pipe

/-- A call starts under a new number. The last argument tells whether there is memory to wait. -/
inductive Event where
  | write (id : Nat) (data : List UInt8) (nonblock memory : Bool)
  | resumeWrite (id : Nat) (memory : Bool)
  | interruptWrite (id : Nat)
  | read (id size : Nat) (nonblock memory : Bool)
  | resumeRead (id : Nat) (memory : Bool)
  | interruptRead (id : Nat)

def step (pipe : Pipe) : Event → Except Fault Pipe
  | .write id data nonblock memory =>
    if pipe.writes id = none then pipe.writeRound id ⟨data, nonblock, 0, none⟩ memory else .error .notReady
  | .resumeWrite id memory => pipe.resumeWrite id memory
  | .interruptWrite id => pipe.interruptWrite id
  | .read id size nonblock memory =>
    if pipe.reads id = none then .ok (pipe.readRound id ⟨size, nonblock, none⟩ memory) else .error .notReady
  | .resumeRead id memory => pipe.resumeRead id memory
  | .interruptRead id => pipe.interruptRead id

/-- An empty pipe. -/
def opened (readers writers : Nat) : Pipe where
  data := []
  readers
  writers
  writes _ := none
  reads _ := none
  accepted := []
  received := []

end Astral.Pipefs
