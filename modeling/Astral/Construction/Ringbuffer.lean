/-
This file models the ring buffer and the passes that copy through its end.
-/

import Astral.Construction.Usercopy

namespace Astral.Io

structure Ringbuffer where
  size : Nat
  write : Nat
  read : Nat
  data : Nat
  deriving DecidableEq

/-- The result reports a failed user copy. -/
def ringbufferUserCopyFailed : Nat := wordSize - 1

namespace Ringbuffer

def datacount (ring : Ringbuffer) : Nat := subWord ring.write ring.read

def freespace (ring : Ringbuffer) : Nat := subWord ring.size ring.datacount

end Ringbuffer

def ringbufferTruncate (ring : Ringbuffer) (count : Nat) : Ringbuffer × Nat :=
  let truecount := minLong ring.datacount count
  ({ ring with read := addWord ring.read truecount }, truecount)

/-- The first pass ends at the end of the data and the second one starts at its beginning. -/
def ringbufferPasses (copy : Machine → (slot buffer size : Nat) → Machine × Option Errno) (machine : Machine)
    (ring : Ringbuffer) (start buffer count : Nat) : Machine × Option Errno :=
  let firstpassoffset := start % ring.size
  let firstpassremaining := subWord ring.size firstpassoffset
  let firstpasscount := minLong count firstpassremaining
  match copy machine (addWord ring.data firstpassoffset) buffer firstpasscount with
  | (machine, some error) => (machine, some error)
  | (machine, none) =>
    if firstpasscount = count then (machine, none)
    else copy machine ring.data (addWord buffer firstpasscount) (subWord count firstpasscount)

/-- The read names its buffer as the kernel side and the ring as the user side. -/
def ringbufferRead (machine : Machine) (ring : Ringbuffer) (buffer count : Nat) : Machine × Ringbuffer × Nat :=
  let count := minLong count ring.datacount
  match ringbufferPasses (fun machine slot buffer => machine.usercopyPossiblyFromUser buffer slot) machine ring
      ring.read buffer count with
  | (machine, some _) => (machine, ring, ringbufferUserCopyFailed)
  | (machine, none) => (machine, { ring with read := addWord ring.read count }, count)

/-- The start of a peek is bounded by the free space. -/
def ringbufferPeek (machine : Machine) (ring : Ringbuffer) (buffer offset count : Nat) : Machine × Nat :=
  if offset ≥ ring.datacount then (machine, 0)
  else
    let read := addWord ring.read (minLong offset ring.freespace)
    let count := minLong count (subWord ring.datacount offset)
    match ringbufferPasses (fun machine slot buffer => machine.usercopyPossiblyToUser buffer slot) machine ring
        read buffer count with
    | (machine, some _) => (machine, ringbufferUserCopyFailed)
    | (machine, none) => (machine, count)

def ringbufferWrite (machine : Machine) (ring : Ringbuffer) (buffer count : Nat) : Machine × Ringbuffer × Nat :=
  let count := minLong count ring.freespace
  match ringbufferPasses Machine.usercopyPossiblyFromUser machine ring ring.write buffer count with
  | (machine, some _) => (machine, ring, ringbufferUserCopyFailed)
  | (machine, none) => (machine, { ring with write := addWord ring.write count }, count)

def ringbufferRemove (ring : Ringbuffer) (count : Nat) : Ringbuffer × Nat :=
  let trueCount := minLong ring.datacount count
  ({ ring with write := subWord ring.write trueCount }, trueCount)

/-- These calls use a ring buffer. -/
inductive RingCall where
  | write (buffer count : Nat)
  | read (buffer count : Nat)
  | peek (buffer offset count : Nat)
  | truncate (count : Nat)
  | remove (count : Nat)

def RingCall.exec (machine : Machine) (ring : Ringbuffer) : RingCall → Machine × Ringbuffer × Nat
  | .write buffer count => ringbufferWrite machine ring buffer count
  | .read buffer count => ringbufferRead machine ring buffer count
  | .peek buffer offset count =>
    let peeked := ringbufferPeek machine ring buffer offset count
    (peeked.1, ring, peeked.2)
  | .truncate count => (machine, ringbufferTruncate ring count)
  | .remove count => (machine, ringbufferRemove ring count)

end Astral.Io
