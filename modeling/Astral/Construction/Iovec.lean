/-
This file models scatter and gather lists, their iterator, and the transfers that walk over them.
-/

import Astral.Construction.Ringbuffer
import Astral.Library.Loop

namespace Astral.Io

open Library

structure Iovec where
  addr : Nat
  len : Nat
  deriving DecidableEq

/-- The current entry is an index into the list, and the list ends with its last entry. -/
structure IovecIterator where
  iovec : List Iovec
  current : Nat
  currentOffset : Nat
  totalOffset : Nat
  totalSize : Nat
  deriving DecidableEq

def iovecUserCheck (iovec : List Iovec) : Bool := iovec.all fun entry => isUserAddress entry.addr

def iovecSize (iovec : List Iovec) : Nat := iovec.foldl (fun size entry => addWord size entry.len) 0

def iovecIteratorInit (iovec : List Iovec) : IovecIterator := ⟨iovec, 0, 0, 0, iovecSize iovec⟩

namespace IovecIterator

def finished (iterator : IovecIterator) : Bool := iterator.totalSize = iterator.totalOffset

/-- One round skips inside the current entry and goes to the next one at its end. -/
def skipRound (iterator : IovecIterator) (entry : Iovec) (skipCurrent : Nat) : IovecIterator :=
  let totalOffset := addWord iterator.totalOffset skipCurrent
  let currentOffset := addWord iterator.currentOffset skipCurrent
  if currentOffset = entry.len ∧ iterator.totalSize ≠ totalOffset then
    { iterator with totalOffset := totalOffset, current := iterator.current + 1, currentOffset := 0 }
  else { iterator with totalOffset := totalOffset, currentOffset := currentOffset }

end IovecIterator

/-- A position behind the last entry has no meaning. -/
def iovecIteratorSkip (fuel : Nat) (iterator : IovecIterator) (skipCount : Nat) : Option IovecIterator :=
  (untilLoop (fun (iterator, skipCount) => do
    let entry ← iterator.iovec[iterator.current]?
    let remainingCurrent := subWord entry.len iterator.currentOffset
    let skipCurrent := minLong remainingCurrent skipCount
    let skipCount := subWord skipCount skipCurrent
    let iterator := iterator.skipRound entry skipCurrent
    return (!(skipCount = 0 || iterator.finished), iterator, skipCount)) fuel (iterator, skipCount)).map Prod.fst

/-- The search for an offset starts at the current entry. -/
def iovecIteratorSet (fuel : Nat) (iterator : IovecIterator) (offset : Nat) : Option IovecIterator :=
  iovecIteratorSkip fuel { iterator with currentOffset := 0, totalOffset := 0 } offset

/-- The transfers differ in how they move one chunk, whether an empty move ends them, and when they are complete. -/
structure Transfer (Side : Type) where
  move : Side → (address count done : Nat) → Side × Option Nat
  stopsEmpty : Bool
  complete : (byteCount remaining done : Nat) → Bool

structure Progress (Side : Type) where
  side : Side
  iterator : IovecIterator
  remaining : Nat
  done : Nat
  failed : Bool

namespace Transfer

variable {Side : Type} (transfer : Transfer Side)

def round (fuel byteCount : Nat) (progress : Progress Side) : Option (Bool × Progress Side) := do
  let iterator := progress.iterator
  let entry ← iterator.iovec[iterator.current]?
  let remainingCurrent := subWord entry.len iterator.currentOffset
  let copyCurrent := minLong remainingCurrent progress.remaining
  match transfer.move progress.side (addWord entry.addr iterator.currentOffset) copyCurrent progress.done with
  | (side, none) => return (false, { progress with side := side, failed := true })
  | (side, some moved) =>
    if transfer.stopsEmpty && moved = 0 then return (false, { progress with side := side })
    else
      let iterator ← iovecIteratorSkip fuel iterator copyCurrent
      let remaining := subWord progress.remaining moved
      let done := addWord progress.done moved
      return (!(transfer.complete byteCount remaining done || iterator.finished),
        ⟨side, iterator, remaining, done, false⟩)

/-- The loop moves chunks until it is complete, finished, or failed. -/
def loop (fuel byteCount : Nat) (iterator : IovecIterator) (side : Side) : Option (Progress Side) :=
  untilLoop (transfer.round fuel byteCount) fuel
    ⟨side, iterator, minLong byteCount (subWord iterator.totalSize iterator.totalOffset), 0, false⟩

/-- A failed transfer puts the iterator back. -/
def run (fuel byteCount : Nat) (iterator : IovecIterator) (side : Side) : Option (Progress Side) := do
  let progress ← transfer.loop fuel byteCount iterator side
  if progress.failed then
    let restored ← iovecIteratorSet fuel progress.iterator iterator.totalOffset
    return { progress with iterator := restored }
  else return progress

end Transfer

/-- A copy between the entries and a buffer moves the whole chunk or fails. -/
def bufferTransfer (copy : Machine → (address buffer size : Nat) → Machine × Option Errno) (buffer : Nat) :
    Transfer Machine where
  move machine address count done :=
    match copy machine address (addWord buffer done) count with
    | (machine, some _) => (machine, none)
    | (machine, none) => (machine, some count)
  stopsEmpty := false
  complete _ remaining _ := remaining = 0

def iovecIteratorCopyToBuffer (buffer : Nat) : Transfer Machine :=
  bufferTransfer (fun machine address buffer => machine.usercopyPossiblyFromUser buffer address) buffer

/-- The copy to the entries names them as the kernel side. -/
def iovecIteratorCopyFromBuffer (buffer : Nat) : Transfer Machine :=
  bufferTransfer Machine.usercopyPossiblyFromUser buffer

def iovecIteratorMemset (byte : Byte) : Transfer Machine :=
  bufferTransfer (fun machine address _ size => machine.usercopyPossiblyMemsetToUser address byte size) 0

/-- A failed write takes back what the earlier chunks wrote. -/
def iovecIteratorWriteToRingbuffer : Transfer (Machine × Ringbuffer) where
  move side address count done :=
    match ringbufferWrite side.1 side.2 address count with
    | (machine, ring, moved) =>
      if moved = ringbufferUserCopyFailed then ((machine, (ringbufferRemove ring done).1), none)
      else ((machine, ring), some moved)
  stopsEmpty := true
  complete byteCount _ done := done = byteCount

def iovecIteratorPeekFromRingbuffer (offset : Nat) : Transfer (Machine × Ringbuffer) where
  move side address count done :=
    let peeked := ringbufferPeek side.1 side.2 address (addWord offset done) count
    ((peeked.1, side.2), if peeked.2 = ringbufferUserCopyFailed then none else some peeked.2)
  stopsEmpty := true
  complete byteCount _ done := done = byteCount

/-- A read is a peek at the front and a removal of what it showed. -/
def iovecIteratorReadFromRingbuffer (fuel byteCount : Nat) (iterator : IovecIterator) (side : Machine × Ringbuffer) :
    Option (Progress (Machine × Ringbuffer)) := do
  let progress ← (iovecIteratorPeekFromRingbuffer 0).run fuel byteCount iterator side
  if progress.failed then return progress
  else
    let truncated := ringbufferTruncate progress.side.2 progress.done
    return { progress with side := (progress.side.1, truncated.1) }

/-- A transfer that uses no ring buffer leaves it alone. -/
def Transfer.besideRing (transfer : Transfer Machine) : Transfer (Machine × Ringbuffer) where
  move side address count done :=
    let moved := transfer.move side.1 address count done
    ((moved.1, side.2), moved.2)
  stopsEmpty := transfer.stopsEmpty
  complete := transfer.complete

/-- These functions move bytes between the entries and a buffer or a ring buffer. -/
inductive IovecCall where
  | copyToBuffer (buffer : Nat)
  | copyFromBuffer (buffer : Nat)
  | memset (byte : Byte)
  | writeToRingbuffer
  | peekFromRingbuffer (offset : Nat)

def IovecCall.transfer : IovecCall → Transfer (Machine × Ringbuffer)
  | .copyToBuffer buffer => (iovecIteratorCopyToBuffer buffer).besideRing
  | .copyFromBuffer buffer => (iovecIteratorCopyFromBuffer buffer).besideRing
  | .memset byte => (iovecIteratorMemset byte).besideRing
  | .writeToRingbuffer => iovecIteratorWriteToRingbuffer
  | .peekFromRingbuffer offset => iovecIteratorPeekFromRingbuffer offset

end Astral.Io
