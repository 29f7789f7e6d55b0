/-
This file models the ring buffer of a socket as the list of its bytes, and the transfers between it and scatter lists.
-/

import Astral.Construction.Iovec

namespace Astral.Io

variable {B Side : Type}

def socketBuffer : Nat := 256 * 1024

def freespace (ring : List B) : Nat := socketBuffer - ring.length

def ringWrite (ring buffer : List B) : List B × Nat :=
  let count := min buffer.length (freespace ring)
  (ring ++ buffer.take count, count)

/-- The start of a peek is bounded by the free space. A negative count meets a fault before it ends. -/
def ringPeek (ring : List B) (offset count : Nat) : Option (List B) :=
  if offset ≥ ring.length then some []
  else
    let count := minLong count (ring.length - offset)
    if count ≤ ring.length - offset then some ((ring.drop (min offset (freespace ring))).take count) else none

def ringTruncate (ring : List B) (count : Nat) : List B := ring.drop (min ring.length count)

/-- The entries hold this data, of which the first bytes can be accessed. A failed write takes back what the earlier
chunks wrote. -/
def iovecIteratorWriteToRing (data : List B) (accessible : Nat) : Transfer (List B) where
  move ring _ count done :=
    let written := ringWrite ring ((data.drop done).take count)
    if done + written.2 ≤ accessible then (written.1, some written.2) else (ring.take (ring.length - done), none)
  stopsEmpty := true
  complete byteCount _ done := done = byteCount

/-- The copy to the entries puts the bytes behind those that it copied before. -/
def iovecIteratorPeekFromRing (offset : Nat) : Transfer (List B × List B) where
  move side _ count done :=
    match ringPeek side.1 (addWord offset done) count with
    | none => (side, none)
    | some bytes => ((side.1, side.2 ++ bytes), some bytes.length)
  stopsEmpty := true
  complete byteCount _ done := done = byteCount

/-- Only the first bytes of the entries can be accessed. -/
def Transfer.faultingAt (transfer : Transfer Side) (accessible : Nat) : Transfer Side where
  move side address count done :=
    match transfer.move side address count done with
    | (next, some moved) => if done + moved ≤ accessible then (next, some moved) else (side, none)
    | (next, none) => (next, none)
  stopsEmpty := transfer.stopsEmpty
  complete := transfer.complete

end Astral.Io
