/-
This file models how blocking opens of a FIFO wait for its other end. Each part of a call that holds its lock is one
step.
-/

import Astral.Construction.Pipe

namespace Astral.Pipefs

/-- An open that waits has only one end. A reader waits for `writeopenevent`, a writer for `readopenevent`. -/
structure Waiter where
  read : Bool
  signalled : Bool
  deriving DecidableEq

structure Fifo where
  readers : Nat
  writers : Nat
  waiting : List Waiter
  deriving DecidableEq

inductive FifoCall where
  | «open» (read write : Bool)
  | wake (index : Nat)
  | interrupt (index : Nat)
  | close (read write : Bool)

namespace Fifo

variable (fifo : Fifo)

/-- An open that succeeds signals `readopenevent` if it reads, and `writeopenevent` otherwise. -/
def signal (read : Bool) : Fifo :=
  { fifo with waiting := fifo.waiting.map fun waiter =>
      { waiter with signalled := waiter.signalled || waiter.read != read } }

/-- The part of `pipefs_open` before its wait. -/
def «open» (read write : Bool) : Fifo :=
  if !read && !write then fifo
  else
    let fifo := { fifo with readers := fifo.readers + read.toNat, writers := fifo.writers + write.toNat }
    if fifo.writers > 0 ∧ fifo.readers > 0 then fifo.signal read
    else { fifo with waiting := fifo.waiting ++ [⟨read, false⟩] }

/-- A wait ends, and an open that was interrupted closes the FIFO later. The ends of the opens that wait are not
closed. -/
def step : FifoCall → Except Fault Fifo
  | .open read write => .ok (fifo.open read write)
  | .wake index =>
    match fifo.waiting[index]? with
    | some ⟨read, true⟩ => .ok ({ fifo with waiting := fifo.waiting.eraseIdx index }.signal read)
    | _ => .error .notReady
  | .interrupt index => .ok { fifo with waiting := fifo.waiting.eraseIdx index }
  | .close read write =>
    if fifo.waiting.countP (·.read) + read.toNat ≤ fifo.readers ∧
        fifo.waiting.countP (!·.read) + write.toNat ≤ fifo.writers then
      .ok { fifo with readers := fifo.readers - read.toNat, writers := fifo.writers - write.toNat }
    else .error .notReady

end Fifo

end Astral.Pipefs
