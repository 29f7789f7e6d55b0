/-
This file models futexes, which are found by a physical address, and the anonymous memory that changes it.
-/

import Astral.Construction.Machine
import Astral.Library.Run

namespace Astral.Futexes

open Function

/-- The address is rounded down before its offset in the page is taken. -/
def vmmGetphysical (frame : Nat → Nat) (addr : Nat) : Nat :=
  let addr := roundDown addr pageSize
  frame (addr / pageSize) + (addr - roundDown addr pageSize)

structure Futex where
  waiting : Int
  waking : Int
  deriving DecidableEq

/-- A thread in the loop of `FUTEX_WAIT`, with the key of its futex and whether an event has reached its descriptor. -/
structure Waiter where
  thread : Nat
  word : Nat
  key : Nat
  event : Bool
  deriving DecidableEq

structure System where
  futexes : Nat → Option Futex
  waiters : List Waiter

/-- How the wait of a thread ended. -/
inductive Return where
  | woken
  | timeout
  | interrupted
  deriving DecidableEq

namespace System

variable (system : System)

def empty : System := ⟨fun _ => none, []⟩

/-- The word still has the expected value, and the futex is made when it is missing. -/
def wait (physical : Nat) (thread word : Nat) : Except Fault System :=
  if system.waiters.all (·.thread ≠ thread) then
    let futex := (system.futexes physical).getD ⟨0, 0⟩
    .ok ⟨update system.futexes physical (some { futex with waiting := futex.waiting + 1 }),
      ⟨thread, word, physical, false⟩ :: system.waiters⟩
  else .error .notReady

/-- Every thread that waits at the futex gets the event. -/
def wake (physical : Nat) (value : Nat) : System × Int :=
  match system.futexes physical with
  | none => (system, 0)
  | some futex =>
    let delta := futex.waiting - futex.waking
    let ret := if (value : Int) > delta then delta else value
    (⟨update system.futexes physical (some { futex with waking := futex.waking + ret }),
      system.waiters.map fun waiter => if waiter.key = physical then { waiter with event := true } else waiter⟩, ret)

/-- A thread leaves, and the last one frees the futex. -/
def leave (waiter : Waiter) (futex : Futex) : System :=
  ⟨update system.futexes waiter.key (if futex.waiting = 0 then none else some futex),
    system.waiters.erase waiter⟩

/-- A thread takes the mutex again after its wait. -/
def resume (thread : Nat) (how : Return) : Except Fault System :=
  match system.waiters.find? (·.thread = thread) with
  | none => .error .notReady
  | some waiter =>
    match system.futexes waiter.key with
    | none => .error .freed
    | some futex =>
      let waiting := futex.waiting - 1
      let late := system.leave waiter ⟨waiting, if futex.waking > waiting then waiting else futex.waking⟩
      match how with
      -- the event may come after the wait has ended and before the mutex is taken
      | .timeout | .interrupted => .ok late
      | .woken =>
        if !waiter.event then .error .notReady
        else if futex.waking = 0 then .ok system
        else .ok (system.leave waiter ⟨waiting, futex.waking - 1⟩)

end System

inductive Event where
  | wait (thread word : Nat)
  | wake (word value : Nat)
  | resume (thread : Nat) (how : Return)

/-- The sections under the mutex, for words with fixed physical addresses. -/
def System.step (physical : Nat → Nat) (system : System) : Event → Except Fault System
  | .wait thread word => system.wait (physical word) thread word
  | .wake word value => .ok (system.wake (physical word) value).1
  | .resume thread how => system.resume thread how

/-- The page table entries of private anonymous memory, and how often each physical page is used. -/
structure Memory where
  table : Nat → Option (Nat × Bool)
  refcount : Nat → Nat
  zeropage : Nat

namespace Memory

variable (memory : Memory)

/-- A read of a page that is not present maps the page of zeros. -/
def touch (page : Nat) : Memory :=
  match memory.table page with
  | some _ => memory
  | none =>
    { memory with
      table := update memory.table page (some (memory.zeropage, false))
      refcount := update memory.refcount memory.zeropage (memory.refcount memory.zeropage + 1) }

/-- A write to a page that is present. A page that is used more than once is copied to another one. -/
def write (page newphys : Nat) : Except Fault Memory :=
  match memory.table page with
  | none => .error .notReady
  | some (_, true) => .ok memory
  | some (oldphys, false) =>
    if memory.refcount oldphys = 1 then
      .ok { memory with table := update memory.table page (some (oldphys, true)) }
    else if newphys = oldphys ∨ memory.refcount newphys ≠ 0 then .error .notReady
    else
      let refcount := update memory.refcount newphys 1
      .ok { memory with
        table := update memory.table page (some (newphys, true))
        refcount := update refcount oldphys (refcount oldphys - 1) }

/-- A fork shares the page with the new process. -/
def share (page : Nat) : Memory :=
  match memory.table page with
  | none => memory
  | some (phys, _) =>
    { memory with
      table := update memory.table page (some (phys, false))
      refcount := update memory.refcount phys (memory.refcount phys + 1) }

/-- Another process gives up its use of a physical page. -/
def unshare (phys : Nat) : Memory :=
  { memory with refcount := update memory.refcount phys (memory.refcount phys - 1) }

def frame (page : Nat) : Nat := ((memory.table page).map Prod.fst).getD 0

end Memory

structure Machine where
  memory : Memory
  system : System

inductive Action where
  | futex (event : Event)
  | store (word newphys : Nat)
  | share (page : Nat)
  | unshare (phys : Nat)

/-- A call reads the word before it takes the physical address. -/
def Machine.step (machine : Machine) : Action → Except Fault Machine
  | .futex event =>
    let memory :=
      match event with
      | .wait _ word | .wake word _ => machine.memory.touch (word / pageSize)
      | .resume _ _ => machine.memory
    do return ⟨memory, ← machine.system.step (vmmGetphysical memory.frame) event⟩
  | .store word newphys => do
      let page := word / pageSize
      return { machine with memory := ← (machine.memory.touch page).write page newphys }
  | .share page => .ok { machine with memory := machine.memory.share page }
  | .unshare phys => .ok { machine with memory := machine.memory.unshare phys }

end Astral.Futexes
