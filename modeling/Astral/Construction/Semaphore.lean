/-
This file models a semaphore, its list of sleeping threads, and the threads that wait for it.
-/

import Astral.Construction.Machine
import Astral.Library.Deque
import Astral.Library.Run

namespace Astral.Semaphore

open Function Astral.Library

/-- The count is a signed word of 32 bits. -/
def wrap (value : Int) : Int := value.bmod (2 ^ 32)

/-- The count and the sleep list, which is linked through fields of the threads. -/
structure Sem where
  i : Int
  sleepers : Deque Nat

namespace Sem

variable (sem : Sem)

def insert (thread : Nat) : Sem := { sem with sleepers := sem.sleepers.pushFront thread }

def get : Option (Nat × Sem) :=
  sem.sleepers.popBack.map fun result => (result.1, { sem with sleepers := result.2 })

/-- A thread finds in the ends of the list and in its own fields whether it is still in the list. -/
def removed (thread : Nat) : Bool :=
  (sem.sleepers.head = none && sem.sleepers.tail = none) ||
    !((sem.sleepers.next thread ≠ none || sem.sleepers.prev thread ≠ none) ||
      (sem.sleepers.head = some thread && sem.sleepers.tail = some thread))

def removeself (thread : Nat) : Except Fault (Bool × Sem) :=
  if sem.removed thread then .ok (false, sem)
  else
    match sem.sleepers.unlink thread with
    | none => .error .null
    | some sleepers => .ok (true, { sem with sleepers })

end Sem

/-- Where a thread is in its call of `semaphore_wait`. -/
inductive Phase where
  | outside
  | asleep (interruptible : Bool)
  | interrupted
  | woken
  deriving DecidableEq

/-- The semaphore with the threads. The last four fields record when threads arrived, which of them a signaller took
from the list and have not returned yet, and how many waits, tests and signals succeeded. -/
structure State where
  sem : Sem
  phase : Nat → Phase
  clock : Nat
  arrival : Nat → Nat
  granted : List Nat
  completed : Nat
  signals : Nat

def start (count : Nat) : State where
  sem := { i := count, sleepers := Deque.empty }
  phase _ := .outside
  clock := 0
  arrival _ := 0
  granted := []
  completed := 0
  signals := 0

/-- A mutex has one token, which waits and tests acquire and signals release. -/
def mutexInit : State := start 1

namespace State

/-- A wait takes a token, or puts the thread to sleep. -/
def semaphoreWait (state : State) (thread : Nat) (interruptible : Bool) : Except Fault State :=
  if state.phase thread = .outside then
    let sem := { state.sem with i := wrap (state.sem.i - 1) }
    if sem.i < 0 then
      .ok { state with
        sem := sem.insert thread
        phase := update state.phase thread (.asleep interruptible)
        clock := state.clock + 1
        arrival := update state.arrival thread state.clock }
    else .ok { state with sem, completed := state.completed + 1 }
  else .error .notReady

/-- A wake-up by an interruption reaches only threads in an interruptible sleep. -/
def interrupt (state : State) (thread : Nat) : State :=
  if state.phase thread = .asleep true then
    { state with phase := update state.phase thread .interrupted }
  else state

/-- A thread leaves `semaphore_wait` after its sleep. It returns whether the wait succeeded. -/
def returns (state : State) (thread : Nat) : Except Fault (Bool × State) :=
  let left := { state with phase := update state.phase thread .outside }
  match state.phase thread with
  | .woken => .ok (true, { left with granted := state.granted.erase thread, completed := state.completed + 1 })
  | .interrupted => do
      let (wasQueued, sem) ← state.sem.removeself thread
      if wasQueued then pure (false, { left with sem := { sem with i := wrap (sem.i + 1) } })
      else pure (true, { left with granted := state.granted.erase thread, completed := state.completed + 1 })
  | _ => .error .notReady

/-- A wake-up by a signaller reaches only threads that still sleep. -/
def wakeup (state : State) (thread : Nat) : State :=
  match state.phase thread with
  | .asleep _ => { state with phase := update state.phase thread .woken }
  | _ => state

def semaphoreSignal (state : State) : Except Fault State :=
  let sem := { state.sem with i := wrap (state.sem.i + 1) }
  if sem.i ≤ 0 then
    match sem.get with
    | none => .error .assertion
    | some (thread, sem) =>
      .ok ({ state with sem, granted := thread :: state.granted, signals := state.signals + 1 }.wakeup thread)
  else .ok { state with sem, signals := state.signals + 1 }

def semaphoreSignalLimit (state : State) (limit : Int) : Except Fault (Bool × State) :=
  if state.sem.i ≥ limit then .ok (false, state)
  else do
    let state ← state.semaphoreSignal
    pure (true, state)

def semaphoreTest (state : State) : Bool × State :=
  if state.sem.i > 0 then
    (true, { state with sem := { state.sem with i := state.sem.i - 1 }, completed := state.completed + 1 })
  else (false, state)

end State

inductive Event where
  | wait (thread : Nat) (interruptible : Bool)
  | interrupt (thread : Nat)
  | returns (thread : Nat)
  | signal
  | signalLimit (limit : BitVec 32)
  | test

def step (state : State) : Event → Except Fault State
  | .wait thread interruptible => state.semaphoreWait thread interruptible
  | .interrupt thread => .ok (state.interrupt thread)
  | .returns thread => Prod.snd <$> state.returns thread
  | .signal => state.semaphoreSignal
  | .signalLimit limit => Prod.snd <$> state.semaphoreSignalLimit limit.toInt
  | .test => .ok state.semaphoreTest.2

end Astral.Semaphore
