/-
This file models the tree of processes, how a process exits, and how its parent waits for it.
-/

import Astral.Construction.Machine
import Astral.Library.Run
import Astral.Library.Thread

namespace Astral.Proc

open Function

/-- A zombie is taken off the list of its parent, which then waits for its threads and drops the reference of the list.
The structure is freed with the last reference. -/
inductive Life where
  | absent
  | normal
  | zombie
  | taken
  | reaped
  | freed
  deriving DecidableEq

/-- All processes. The wait semaphore counts its signals, `exiting` is the number of zombies for which a process that
exits still has to signal, and `waits` are the children whose threads a process waits for. -/
structure Family (P : Type) where
  initProc : P
  parent : P → Option P
  child : P → Option P
  sibling : P → Option P
  life : P → Life
  waitsem : P → Nat
  exiting : P → Option Nat
  waits : P → List P

namespace Family

variable {P : Type} [DecidableEq P] (family : Family P)

def fork (proc new : P) : Except Fault (Family P) :=
  if family.life proc = .normal ∧ family.life new = .absent then
    .ok { family with
      parent := update family.parent new (some proc)
      sibling := update family.sibling new (family.child proc)
      child := update family.child proc (some new)
      life := update family.life new .normal }
  else .error .notReady

/-- The loop over the children, which ends with the last one. It counts the zombies before that one. -/
def reparent : (fuel : Nat) → (lastchild : P) → (count : Nat) → (parent : P → Option P) →
    Except Fault (P × Nat × (P → Option P))
  | fuel, lastchild, count, parent =>
    match family.sibling lastchild, fuel with
    | none, _ => .ok (lastchild, count, parent)
    | some _, 0 => .error .endless
    | some sibling, fuel + 1 =>
      reparent fuel sibling (if family.life lastchild = .zombie then count + 1 else count)
        (update parent lastchild (some family.initProc))

/-- The part of `proc_exit` under the mutexes of the process and of init. -/
def exit (proc : P) (fuel : Nat) : Except Fault (Family P) :=
  if proc = family.initProc then .error .assertion
  else if family.life proc = .normal ∧ family.waits proc = [] then do
    let zombie := { family with life := update family.life proc .zombie }
    match family.child proc with
    | none => .ok { zombie with exiting := update family.exiting proc (some 0) }
    | some first =>
      let (lastchild, count, parent) ← zombie.reparent fuel first 0 family.parent
      .ok { zombie with
        parent
        sibling := update family.sibling lastchild (family.child family.initProc)
        child := update family.child family.initProc (some first)
        exiting := update family.exiting proc (some count) }
  else .error .notReady

/-- The part of `proc_exit` that signals the semaphores. -/
def notify (proc : P) : Except Fault (Family P) :=
  match family.exiting proc, family.parent proc with
  | some count, some parent =>
    let waitsem := update family.waitsem parent (family.waitsem parent + 1)
    .ok { family with
      waitsem := update waitsem family.initProc (waitsem family.initProc + count)
      exiting := update family.exiting proc none }
  | _, _ => .error .notReady

/-- The loop of `waitpid`: the zombie that is found, and the child before it. -/
def scan (wanted : P → Bool) : (fuel : Nat) → (prev iterator : Option P) → Except Fault (Option P × P)
  | _, _, none => .error .notReady
  | 0, _, some _ => .error .endless
  | fuel + 1, prev, some iterator =>
    if wanted iterator && family.life iterator = .zombie then .ok (prev, iterator)
    else scan wanted fuel (some iterator) (family.sibling iterator)

/-- The part of `waitpid` under the mutex, when a zombie is found. -/
def take (proc : P) (wanted : P → Bool) (fuel : Nat) : Except Fault (Family P) :=
  if family.life proc = .normal then do
    let (prev, found) ← family.scan wanted fuel none (family.child proc)
    let taken := { family with
      life := update family.life found .taken
      waits := update family.waits proc (found :: family.waits proc) }
    match prev with
    | some prev => .ok { taken with sibling := update family.sibling prev (family.sibling found) }
    | none => .ok { taken with child := update family.child proc (family.sibling found) }
  else .error .notReady

/-- The rest of `waitpid`, when the threads of the zombie have ended. Other references may keep its structure. -/
def finish (proc found : P) (last : Bool) : Except Fault (Family P) :=
  if found ∈ family.waits proc ∧ family.exiting found = none then
    .ok { family with
      life := update family.life found (if last then .freed else .reaped)
      waits := update family.waits proc ((family.waits proc).erase found) }
  else .error .notReady

/-- The last other reference to a process is dropped. -/
def free (proc : P) : Except Fault (Family P) :=
  if family.life proc = .reaped then .ok { family with life := update family.life proc .freed }
  else .error .notReady

end Family

inductive Event (P : Type) where
  | fork (proc new : P)
  | exit (proc : P) (fuel : Nat)
  | notify (proc : P)
  | take (proc : P) (wanted : P → Bool) (fuel : Nat)
  | finish (proc found : P) (last : Bool)
  | free (proc : P)

def Family.step {P : Type} [DecidableEq P] (family : Family P) : Event P → Except Fault (Family P)
  | .fork proc new => family.fork proc new
  | .exit proc fuel => family.exit proc fuel
  | .notify proc => family.notify proc
  | .take proc wanted fuel => family.take proc wanted fuel
  | .finish proc found last => family.finish proc found last
  | .free proc => family.free proc

end Astral.Proc
