/-
This file models the process groups of job control.
-/

import Astral.Construction.Machine
import Astral.Library.Chains

namespace Astral.Jobctl

open Function Library

/-- The `session` and `pgrp` fields of all processes. A new process has only null pointers. -/
structure Jobs (P : Type) where
  session : P → Option P
  leader : P → Option P
  nextmember : P → Option P
  previousmember : P → Option P

namespace Jobs

variable {P : Type}

/-- No process has joined a group. -/
def zeroed : Jobs P := ⟨fun _ => none, fun _ => none, fun _ => none, fun _ => none⟩

variable [DecidableEq P] (jobs : Jobs P)

def addtolist (pgrp proc : P) : Jobs P :=
  let next := update jobs.nextmember proc (jobs.nextmember pgrp)
  let previous := update jobs.previousmember proc none
  let next := update next pgrp (some proc)
  { jobs with
    nextmember := next
    previousmember :=
      match next proc with
      | some following => update previous following (some proc)
      | none => previous }

def removefromlist (pgrp proc : P) : Jobs P :=
  let next :=
    match jobs.previousmember proc with
    | some before => update jobs.nextmember before (jobs.nextmember proc)
    | none => update jobs.nextmember pgrp none
  { jobs with
    nextmember := next
    previousmember :=
      match next proc with
      | some following => update jobs.previousmember following (jobs.previousmember proc)
      | none => jobs.previousmember }

/-- Clear the group fields of a process that has been taken off its list. -/
def clearGroup (proc : P) : Jobs P :=
  { jobs with
    leader := update jobs.leader proc none
    nextmember := update jobs.nextmember proc none
    previousmember := update jobs.previousmember proc none }

def newsession (proc : P) : Jobs P × Option Errno :=
  match jobs.leader proc with
  | none => (jobs, some .eperm)
  | some leader =>
    let removed := (jobs.removefromlist leader proc).clearGroup proc
    ({ removed with session := update removed.session proc none }, none)

def newgroup (proc : P) : Jobs P × Option Errno :=
  match jobs.leader proc with
  | none => (jobs, none)
  | some leader => ((jobs.removefromlist leader proc).clearGroup proc, none)

def changegroup (proc group : P) : Jobs P × Option Errno :=
  match jobs.leader proc with
  | none => (jobs, some .eperm)
  | some leader =>
    let removed := jobs.removefromlist leader proc
    ({ removed with leader := update removed.leader proc (some group) }.addtolist group proc, none)

/-- The links of the process that exits are not cleared. -/
def detach (proc : P) : Jobs P :=
  let detached :=
    match jobs.leader proc with
    | none => jobs
    | some leader =>
      let removed := jobs.removefromlist leader proc
      { removed with leader := update removed.leader proc none }
  { detached with session := update detached.session proc none }

def addproc (parent proc : P) : Jobs P :=
  let leader := (jobs.leader parent).getD parent
  { jobs with
    session := update jobs.session proc (some ((jobs.session parent).getD parent))
    leader := update jobs.leader proc (some leader) }.addtolist leader proc

/-- The processes that get a signal no sender restricts, if the fuel is enough. The group is given by its leader, or
it is the group of the calling process. -/
def signal (proc : Option P) (current : P) (fuel : Nat) : Except Errno (Option (List P)) :=
  match proc with
  | none => .ok (Chains.collect jobs.nextmember fuel (some ((jobs.leader current).getD current)))
  | some proc =>
    match jobs.leader proc with
    | some _ => .error .esrch
    | none => .ok (Chains.collect jobs.nextmember fuel (some proc))

end Jobs

inductive Call (P : Type) where
  | addproc (parent proc : P)
  | newgroup (proc : P)
  | newsession (proc : P)
  | changegroup (proc group : P)
  | detach (proc : P)

variable {P : Type} [DecidableEq P]

def Call.run (jobs : Jobs P) : Call P → Jobs P
  | .addproc parent proc => jobs.addproc parent proc
  | .newgroup proc => (jobs.newgroup proc).1
  | .newsession proc => (jobs.newsession proc).1
  | .changegroup proc group => (jobs.changegroup proc group).1
  | .detach proc => jobs.detach proc

end Astral.Jobctl
