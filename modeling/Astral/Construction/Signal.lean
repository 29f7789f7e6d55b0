/-
This file models the signals of a process and how its threads stop, continue, and die.
-/

import Astral.Construction.Machine
import Astral.Library.Run

namespace Astral.Signal

open Function

def nsig : Nat := 65

def sigkill : Nat := 9

def sigcont : Nat := 18

def sigstop : Nat := 19

inductive Action where
  | term
  | ign
  | core
  | stop
  | cont
  deriving DecidableEq

/-- The signals that are not in the table of the source terminate. -/
def defaultaction (signal : Nat) : Action :=
  if signal ∈ [3, 4, 5, 6, 7, 8, 11, 24, 25, 31] then .core
  else if signal ∈ [17, 23, 28] then .ign
  else if signal ∈ [19, 20, 21, 22] then .stop
  else if signal = 18 then .cont
  else .term

abbrev Sigset : Type := Nat → Bool

def Sigset.setOn (sigset : Sigset) (signal : Nat) : Sigset := update sigset signal true

def Sigset.setOff (sigset : Sigset) (signal : Nat) : Sigset := update sigset signal false

inductive Address where
  | dfl
  | ign
  | handler
  deriving DecidableEq

structure Sigaction where
  address : Address
  siginfo : Bool
  nodefer : Bool
  resethand : Bool
  mask : Sigset

def Sigaction.zero : Sigaction := ⟨.dfl, false, false, false, fun _ => false⟩

/-- A thread runs, sleeps because it was stopped, was woken from that sleep, or leaves its process. -/
inductive Phase where
  | running
  | stopSleeping
  | stopWoken
  | terminating
  deriving DecidableEq

/-- The last field records that SIGKILL was sent to the thread. -/
structure Thread where
  mask : Sigset
  pending : Sigset
  urgent : Sigset
  waiting : Sigset
  stopped : Bool
  dead : Bool
  phase : Phase
  killed : Bool

structure Proc where
  threads : List Thread
  pending : Sigset
  actions : Nat → Sigaction
  status : Nat
  stopunwaited : Bool
  continueunwaited : Bool

namespace Thread

/-- The sleep of a stopped thread is not interruptible. -/
def wakeup (thread : Thread) (interrupted : Bool) : Thread :=
  if thread.phase = .stopSleeping ∧ interrupted = false then { thread with phase := .stopWoken } else thread

/-- A signal is made pending. -/
def receive (thread : Thread) (signal : Nat) : Thread :=
  { thread with
    pending := thread.pending.setOn signal
    killed := thread.killed || signal = sigkill }

end Thread

/-- What the action for a signal says about it. -/
structure Disposition where
  notignored : Bool
  notignorable : Bool
  shouldstop : Bool
  deriving DecidableEq

def disposition (actions : Nat → Sigaction) (signal : Nat) : Disposition :=
  let address := (actions signal).address
  { notignored :=
      address ≠ .ign && ((address = .dfl && defaultaction signal ≠ .ign) || address ≠ .dfl)
    notignorable := signal = sigkill || signal = sigstop || signal = sigcont
    shouldstop := (address = .dfl && defaultaction signal = .stop) || signal = sigstop }

/-- What happened to a thread in the loop. -/
inductive Outcome where
  | continued
  | skipped
  | signalled
  deriving DecidableEq

/-- A signal reaches a thread that does not mask it. -/
def deliver (disposition : Disposition) (signal : Nat) (thread : Thread) : Thread × Outcome :=
  let thread := thread.receive signal
  if disposition.notignored || disposition.notignorable then
    if thread.stopped && (signal = sigcont || signal = sigkill) then
      ({ thread with stopped := false }.wakeup false, .continued)
    else if signal = sigcont then ({ thread with pending := thread.pending.setOff signal }, .skipped)
    else (thread.wakeup true, .signalled)
  else (thread, .signalled)

/-- The loop over the threads ends with the first that takes the signal, unless it is for all of them. The result tells
whether a thread continued and whether the loop ended early. -/
def signalThreads (disposition : Disposition) (signal : Nat) : List Thread → List Thread × Bool × Bool
  | [] => ([], false, false)
  | thread :: rest =>
    if thread.dead then
      let (rest, continued, returned) := signalThreads disposition signal rest
      (thread :: rest, continued, returned)
    else if thread.mask signal = false || disposition.notignorable then
      let (thread, outcome) := deliver disposition signal thread
      if outcome = .skipped || disposition.shouldstop || signal = sigcont then
        let (rest, continued, returned) := signalThreads disposition signal rest
        (thread :: rest, outcome = .continued || continued, returned)
      else (thread :: rest, outcome = .continued, true)
    else
      let (rest, continued, returned) := signalThreads disposition signal rest
      (thread :: rest, continued, returned)

/-- The first thread that waits for the signal gets it. -/
def signalWaiting (signal : Nat) : List Thread → Option (List Thread)
  | [] => none
  | thread :: rest =>
    if thread.waiting signal then some (thread.receive signal :: rest)
    else (signalWaiting signal rest).map (thread :: ·)

variable (proc : Proc)

/-- The parent is told about a child that stopped or continued. -/
def Proc.report (disposition : Disposition) (signal : Nat) (continued : Bool) : Proc :=
  let proc :=
    if (disposition.notignorable || disposition.notignored) && defaultaction signal = .stop then
      { proc with status := 0x7f ||| signal <<< 8, stopunwaited := true }
    else proc
  if continued then { proc with status := 0xffff, continueunwaited := true } else proc

def Proc.signalproc (signal : Nat) : Proc :=
  let disposition := disposition proc.actions signal
  let (threads, continued, returned) := signalThreads disposition signal proc.threads
  let proc := { proc with threads }
  if returned then proc
  else if !disposition.notignorable && !(continued || disposition.shouldstop) then
    match signalWaiting signal threads with
    | some threads => { proc with threads }
    | none => { proc with pending := proc.pending.setOn signal }.report disposition signal continued
  else proc.report disposition signal continued

inductive Source where
  | urgent
  | thread
  | process
  deriving DecidableEq

/-- The signal that is handled next, and the set that has it. -/
def Proc.nextSignal (thread : Thread) : Option (Nat × Source) :=
  match ((List.range' 1 (nsig - 1)).filter thread.urgent).getLast? with
  | some signal => some (signal, .urgent)
  | none =>
    ((List.range' 1 (nsig - 1)).find? fun signal =>
        !thread.mask signal && (thread.pending signal || proc.pending signal)).map fun signal =>
      (signal, if thread.pending signal then .thread else .process)

/-- The signal leaves the set that has it. -/
def takeSignal (thread : Thread) (signal : Nat) : Source → Proc × Thread
  | .urgent => (proc, { thread with urgent := thread.urgent.setOff signal })
  | .thread => (proc, { thread with pending := thread.pending.setOff signal })
  | .process => ({ proc with pending := proc.pending.setOff signal }, thread)

/-- The default action of a signal. -/
def defaultStep (thread : Thread) (signal : Nat) : Thread :=
  match defaultaction signal with
  | .ign => thread
  | .cont => thread
  | .core => { thread with phase := .terminating }
  | .term => { thread with phase := .terminating }
  | .stop => if thread.pending sigcont then thread else { thread with stopped := true, phase := .stopSleeping }

/-- A handler runs with more signals masked, if the frame for it can be put on the stack. -/
def handlerStep (thread : Thread) (signal : Nat) (stackOk : Bool) : Proc × Thread :=
  if stackOk then
    let action := proc.actions signal
    let mask := if action.nodefer then thread.mask else thread.mask.setOn signal
    let mask : Sigset := fun other => mask other || (decide (1 ≤ other ∧ other < signal) && action.mask other)
    (if action.resethand then { proc with actions := update proc.actions signal Sigaction.zero } else proc,
      { thread with mask })
  else (proc, { thread with phase := .terminating })

/-- One pass of `signal_check`, up to where the thread goes to sleep. -/
def Proc.checkThread (thread : Thread) (stackOk : Bool) : Proc × Thread :=
  if proc.pending sigkill || thread.pending sigkill then (proc, { thread with phase := .terminating })
  else
    match proc.nextSignal thread with
    | none => (proc, thread)
    | some (signal, source) =>
      let action := proc.actions signal
      let (proc, thread) := takeSignal proc thread signal source
      if action.address = .ign ∧ source ≠ .urgent then (proc, thread)
      else if (action.address = .dfl ∧ action.siginfo = false) ∨ (action.address = .ign ∧ source = .urgent) then
        (proc, defaultStep thread signal)
      else handlerStep proc thread signal stackOk

/-- A thread with the mask that `signal_returnmask` leaves for its next handler. -/
structure Masked where
  thread : Thread
  returnmask : Sigset
  hasreturnmask : Bool

namespace Masked

variable (masked : Masked)

def signalReturnmask (sigset : Sigset) : Masked := { masked with returnmask := sigset, hasreturnmask := true }

/-- The masks are set before the thread sleeps. -/
def signalSuspend (sigset : Sigset) : Masked :=
  { masked with thread := { masked.thread with mask := sigset } }.signalReturnmask sigset

/-- The mask that the frame of a handler holds. -/
def oldmask : Sigset := if masked.hasreturnmask then masked.returnmask else masked.thread.mask

end Masked

/-- The signal whose handler a pass of `signal_check` sets up. -/
def Proc.handledSignal (thread : Thread) : Option (Nat × Source) :=
  if proc.pending sigkill || thread.pending sigkill then none
  else
    (proc.nextSignal thread).filter fun (signal, source) =>
      let action := proc.actions signal
      !((action.address = .ign ∧ source ≠ .urgent) ∨ (action.address = .dfl ∧ action.siginfo = false) ∨
        (action.address = .ign ∧ source = .urgent))

/-- A pass of `signal_check`, with the mask in the frame that it puts on the stack. -/
def Proc.checkMasked (masked : Masked) (stackOk : Bool) : Proc × Masked × Option Sigset :=
  let (after, thread) := proc.checkThread masked.thread stackOk
  match proc.handledSignal masked.thread with
  | none => (after, { masked with thread }, none)
  | some _ => (after, { masked with thread, hasreturnmask := false }, if stackOk then some masked.oldmask else none)

def Proc.setThread (index : Nat) (thread : Thread) : Proc :=
  { proc with threads := proc.threads.set index thread }

/-- A thread in this phase goes on. -/
def Proc.onThread (index : Nat) (phase : Phase) (act : Thread → Except Fault Proc) : Except Fault Proc :=
  match proc.threads[index]? with
  | none => .error .notReady
  | some thread => if thread.phase = phase then act thread else .error .notReady

/-- A thread that runs checks for signals. -/
def Proc.signalCheck (index : Nat) (stackOk : Bool) : Except Fault Proc :=
  proc.onThread index .running fun thread =>
    let (proc, thread) := proc.checkThread thread stackOk
    .ok (proc.setThread index thread)

/-- A thread goes on after it was stopped. -/
def Proc.resume (index : Nat) : Except Fault Proc :=
  proc.onThread index .stopWoken fun thread =>
    if thread.pending sigcont = true ∧ thread.stopped = false then
      .ok (proc.setThread index { thread with phase := .running })
    else .error .assertion

/-- A thread that runs changes something of its own. -/
def Proc.modifyThread (index : Nat) (change : Thread → Thread) : Except Fault Proc :=
  proc.onThread index .running fun thread => .ok (proc.setThread index (change thread))

/-- The first signal of the set that is pending leaves the set that has it. -/
def Proc.dequeue (thread : Thread) (sigset : Sigset) : Option (Proc × Thread) :=
  ((List.range' 1 (nsig - 1)).find? fun signal =>
    sigset signal && (thread.pending signal || proc.pending signal)).map fun signal =>
      takeSignal proc thread signal (if thread.pending signal then .thread else .process)

/-- The parts of `signal_wait` before and behind its sleep. A set with SIGKILL, which would take it away, is left out. -/
def Proc.signalWait (index : Nat) (sigset : Sigset) (woken : Bool) : Except Fault Proc :=
  proc.onThread index .running fun thread =>
    if sigset sigkill = false then
      match proc.dequeue thread sigset with
      | some (proc, thread) =>
        .ok (proc.setThread index (if woken then { thread with waiting := fun _ => false } else thread))
      | none => .ok (proc.setThread index { thread with waiting := if woken then fun _ => false else sigset })
    else .error .notReady

inductive Event where
  | signal (signal : Nat)
  | check (index : Nat) (stackOk : Bool)
  | resume (index : Nat)
  | setMask (index : Nat) (mask : Sigset)
  | wait (index : Nat) (sigset : Sigset) (woken : Bool)
  /-- The sleep of `signal_wait` is interrupted. -/
  | interrupt (index : Nat)
  | setAction (signal : Nat) (action : Sigaction)
  | exit (index : Nat)

def step (proc : Proc) : Event → Except Fault Proc
  | .signal signal => .ok (proc.signalproc signal)
  | .check index stackOk => proc.signalCheck index stackOk
  | .resume index => proc.resume index
  | .setMask index mask => proc.modifyThread index fun thread => { thread with mask }
  | .wait index sigset woken => proc.signalWait index sigset woken
  | .interrupt index => proc.modifyThread index fun thread => { thread with waiting := fun _ => false }
  | .setAction signal action => .ok { proc with actions := update proc.actions signal action }
  | .exit index =>
    proc.onThread index .terminating fun thread => .ok (proc.setThread index { thread with dead := true })

end Astral.Signal
