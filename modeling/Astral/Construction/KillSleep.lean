/-
This file models threads that go to sleep while SIGKILL is sent to their process.
-/

import Astral.Construction.Signal

namespace Astral.Signal

/-- A thread that has prepared its sleep holds its sleep lock until it has yielded. -/
inductive Rest where
  | awake
  | prepared (interruptible : Bool)
  | asleep (interruptible : Bool)
  deriving DecidableEq

/-- The phase of a thread says nothing about its other sleeps. -/
structure Sleeper extends Thread where
  shouldexit : Bool
  rest : Rest

/-- A process. A sender that made SIGKILL pending for a thread holds its locks until it has woken the thread, either as
interrupted or out of the sleep of a stopped thread. -/
structure Sleepers where
  threads : List Sleeper
  pending : Sigset
  actions : Nat → Sigaction
  waking : Option (Nat × Bool)

variable (proc : Sleepers)

/-- The scan of `yield` ends at the signal. -/
def Sleepers.interrupts (thread : Sleeper) (signal : Nat) : Bool :=
  let address := (proc.actions signal).address
  thread.urgent signal ||
    (!(address = .ign || (address = .dfl && defaultaction signal = .ign) || thread.mask signal) &&
      (thread.pending signal || proc.pending signal))

def Sleepers.gotsignal (thread : Sleeper) : Bool :=
  (List.range' 1 (nsig - 1)).any (proc.interrupts thread)

def Sleepers.yield (thread : Sleeper) : Sleeper :=
  match thread.rest with
  | .prepared interruptible =>
    if (thread.shouldexit || proc.gotsignal thread) && interruptible then { thread with rest := .awake }
    else { thread with rest := .asleep interruptible }
  | _ => thread

def Sleeper.wakeup (thread : Sleeper) (interrupted : Bool) : Sleeper :=
  match thread.rest with
  | .asleep interruptible => if interrupted && !interruptible then thread else { thread with rest := .awake }
  | _ => thread

inductive How where
  | block
  | unblock
  | setmask
  deriving DecidableEq

def changemask (mask : Sigset) (how : How) (new : Sigset) : Sigset :=
  match how with
  | .block => fun signal => mask signal || (decide (1 ≤ signal ∧ signal < nsig) && new signal)
  | .unblock => fun signal => mask signal && !(decide (1 ≤ signal ∧ signal < nsig) && new signal)
  | .setmask => new

/-- `signal_signalproc` for SIGKILL takes the first thread that is not dead. -/
def Sleepers.kill : Sleepers :=
  match proc.threads.findIdx? fun thread => !thread.dead with
  | none => proc
  | some index =>
    match proc.threads[index]? with
    | none => proc
    | some thread =>
      { proc with
        threads := proc.threads.set index
          { thread with toThread := (deliver (disposition proc.actions sigkill) sigkill thread.toThread).1 }
        waking := some (index, !thread.stopped) }

/-- The mask is changed by `sigprocmask`, `sigreturn` and `ppoll`, and by `sigsuspend` before it sleeps. -/
inductive SleepEvent where
  | prepare (index : Nat) (interruptible : Bool)
  | yield (index : Nat)
  | wakeup (index : Nat) (interrupted : Bool)
  | kill
  | finishKill
  | mask (index : Nat) (how : How) (new : Sigset)
  | sigaction (signal : Nat) (action : Sigaction)

/-- A step of one thread that is ready for it. -/
def Sleepers.modify (index : Nat) (ready : Sleeper → Bool) (change : Sleeper → Sleeper) :
    Except Fault Sleepers :=
  match proc.threads[index]? with
  | none => .error .notReady
  | some thread =>
    if ready thread then .ok { proc with threads := proc.threads.set index (change thread) } else .error .notReady

/-- The sleep lock of the thread is free. -/
def Sleeper.unlocked (thread : Sleeper) : Bool := !(thread.rest = .prepared true || thread.rest = .prepared false)

def Sleepers.step : SleepEvent → Except Fault Sleepers
  | .prepare index interruptible =>
    proc.modify index (·.rest = .awake) fun thread => { thread with rest := .prepared interruptible }
  | .yield index => proc.modify index (fun _ => true) proc.yield
  | .wakeup index interrupted => proc.modify index Sleeper.unlocked (·.wakeup interrupted)
  | .kill => if proc.waking = none then .ok proc.kill else .error .notReady
  | .finishKill =>
    match proc.waking with
    | none => .error .notReady
    | some (index, interrupted) =>
      { proc with waking := none }.modify index Sleeper.unlocked (·.wakeup interrupted)
  | .mask index how new =>
    if proc.waking = none then
      proc.modify index (·.rest = .awake) fun thread => { thread with mask := changemask thread.mask how new }
    else .error .notReady
  | .sigaction signal action =>
    if nsig < signal ∨ signal = sigkill ∨ signal = sigstop then .ok proc
    else if nsig ≤ signal then .error .assertion
    else if proc.waking = none then .ok { proc with actions := Function.update proc.actions signal action }
    else .error .notReady

end Astral.Signal
