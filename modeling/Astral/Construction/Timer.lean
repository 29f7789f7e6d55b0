/-
This file models the queue of a timer and how it drives the hardware counter.
-/

import Astral.Construction.Machine
import Astral.Library.Run

namespace Astral.Clock

/-- Times are signed words that wrap around. -/
def wrap (value : Int) : Int := value.bmod (2 ^ 64)

structure Entry where
  id : Nat
  absolutetick : Int
  repeatus : Int
  deriving DecidableEq

/-- A call that was enqueued for an entry, with the tick that the entry was due at and the tick at that time. -/
structure Firing where
  id : Nat
  due : Int
  tick : Int
  deriving DecidableEq

structure Timer where
  tickLimit : Int
  ticksperus : Int
  tickcurrent : Int
  currentTarget : Int
  running : Bool
  queue : List Entry
  /-- The flag in each entry that is cleared when the entry is inserted. -/
  fired : Nat → Bool
  /-- The target of the hardware counter while it counts. -/
  armed : Option Int
  enqueued : List Firing

def timerNew (ticksperus tickLimit : Int) : Timer where
  tickLimit
  ticksperus
  tickcurrent := 0
  currentTarget := 0
  running := false
  queue := []
  fired _ := false
  armed := none
  enqueued := []

namespace Timer

variable (timer : Timer)

/-- An entry whose time overflows is put a thousand years after the start. -/
def deadline (us : Int) : Int :=
  let absolutetick := wrap (timer.tickcurrent + us * timer.ticksperus)
  if absolutetick < timer.tickcurrent then
    wrap (timer.ticksperus * 1000 * 1000 * 60 * 60 * 24 * 30 * 12 * 1000)
  else absolutetick

/-- Search the queue for the last entry that is not behind the new one. -/
def insertBehind (entry : Entry) : List Entry → List Entry
  | [] => [entry]
  | [search] => [search, entry]
  | search :: next :: rest =>
    if entry.absolutetick ≥ search.absolutetick ∧ next.absolutetick > entry.absolutetick then
      search :: entry :: next :: rest
    else search :: insertBehind entry (next :: rest)

def insertSorted (entry : Entry) : List Entry → List Entry
  | [] => [entry]
  | head :: rest =>
    if head.absolutetick > entry.absolutetick then entry :: head :: rest else insertBehind entry (head :: rest)

def insert (entry : Entry) (us : Int) : Timer :=
  { timer with queue := insertSorted { entry with absolutetick := timer.deadline us } timer.queue }

def armForNextTarget : Timer :=
  let target :=
    match timer.queue with
    | head :: _ => min (wrap (head.absolutetick - timer.tickcurrent)) timer.tickLimit
    | [] => timer.tickLimit
  { timer with currentTarget := wrap (timer.tickcurrent + target), armed := some target }

/-- An entry that left the queue is queued again or marked as fired, and its call is enqueued. -/
def fire (entry : Entry) : Timer :=
  let after :=
    if entry.repeatus ≠ 0 then timer.insert entry entry.repeatus
    else { timer with fired := Function.update timer.fired entry.id true }
  { after with enqueued := after.enqueued ++ [⟨entry.id, entry.absolutetick, timer.tickcurrent⟩] }

/-- The loop over the due entries meets each of them once unless it never ends. -/
def checkLoop : (fuel : Nat) → Timer → Except Fault Timer
  | 0, _ => .error .endless
  | fuel + 1, timer =>
    match timer.queue with
    | [] => pure timer
    | entry :: rest =>
      if entry.absolutetick = timer.tickcurrent then checkLoop fuel (fire { timer with queue := rest } entry)
      else pure timer

def timercheck : Except Fault Timer := checkLoop (timer.queue.length + 1) timer

/-- Stop the hardware counter, which tells how much time passed. -/
def stopCounter (elapsed : Int) : Timer :=
  { timer with armed := none, tickcurrent := wrap (timer.tickcurrent + elapsed) }

def timerIsr (elapsed : Int) : Except Fault Timer :=
  match timer.queue with
  | [] => .error .assertion
  | oldentry :: rest => do
      let timer :=
        if elapsed < wrap (timer.currentTarget - timer.tickcurrent) then timer.stopCounter elapsed
        else fire { timer with armed := none, tickcurrent := timer.currentTarget, queue := rest } oldentry
      let timer ← timer.timercheck
      pure timer.armForNextTarget

def timerResume : Except Fault Timer :=
  let timer := { timer with running := true }
  if timer.queue = [] then pure timer
  else do
    let timer ← timer.timercheck
    pure timer.armForNextTarget

def timerStop (elapsed : Int) : Timer := { timer.stopCounter elapsed with running := false }

/-- An entry that is still queued would be overwritten in the middle of the queue. -/
def timerInsert (id : Nat) (us : Int) (repeating : Bool) (elapsed : Int) : Except Fault Timer :=
  if timer.queue.any fun entry => entry.id = id then .error .queuedTwice
  else
    let timer := if timer.running then timer.stopCounter elapsed else timer
    let entry : Entry := { id, absolutetick := 0, repeatus := if repeating then us else 0 }
    let timer := { timer with fired := Function.update timer.fired id false }.insert entry us
    if timer.running then do
      let timer ← timer.timercheck
      pure timer.armForNextTarget
    else pure timer

/-- Remove an entry, and return how many microseconds were left of it. -/
def timerRemove (id : Nat) (elapsed : Int) : Except Fault (Int × Timer) :=
  let timer := if timer.running then timer.stopCounter elapsed else timer
  if timer.fired id then pure (0, timer)
  else
    match timer.queue.find? fun entry => entry.id = id with
    | none => .error .assertion
    | some entry =>
      let left := wrap (entry.absolutetick - timer.tickcurrent) + timer.ticksperus - 1
      let timeremaining := (left - left.tmod timer.ticksperus).tdiv timer.ticksperus
      let timer := { timer with queue := timer.queue.eraseP fun entry => entry.id = id }
      if timer.queue = [] then pure (timeremaining, timer)
      else do
        let timer ← timer.timercheck
        pure (timeremaining, timer.armForNextTarget)

end Timer

/-- The calls on a timer, each with the time that the hardware counter reports when it is stopped. -/
inductive Event where
  | insert (id : Nat) (us : Int) (repeating : Bool) (elapsed : Int)
  | remove (id : Nat) (elapsed : Int)
  | stop (elapsed : Int)
  | resume
  | isr (elapsed : Int)

def step (timer : Timer) : Event → Except Fault Timer
  | .insert id us repeating elapsed => timer.timerInsert id us repeating elapsed
  | .remove id elapsed => Prod.snd <$> timer.timerRemove id elapsed
  | .stop elapsed => pure (timer.timerStop elapsed)
  | .resume => timer.timerResume
  | .isr elapsed => timer.timerIsr elapsed

end Astral.Clock
