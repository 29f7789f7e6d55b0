/-
This file models poll descriptors, the headers they wait for and the delivery of events.
-/

import Astral.Construction.Machine
import Mathlib.Logic.Function.Basic

namespace Astral.Poll

def pollerr : Nat := 0x8

def pollhup : Nat := 0x10

/-- An entry is named by its descriptor and its index there. -/
abbrev Key := Nat × Nat

inductive Reason where
  | normal
  | timeout
  | interrupted
  deriving DecidableEq

/-- Where the thread of a descriptor is: it is outside `poll_dowait`, or it sleeps there, or it was woken. -/
inductive Phase where
  | running
  | asleep
  | woken (reason : Reason)
  deriving DecidableEq

/-- Who holds `wakeuplock`: the `poll_event` of a header, or the waiter itself. -/
inductive Holder where
  | free
  | event (header : Nat)
  | waiter
  deriving DecidableEq

/-- The last field counts the wake-ups since the thread went to sleep. -/
structure Polldesc where
  size : Nat
  lock : Bool
  wakeuplock : Holder
  event : Option Nat
  phase : Phase
  timer : Bool
  wakes : Nat

/-- The last field says that the entry was added and has not left. -/
structure Polldata where
  header : Option Nat
  events : Nat
  revents : Nat
  registered : Bool

/-- A header. While `poll_event` holds its lock, `todo` and `pending` are the parts of its list before and behind the
iterator, and `woken` is the entry whose thread it has just woken. -/
structure Pollheader where
  lock : Bool
  data : List Key
  events : Nat
  todo : List Key
  pending : List Key
  woken : Option Key

structure Polls where
  descs : Nat → Polldesc
  data : Key → Polldata
  headers : Nat → Pollheader

inductive Call where
  | add (header : Nat) (key : Key) (events : Nat)
  | leave (key : Key)
  | wait (desc : Nat) (timer : Bool)
  | resume (desc : Nat)
  | timeout (desc : Nat)
  | interrupt (desc : Nat)
  | event (header events : Nat)
  | scan (header : Nat)
  | wake (header : Nat)
  | release (header : Nat)
  | finish (header : Nat)

/-- The links of an entry that is in no list are empty, so that the list is cut off at its head. -/
def removefromlist (list : List Key) (key : Key) : List Key := if key ∈ list then list.erase key else []

/-- `sched_wakeup`. -/
def Polldesc.wakeup (desc : Polldesc) (reason : Reason) : Polldesc :=
  if desc.phase = .asleep then { desc with phase := .woken reason, wakes := desc.wakes + 1 } else desc

/-- What `poll_event` reports to an entry. -/
def Polldata.matching (data : Polldata) (events : Nat) : Nat := (data.events ||| pollhup ||| pollerr) &&& events

/-- The descriptor after `poll_event` has tried its locks for an entry with these events. -/
def Polldesc.notify (desc : Polldesc) (header index revents : Nat) : Polldesc :=
  if revents = 0 then desc
  else
    { desc with
      lock := true
      wakeuplock := if desc.lock = false ∧ desc.wakeuplock = .free then .event header else desc.wakeuplock
      event := desc.event.orElse fun _ => some index }

namespace Polls

variable (polls : Polls)

def setDesc (id : Nat) (desc : Polldesc) : Polls := { polls with descs := Function.update polls.descs id desc }

def setData (key : Key) (data : Polldata) : Polls := { polls with data := Function.update polls.data key data }

def setHeader (id : Nat) (header : Pollheader) : Polls :=
  { polls with headers := Function.update polls.headers id header }

/-- Adding an entry that is in a list overwrites the links of this list. -/
def pollAdd (id : Nat) (key : Key) (events : Nat) : Except Fault Polls :=
  let header := polls.headers id
  let desc := polls.descs key.1
  if header.lock = true ∨ desc.phase ≠ .running ∨ desc.size ≤ key.2 then .error .notReady
  else if (polls.data key).registered then .error .corrupted
  else .ok ((polls.setData key { polls.data key with header := some id, events, registered := true }).setHeader id
    { header with data := key :: header.data })

/-- One round of the loop of `poll_leave`. -/
def pollLeave (key : Key) : Except Fault Polls :=
  let desc := polls.descs key.1
  if desc.phase ≠ .running then .error .notReady
  -- without entries the loop runs once
  else if desc.size = 0 ∧ key.2 = 0 then .error .null
  else if desc.size ≤ key.2 then .error .notReady
  else
    match (polls.data key).header with
    | none => .ok polls
    | some id =>
      let header := polls.headers id
      if header.lock then .error .notReady
      else .ok ((polls.setData key { polls.data key with registered := false }).setHeader id
        { header with data := removefromlist header.data key })

/-- `poll_dowait` until it yields. -/
def pollDowait (id : Nat) (timer : Bool) : Except Fault Polls :=
  let desc := polls.descs id
  if desc.phase ≠ .running then .error .notReady
  else if desc.event ≠ none then .ok polls
  else .ok (polls.setDesc id { desc with lock := false, phase := .asleep, timer, wakes := 0 })

/-- The rest of `poll_dowait`. An interrupted thread waits for the `poll_event` that is about to wake it. -/
def resume (id : Nat) : Except Fault Polls :=
  let desc := polls.descs id
  match desc.phase with
  | .woken .normal =>
    if desc.lock then .ok (polls.setDesc id { desc with phase := .running, timer := false }) else .error .assertion
  | .woken .timeout => .ok (polls.setDesc id { desc with phase := .running })
  | .woken .interrupted =>
    if desc.wakeuplock = .free then
      .ok (polls.setDesc id { desc with wakeuplock := .waiter, phase := .running, timer := false })
    else .error .notReady
  | _ => .error .notReady

def timeout (id : Nat) : Except Fault Polls :=
  let desc := polls.descs id
  if desc.timer then
    let desc := { desc with timer := false }
    .ok (polls.setDesc id (if desc.lock then desc else { desc with lock := true }.wakeup .timeout))
  else .error .notReady

/-- `poll_event` until its first loop. -/
def pollEvent (id events : Nat) : Except Fault Polls :=
  let header := polls.headers id
  if header.lock then .error .notReady
  else .ok (polls.setHeader id { header with lock := true, data := [], events, todo := header.data })

/-- One round of the first loop of `poll_event`. -/
def scan (id : Nat) : Except Fault Polls :=
  let header := polls.headers id
  match header.todo with
  | [] => .error .notReady
  | key :: todo =>
    let desc := polls.descs key.1
    let data := polls.data key
    let revents := data.matching header.events
    let polls := polls.setDesc key.1 (desc.notify id key.2 revents)
    let polls := if desc.event = none ∧ revents ≠ 0 then polls.setData key { data with revents } else polls
    if revents = 0 ∨ desc.lock = true ∨ desc.wakeuplock ≠ .free then
      .ok (polls.setHeader id { header with todo, data := key :: header.data })
    else .ok (polls.setHeader id { header with todo, pending := header.pending ++ [key] })

/-- The first half of a round of the second loop of `poll_event`. -/
def wake (id : Nat) : Except Fault Polls :=
  let header := polls.headers id
  match header.todo, header.pending, header.woken with
  | [], key :: pending, none =>
    .ok ((polls.setDesc key.1 ((polls.descs key.1).wakeup .normal)).setHeader id
      { header with pending, woken := some key })
  | _, _, _ => .error .notReady

/-- The second half of the round. -/
def release (id : Nat) : Except Fault Polls :=
  let header := polls.headers id
  match header.woken with
  | none => .error .notReady
  | some key =>
    .ok ((polls.setDesc key.1 { polls.descs key.1 with wakeuplock := .free }).setHeader id
      { header with data := key :: header.data, woken := none })

def finish (id : Nat) : Except Fault Polls :=
  let header := polls.headers id
  if header.lock = true ∧ header.todo = [] ∧ header.pending = [] ∧ header.woken = none then
    .ok (polls.setHeader id { header with lock := false })
  else .error .notReady

def step : Call → Except Fault Polls
  | .add header key events => polls.pollAdd header key events
  | .leave key => polls.pollLeave key
  | .wait desc timer => polls.pollDowait desc timer
  | .resume desc => polls.resume desc
  | .timeout desc => polls.timeout desc
  | .interrupt desc => .ok (polls.setDesc desc ((polls.descs desc).wakeup .interrupted))
  | .event header events => polls.pollEvent header events
  | .scan header => polls.scan header
  | .wake header => polls.wake header
  | .release header => polls.release header
  | .finish header => polls.finish header

/-- Every descriptor as `poll_initdesc` leaves it. -/
def boot (sizes : Nat → Nat) : Polls where
  descs id := ⟨sizes id, true, .free, none, .running, false, 0⟩
  data _ := ⟨none, 0, 0, false⟩
  headers _ := ⟨false, [], 0, [], [], none⟩

end Polls

end Astral.Poll
