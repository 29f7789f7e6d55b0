/-
This file models threads that call the physical memory manager. What a thread does under the lock of the lists is one
step, and so is what it does between two locks.
-/

import Astral.Construction.Pmm

namespace Astral.Pmm

open Function

/-- What a thread does next. -/
inductive Pc where
  | idle
  | retry (place : Section)
  /-- Hand out a page that is in no list. -/
  | taken (page : Nat)
  /-- Take a page with a reference from the page cache. -/
  | cached (place : Section) (page : Nat)
  /-- Clear the reference count of a page that the page cache has given away. -/
  | claimed (page : Nat)
  /-- Release a page that the page cache has kept. -/
  | again (place : Section) (page : Nat)
  /-- Put a page without references into its list, and then start again or return. -/
  | dropping (page : Nat) (next : Option Section)
  deriving DecidableEq

/-- The thread starts again or returns. -/
def Pc.after : Option Section → Pc
  | none => .idle
  | some place => .retry place

/-- The memory manager with a record of its calls. -/
structure Watched where
  pmm : State
  /-- The page was put into a list and not taken out again. -/
  listed : Nat → Bool
  /-- The page was returned by an allocation, and its reference count was not zero since then. -/
  out : Nat → Bool
  /-- The references that the callers own. -/
  refs : Nat → Nat
  /-- No page was taken out of a list that it was not in, and none was returned while it was out. -/
  sound : Bool

namespace Watched

variable (memory : Watched)

def unlist (page : Nat) : Watched :=
  { memory with
    listed := update memory.listed page false
    sound := memory.sound && memory.listed page }

def give (page : Nat) : Watched :=
  { memory with
    out := update memory.out page true
    refs := update memory.refs page (memory.refs page + 1)
    sound := memory.sound && !memory.out page }

def own (page count : Nat) : Watched :=
  { memory with refs := update memory.refs page count }

def setPmm (pmm : State) : Watched := { memory with pmm }

def remove (page : Nat) : Watched :=
  (memory.setPmm (memory.pmm.removefromfreelist page)).unlist page

def putback (page : Nat) : Watched :=
  { memory.setPmm (memory.pmm.putback page) with listed := update memory.listed page true }

def internalhold (page : Nat) : Except Fault Watched :=
  (fun pmm =>
    if memory.pmm.refcount page = 0 then (memory.setPmm pmm).unlist page else memory.setPmm pmm) <$>
    memory.pmm.internalhold page

/-- Hand out a page. -/
def doalloc (page : Nat) : Except Fault Watched :=
  (fun pmm => (memory.setPmm pmm).give page) <$> memory.pmm.doalloc page

/-- The part of `pmm_release` before the lock. -/
def decrement (page : Nat) (next : Option Section) : Except Fault (Pc × Watched) :=
  if memory.pmm.refcount page = 0 then .error .assertion
  else
    let pmm := memory.pmm.setRefcount page (memory.pmm.refcount page - 1)
    if pmm.refcount page = 0 then
      .ok (.dropping page next, { memory.setPmm pmm with out := update memory.out page false })
    else .ok (.after next, memory.setPmm pmm)

/-- The part of `pmm_allocpage` under the lock. -/
def choose (place : Section) : Except Fault (Pc × Watched) :=
  match memory.pmm.firstFree place with
  | some page =>
    let memory := memory.remove page
    if memory.pmm.refcount page ≠ 0 then .error .assertion else .ok (.taken page, memory)
  | none =>
    match memory.pmm.lastStandby place with
    | none => .ok (.idle, memory)
    | some page => (fun memory => (.cached place page, memory)) <$> memory.internalhold page

/-- The part of `pmm_alloc` under the lock. -/
def allocMany (size : Nat) (place : Section) : Except Fault Watched :=
  match (State.downFrom place).findSome? (memory.pmm.scanSection size) with
  | none => .ok memory
  | some last => (List.range' (last - (size - 1)) size).foldlM
    (fun memory page => (memory.remove page).doalloc page) memory

end Watched

/-- What an idle thread calls. The page cache may also change the vnode behind a page. -/
inductive Request where
  | allocpage (place : Section)
  | alloc (size : Nat) (place : Section)
  | hold (page : Nat)
  | release (page : Nat)
  | back (page : Nat) (present : Bool)

namespace Watched

/-- The first step of a call. -/
def call (memory : Watched) : Request → Except Fault (Pc × Watched)
  | .allocpage place => memory.choose place
  | .alloc size place =>
    if size = 0 then .error .assertion
    else if size = 1 then memory.choose place
    else (fun memory => (.idle, memory)) <$> memory.allocMany size place
  | .hold page => (fun after => (.idle, after.own page (memory.refs page + 1))) <$> memory.internalhold page
  | .release page => (memory.own page (memory.refs page - 1)).decrement page none
  | .back page present => .ok (.idle, memory.setPmm (memory.pmm.setBacking page present))

/-- A later step of a call. -/
def resume (memory : Watched) : Pc → Except Fault (Pc × Watched)
  | .idle => .ok (.idle, memory)
  | .retry place => memory.choose place
  | .taken page => (fun memory => (.idle, memory)) <$> memory.doalloc page
  | .cached place page =>
    (fun given => (if given then .claimed page else .again place page, memory)) <$> memory.pmm.vmmcacheTakepage page
  | .claimed page => .ok (.taken page, memory.setPmm (memory.pmm.setRefcount page 0))
  | .again place page => memory.decrement page (some place)
  | .dropping page next => .ok (.after next, memory.putback page)

end Watched

/-- The memory manager and the threads that use it. -/
structure Pool where
  memory : Watched
  threads : List Pc

/-- A thread goes on. The request counts when it is idle. -/
def Pool.step (pool : Pool) (event : Nat × Request) : Except Fault Pool :=
  match pool.threads[event.1]? with
  | none => .ok pool
  | some pc =>
    (fun result => ⟨result.2, pool.threads.set event.1 result.1⟩) <$>
      if pc = .idle then pool.memory.call event.2 else pool.memory.resume pc

/-- All managed pages are in lists, and all threads are idle. -/
def Pool.start (system : System) (threads : Nat) : Pool :=
  ⟨⟨system.pmm, fun page => page ∈ system.managed, fun _ => false, fun _ => 0, true⟩, List.replicate threads .idle⟩

end Astral.Pmm
