/-
This file models how the virtual file system reads and writes files through the page cache.
-/

import Astral.Construction.Machine
import Astral.Library.Run

namespace Astral.Vfs

/-- A copy between the page that was looked up for an offset and the bytes of the caller. -/
structure Copy where
  page : Nat
  start : Nat
  done : Nat
  count : Nat
  deriving DecidableEq

/-- A cacheable node is a regular file or a block device. -/
structure Node where
  regular : Bool
  size : Nat
  deriving DecidableEq

/-- The memory behind the address of each page, the bytes of the caller, the count that is returned, all copies that
were tried, and the offsets given to `writenocache`. -/
structure State where
  pages : Nat → Nat → UInt8
  buffer : Nat → UInt8
  done : Nat
  copies : List Copy
  synced : List Nat

inductive Direction where
  | write
  | read
  deriving DecidableEq

/-- What the called functions return. The pages are counted in the order in which they are visited. -/
structure Outcomes where
  getattr : Option Errno
  resize : Option Errno
  getpage : Nat → Option Errno
  copy : Nat → Option Errno
  sync : Nat → Option Errno

structure Job where
  direction : Direction
  nocache : Bool
  outcomes : Outcomes

structure Pages where
  pageoffset : Nat
  pagecount : Nat
  startoffset : Nat
  deriving DecidableEq

def bytestopages (offset size : Nat) : Pages :=
  let pageoffset := offset / pageSize
  let toppage := roundUp (addWord offset size) pageSize / pageSize
  { pageoffset, pagecount := subWord toppage pageoffset, startoffset := offset % pageSize }

/-- The bytes that a copy moves. -/
def move (direction : Direction) (copy : Copy) (state : State) : State :=
  match direction with
  | .write =>
    { state with
      pages := Function.update state.pages copy.page fun position =>
        if copy.start ≤ position ∧ position < copy.start + copy.count then
          state.buffer (copy.done + (position - copy.start))
        else state.pages copy.page position }
  | .read =>
    { state with
      buffer := fun index =>
        if copy.done ≤ index ∧ index < copy.done + copy.count then
          state.pages copy.page (copy.start + (index - copy.done))
        else state.buffer index }

/-- What is done with a page that is not to stay in the cache. -/
def uncache (job : Job) (index syncoffset : Nat) (state : State) : Except (Errno × State) State :=
  match job.direction with
  | .read => .ok state
  | .write =>
    let state := { state with synced := state.synced ++ [syncoffset] }
    match job.outcomes.sync index with
    | some error => .error (error, state)
    | none => .ok state

/-- Look up a page and copy a part of it. -/
def visit (job : Job) (page start count syncoffset : Nat) (state : State) : Except (Errno × State) State :=
  let index := state.copies.length
  match job.outcomes.getpage index with
  | some error => .error (error, state)
  | none =>
    let copy : Copy := ⟨page, start, state.done, count⟩
    let state := { state with copies := state.copies ++ [copy] }
    match job.outcomes.copy index with
    | some error => .error (error, state)
    | none =>
      let state := { move job.direction copy state with done := addWord state.done count }
      if job.nocache then uncache job index syncoffset state else .ok state

/-- The rounds of the loop over the pages after the first one. -/
def visitFrom (job : Job) (size pageoffset : Nat) : (rounds index : Nat) → State → Except (Errno × State) State
  | 0, _, state => .ok state
  | rounds + 1, index, state => do
      let page := addWord (mulWord pageoffset pageSize) (index * pageSize)
      let state ← visit job page 0 (minLong pageSize (subWord size state.done)) page state
      visitFrom job size pageoffset rounds (index + 1) state

/-- How often the loop runs, whose variable grows by a page. -/
def roundCount (pagecount : Nat) : Nat := mulWord pagecount pageSize / pageSize

/-- Go over the pages of a range. Behind an unaligned first page the next offset is given to `writenocache`. -/
def transfer (job : Job) (size offset : Nat) (state : State) : Except (Errno × State) State :=
  let { pageoffset, pagecount, startoffset } := bytestopages offset size
  if startoffset ≠ 0 then do
    let count := minLong (subWord pageSize startoffset) size
    let next := addWord pageoffset 1
    let state ← visit job (mulWord pageoffset pageSize) startoffset count (mulWord next pageSize) state
    visitFrom job size next (roundCount (subWord pagecount 1)) 0 state
  else visitFrom job size pageoffset (roundCount pagecount) 0 state

structure Result where
  error : Option Errno
  node : Node
  state : State

def finish (node : Node) : Except (Errno × State) State → Result
  | .ok state => ⟨none, node, state⟩
  | .error (error, state) => ⟨some error, node, state⟩

def vfsWriteIovec (nocache : Bool) (outcomes : Outcomes) (node : Node) (size offset : Nat) (state : State) : Result :=
  let job : Job := ⟨.write, nocache, outcomes⟩
  let state := { state with done := 0 }
  if size = 0 then ⟨none, node, state⟩
  else if addWord size offset < offset then ⟨some .einval, node, state⟩
  else
    match outcomes.getattr with
    | some error => ⟨some error, node, state⟩
    | none =>
      let newsize := if addWord size offset > node.size then addWord size offset else 0
      if node.regular && newsize ≠ 0 then
        match outcomes.resize with
        | some error => ⟨some error, node, state⟩
        | none => finish { node with size := newsize } (transfer job size offset state)
      else if !node.regular then
        if offset ≥ node.size then ⟨none, node, state⟩
        else finish node (transfer job (subWord (minLong (addWord size offset) node.size) offset) offset state)
      else finish node (transfer job size offset state)

def vfsReadIovec (nocache : Bool) (outcomes : Outcomes) (node : Node) (size offset : Nat) (state : State) : Result :=
  let job : Job := ⟨.read, nocache, outcomes⟩
  let state := { state with done := 0 }
  if size = 0 then ⟨none, node, state⟩
  else if addWord size offset < offset then ⟨some .einval, node, state⟩
  else
    match if node.regular then outcomes.getattr else none with
    | some error => ⟨some error, node, state⟩
    | none =>
      if offset ≥ node.size then ⟨none, node, state⟩
      else finish node (transfer job (subWord (minLong (addWord size offset) node.size) offset) offset state)

/-- A call of one of the two functions. -/
structure Request where
  direction : Direction
  nocache : Bool
  size : Nat
  offset : Nat

namespace Request

/-- The call goes to its end before it takes the size lock. -/
def refused (request : Request) : Bool :=
  request.size = 0 || addWord request.size request.offset < request.offset

def run (request : Request) (outcomes : Outcomes) (node : Node) (state : State) : Result :=
  match request.direction with
  | .write => vfsWriteIovec request.nocache outcomes node request.size request.offset state
  | .read => vfsReadIovec request.nocache outcomes node request.size request.offset state

end Request

/-- Where a call is. In `leave` it is about to release the size lock, which it did not take. -/
inductive Call where
  | want (request : Request)
  | inside (request : Request)
  | leave
  | done

/-- The size lock is a semaphore, of which only the number of free tokens is kept. -/
structure Shared where
  node : Node
  pages : Nat → Nat → UInt8
  sizeLock : Nat
  calls : List Call

/-- A call that leaves has what the called functions returned and the bytes of its caller. -/
inductive Event where
  | start (request : Request)
  | hold (index : Nat)
  | release (index : Nat) (outcomes : Outcomes) (buffer : Nat → UInt8)

namespace Shared

def start (shared : Shared) (request : Request) : Shared :=
  { shared with calls := shared.calls ++ [if request.refused then .leave else .want request] }

def hold (shared : Shared) (index : Nat) : Except Fault Shared :=
  match shared.calls[index]? with
  | some (.want request) =>
    if shared.sizeLock = 0 then .error .notReady
    else .ok { shared with sizeLock := shared.sizeLock - 1, calls := shared.calls.set index (.inside request) }
  | _ => .error .notReady

/-- All exits of a call end with a release. -/
def release (shared : Shared) (index : Nat) (outcomes : Outcomes) (buffer : Nat → UInt8) : Except Fault Shared :=
  match shared.calls[index]? with
  | some (.inside request) =>
    let result := request.run outcomes shared.node ⟨shared.pages, buffer, 0, [], []⟩
    .ok
      { node := result.node
        pages := result.state.pages
        sizeLock := shared.sizeLock + 1
        calls := shared.calls.set index .done }
  | some .leave => .ok { shared with sizeLock := shared.sizeLock + 1, calls := shared.calls.set index .done }
  | _ => .error .notReady

end Shared

def step (shared : Shared) : Event → Except Fault Shared
  | .start request => .ok (shared.start request)
  | .hold index => shared.hold index
  | .release index outcomes buffer => shared.release index outcomes buffer

/-- No call uses the node. -/
def unused (node : Node) (pages : Nat → Nat → UInt8) : Shared := ⟨node, pages, 1, []⟩

end Astral.Vfs
