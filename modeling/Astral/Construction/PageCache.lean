/-
This file models the page cache. A part of a call that holds the lock of the cache is left in one step.
-/

import Astral.Construction.Machine
import Astral.Library.Deque
import Astral.Library.Run

namespace Astral.Vmmcache

open Function Astral.Library

abbrev PageFlags := BitVec 32

def pageFlagsFree : PageFlags := 1
def pageFlagsTruncated : PageFlags := 2
def pageFlagsPinned : PageFlags := 4
def pageFlagsDirty : PageFlags := 8
def pageFlagsReady : PageFlags := 16
def pageFlagsError : PageFlags := 32

structure Page where
  backing : Option Nat
  offset : Nat
  refcount : Nat
  flags : PageFlags
  deriving DecidableEq

namespace Page

def dirty (page : Page) : Bool := hasFlag page.flags pageFlagsDirty

def truncated (page : Page) : Bool := hasFlag page.flags pageFlagsTruncated

/-- A page that was just allocated. -/
def fresh : Page := ⟨none, 0, 1, 0⟩

/-- What `vmmcache_evict` and `vmmcache_takepage` do first. The result tells whether they go on. -/
def withdraw {Cache : Type} (page : Page) (cache : Cache) (removed : Except Fault Cache) : Except Fault (Bool × Cache) :=
  if page.refcount > 1 then .ok (false, cache)
  else if page.refcount = 1 && !page.dirty then
    if page.truncated then .ok (true, cache) else (true, ·) <$> removed
  else .error .assertion

end Page

/-- The cached pages stand with the newest one first, which is their order in the table and in the lists of vnodes.
The dirty list goes through the write links of the pages. The last field records the calls of `VOP_PUTPAGE`. -/
structure Cache where
  pages : Nat → Page
  cached : List Nat
  dirtylist : Deque Nat
  putpages : List (Nat × Nat × Nat)

namespace Cache

variable (cache : Cache)

def setPage (id : Nat) (page : Page) : Cache :=
  { cache with pages := update cache.pages id page }

def setFlags (id : Nat) (flags : PageFlags) : Cache :=
  cache.setPage id { cache.pages id with flags }

/-- The list of pages of a vnode. -/
def vnodePages (vnode : Nat) : List Nat :=
  cache.cached.filter fun id => (cache.pages id).backing = some vnode

def findpage (vnode offset : Nat) : Option Nat :=
  (cache.vnodePages vnode).find? fun id => (cache.pages id).offset = offset

def putpage (id : Nat) : Cache := { cache with cached := id :: cache.cached }

def removepage (id : Nat) : Except Fault Cache :=
  match (cache.pages id).backing with
  | none => .error .null
  | some _ => .ok { cache with cached := cache.cached.erase id }

/-- Only a page that is on a free list has no references, and it is taken from there. -/
def pmmHold (id : Nat) : Except Fault Cache :=
  let page := cache.pages id
  if page.refcount = 0 && hasFlag page.flags pageFlagsFree then .error .assertion
  else .ok (cache.setPage id { page with refcount := page.refcount + 1 })

def pmmRelease (id : Nat) : Except Fault Cache :=
  let page := cache.pages id
  match page.refcount with
  | 0 => .error .assertion
  | 1 =>
    if page.dirty then .error .assertion
    else
      let flags := if page.backing = none then page.flags ||| pageFlagsFree else page.flags
      .ok (cache.setPage id { page with refcount := 0, flags })
  | count + 1 => .ok (cache.setPage id { page with refcount := count })

def withdraw (id : Nat) : Except Fault (Bool × Cache) :=
  (cache.pages id).withdraw cache (cache.removepage id)

def evict (id : Nat) : Except Fault Cache := do
  let (removed, cache) ← cache.withdraw id
  if removed then pure (cache.setPage id { cache.pages id with flags := 0, backing := none, offset := 0 })
  else pure cache

def takepage (id : Nat) : Except Fault Cache := do
  let (_, cache) ← cache.withdraw id
  pure cache

/-- Cut one page off a file. -/
def truncatePage (id : Nat) : Except Fault Cache :=
  (cache.setFlags id ((cache.pages id).flags ||| pageFlagsTruncated)).removepage id

/-- Drop the reference of a page that is pinned. -/
def unpin (id : Nat) : Except Fault Cache :=
  if hasFlag (cache.pages id).flags pageFlagsPinned then cache.pmmRelease id else .ok cache

def truncate (vnode offset : Nat) : Except Fault Cache := do
  let pagelist := (cache.vnodePages vnode).filter fun id => offset ≤ (cache.pages id).offset
  let cache ← pagelist.foldlM truncatePage cache
  pagelist.reverse.foldlM unpin cache

/-- The part of `syncpage` under the lock. -/
def syncpage (id : Nat) : Except Fault Cache :=
  if (cache.pages id).dirty then .ok (cache.setFlags id ((cache.pages id).flags &&& ~~~pageFlagsDirty))
  else .error .assertion

/-- The part of `syncpage` after the lock. -/
def writeback (id : Nat) : Except Fault Cache :=
  let page := cache.pages id
  match page.backing with
  | none => .error .null
  | some vnode =>
    if page.truncated then cache.pmmRelease id
    else { cache with putpages := cache.putpages ++ [(vnode, page.offset, id)] }.pmmRelease id

/-- The offset is tested where the flags are meant. -/
def selects (page : Page) (offset top : Nat) : Bool :=
  !(page.offset < offset || page.offset ≥ top || page.offset &&& pageFlagsDirty.toNat = 0)

/-- Move a page from the dirty list to the front of the list of pages to sync. -/
def moveDirty (dirtylist : Deque Nat) (vnodedirtylist : List Nat) (id : Nat) : Deque Nat :=
  let prev :=
    match dirtylist.next id with
    | some right => update dirtylist.prev right (dirtylist.prev id)
    | none => dirtylist.prev
  let next :=
    match prev id with
    | some left => update dirtylist.next left (dirtylist.next id)
    | none => dirtylist.next
  let head := if prev id = none then next id else dirtylist.head
  { head
    tail := if head = none then none else dirtylist.tail
    next := update next id vnodedirtylist.head?
    prev := update prev id none }

/-- One round of the loop that looks for the pages to sync. -/
def selectPage (offset top : Nat) (found : Cache × List Nat) (id : Nat) : Cache × List Nat :=
  if selects (found.1.pages id) offset top then
    ({ found.1 with dirtylist := moveDirty found.1.dirtylist found.2 id }, id :: found.2)
  else found

def select (vnode offset top : Nat) : Cache × List Nat :=
  (cache.vnodePages vnode).foldl (selectPage offset top) (cache, [])

/-- Take the first page from the list of pages to sync. -/
def takeSelected (id : Nat) : Except Fault Cache :=
  { cache with dirtylist := { cache.dirtylist with next := update cache.dirtylist.next id none } }.syncpage id

/-- What `vmmcache_syncvnode` does when nothing else runs. -/
def syncvnode (vnode offset size : Nat) : Except Fault Cache :=
  let offset := roundDown offset pageSize
  let top := addWord offset size
  if top > offset then
    let (cache, vnodedirtylist) := cache.select vnode offset top
    vnodedirtylist.foldlM (fun cache id => cache.takeSelected id >>= fun cache => cache.writeback id) cache
  else .error .assertion

/-- Put a page in front of the dirty list. -/
def pushDirty (dirtylist : Deque Nat) (id : Nat) : Deque Nat :=
  { dirtylist.pushFront id with tail := if dirtylist.head = none then some id else dirtylist.tail }

def makedirty (id : Nat) : Except Fault Cache :=
  let page := cache.pages id
  if page.dirty || page.truncated then .ok cache
  else do
    let cache := { cache.setFlags id (page.flags ||| pageFlagsDirty) with dirtylist := pushDirty cache.dirtylist id }
    let cache ← cache.pmmHold id
    if page.backing = none then .error .assertion else pure cache

/-- Take the page at the end of the dirty list. -/
def popDirty (dirtylist : Deque Nat) (id : Nat) : Deque Nat where
  head := if dirtylist.prev id = none then none else dirtylist.head
  tail := dirtylist.prev id
  next :=
    match dirtylist.prev id with
    | some left => update dirtylist.next left none
    | none => dirtylist.next
  prev := update dirtylist.prev id none

def takeLast (id : Nat) : Except Fault Cache :=
  { cache with dirtylist := popDirty cache.dirtylist id }.syncpage id

end Cache

/-- What is done between an acquisition of the lock and its release. -/
inductive Part where
  | find (vnode offset : Nat)
  | add (vnode offset newpage : Nat)
  | fail (newpage : Nat)
  | push (vnode offset page : Nat)
  | evict (page : Nat)
  | take (page : Nat)
  | truncate (vnode offset : Nat)
  | select (vnode offset top : Nat)
  | syncpage (page : Nat) (rest : List Nat)
  | sync
  | makedirty (page : Nat)
  | writer
  deriving DecidableEq

/-- Where a call is. In `leave` it is about to release the lock once more before it returns a page. -/
inductive Call where
  | want (part : Part)
  | inside (part : Part)
  | alloc (vnode offset : Nat)
  | wait (vnode offset page : Nat)
  | load (newpage : Nat)
  | writeback (page : Nat) (next : Option Part)
  | sleep
  | leave
  | returned
  | done
  deriving DecidableEq

/-- The next page of a list to sync. -/
def syncNext : List Nat → Option Part
  | [] => none
  | page :: rest => some (.syncpage page rest)

/-- A call goes on with a part, or is done. -/
def goOn : Option Part → Call
  | none => .done
  | some part => .want part

/-- A part runs up to the release of the lock. The result tells where the call goes on. -/
def Part.perform (cache : Cache) : Part → Except Fault (Cache × Call)
  | .find vnode offset =>
    match cache.findpage vnode offset with
    | some page => (·, .wait vnode offset page) <$> cache.pmmHold page
    | none => .ok (cache, .alloc vnode offset)
  | .add vnode offset newpage =>
    match cache.findpage vnode offset with
    | some page => do
        let cache ← cache.pmmHold page
        let cache ← cache.pmmRelease newpage
        pure (cache, .wait vnode offset page)
    | none =>
      let page := { cache.pages newpage with backing := some vnode, offset }
      .ok ((cache.setPage newpage page).putpage newpage, .load newpage)
  | .fail newpage => do
      let cache ← cache.removepage newpage
      let page := cache.pages newpage
      let page := { page with flags := page.flags ||| pageFlagsError, backing := none, offset := 0 }
      let cache ← (cache.setPage newpage page).pmmRelease newpage
      pure (cache, .done)
  | .push vnode offset page =>
    match cache.findpage vnode offset with
    | some _ => .ok (cache, .done)
    | none =>
      let old := cache.pages page
      let new := { old with backing := some vnode, offset, flags := old.flags ||| pageFlagsReady }
      .ok ((cache.setPage page new).putpage page, .done)
  | .evict page => (·, .done) <$> cache.evict page
  | .take page => (·, .done) <$> cache.takepage page
  | .truncate vnode offset => (·, .done) <$> cache.truncate vnode offset
  | .select vnode offset top =>
    let (cache, vnodedirtylist) := cache.select vnode offset top
    .ok (cache, goOn (syncNext vnodedirtylist))
  | .syncpage page rest => (·, .writeback page (syncNext rest)) <$> cache.takeSelected page
  | .sync => .ok (cache, .done)
  | .makedirty page => (·, .done) <$> cache.makedirty page
  | .writer =>
    match cache.dirtylist.tail with
    | none => .ok (cache, .sleep)
    | some page => (·, .writeback page (some .writer)) <$> cache.takeLast page

/-- The page that an allocation gives, and whether `VOP_GETPAGE` fails. -/
structure Outcome where
  memory : Option Nat
  failed : Bool

/-- A call goes on without the lock. No page is allocated that is cached or dirty. -/
def Call.proceed (cache : Cache) (outcome : Outcome) : Call → Except Fault (Cache × Call)
  | .alloc vnode offset =>
    match outcome.memory with
    | none => .ok (cache, .done)
    | some page =>
      if page ∈ cache.cached || (cache.pages page).dirty then .error .notReady
      else .ok (cache.setPage page .fresh, .want (.add vnode offset page))
  | .wait vnode offset page =>
    if hasFlag (cache.pages page).flags pageFlagsError then
      (·, .want (.find vnode offset)) <$> cache.pmmRelease page
    else if hasFlag (cache.pages page).flags pageFlagsReady then .ok (cache, .leave)
    else .error .notReady
  | .load newpage =>
    if outcome.failed then .ok (cache, .want (.fail newpage))
    else .ok (cache.setFlags newpage ((cache.pages newpage).flags ||| pageFlagsReady), .leave)
  | .writeback page next => (·, goOn next) <$> cache.writeback page
  | .sleep => .ok (cache, .want .writer)
  | _ => .error .notReady

inductive Request where
  | getpage (vnode offset : Nat)
  | pushpage (vnode offset page : Nat)
  | evict (page : Nat)
  | takepage (page : Nat)
  | truncate (vnode offset : Nat)
  | syncvnode (vnode offset size : Nat)
  | sync
  | makedirty (page : Nat)
  | writer

/-- What a call does before it takes the lock. -/
def Request.enter : Request → Except Fault Part
  | .getpage vnode offset => if offset % pageSize = 0 then .ok (.find vnode offset) else .error .assertion
  | .pushpage vnode offset page => if offset % pageSize = 0 then .ok (.push vnode offset page) else .error .assertion
  | .evict page => .ok (.evict page)
  | .takepage page => .ok (.take page)
  | .truncate vnode offset => .ok (.truncate vnode offset)
  | .syncvnode vnode offset size =>
    let offset := roundDown offset pageSize
    let top := addWord offset size
    if top > offset then .ok (.select vnode offset top) else .error .assertion
  | .sync => .ok .sync
  | .makedirty page => .ok (.makedirty page)
  | .writer => .ok .writer

/-- The mutex is a semaphore, of which only the number of free tokens is kept. -/
structure System where
  cache : Cache
  mutex : Nat
  calls : List Call

inductive Event where
  | start (request : Request)
  | hold (index : Nat)
  | release (index : Nat)
  | proceed (index : Nat) (outcome : Outcome)

namespace System

def start (system : System) (request : Request) : Except Fault System := do
  let part ← request.enter
  pure { system with calls := system.calls ++ [.want part] }

def hold (system : System) (index : Nat) : Except Fault System :=
  match system.calls[index]? with
  | some (.want part) =>
    if system.mutex = 0 then .error .notReady
    else .ok { system with mutex := system.mutex - 1, calls := system.calls.set index (.inside part) }
  | _ => .error .notReady

/-- A release puts a token back, whether the call holds one or not. -/
def release (system : System) (index : Nat) : Except Fault System :=
  match system.calls[index]? with
  | some (.inside part) => do
      let (cache, call) ← part.perform system.cache
      pure { cache, mutex := system.mutex + 1, calls := system.calls.set index call }
  | some .leave => .ok { system with mutex := system.mutex + 1, calls := system.calls.set index .returned }
  | _ => .error .notReady

def proceed (system : System) (index : Nat) (outcome : Outcome) : Except Fault System :=
  match system.calls[index]? with
  | some call => do
      let (cache, call) ← call.proceed system.cache outcome
      pure { system with cache, calls := system.calls.set index call }
  | none => .error .notReady

end System

def step (system : System) : Event → Except Fault System
  | .start request => system.start request
  | .hold index => system.hold index
  | .release index => system.release index
  | .proceed index outcome => system.proceed index outcome

/-- The cache is empty, and no page is in use. -/
def initial : System where
  cache :=
    { pages _ := ⟨none, 0, 0, 0⟩
      cached := []
      dirtylist := Deque.empty
      putpages := [] }
  mutex := 1
  calls := []

end Astral.Vmmcache
