/-
This file models the hash table and the page lists of vnodes by which the page cache finds its pages, and the calls that
use them. What a call does under the lock of the cache is one step.
-/

import Astral.Construction.Hashtable
import Astral.Construction.PageCache

namespace Astral.Vmmcache

open Astral.Library

def tableSize : Nat := 4096

/-- The bytes of a machine word in memory. -/
def wordBytes (word : Nat) : List UInt8 := (List.range 8).map fun index => (word / 256 ^ index).toUInt8

def getentry (vnode offset : Nat) : Nat := (Hashtable.fnv1ahash (wordBytes vnode ++ wordBytes offset)).toNat % tableSize

/-- The chains go through the links of the pages. Of the cache beside them, the list of pages records which pages were put
into the chains and not removed. The last two fields record the pages that were taken from the cache as they are, and
whether every removed page was in the chains. -/
structure Index where
  cache : Cache
  table : Chains Nat Nat
  vnodes : Chains Nat Nat
  cachedpages : Nat
  taken : Nat → Bool
  sound : Bool

namespace Index

variable (index : Index)

def page (id : Nat) : Page := index.cache.pages id

def setPage (id : Nat) (page : Page) : Index :=
  { index with cache := index.cache.setPage id page }

def setTaken (id : Nat) (taken : Bool) : Index :=
  { index with taken := Function.update index.taken id taken }

def setVnodenext (id : Nat) (page : Option Nat) : Index :=
  { index with vnodes := { index.vnodes with next := Function.update index.vnodes.next id page } }

/-- A walk through more pages than there are does not end. -/
def findpage (vnode offset : Nat) : Except Fault (Option Nat) :=
  let here (id : Nat) : Bool := (index.page id).backing = some vnode && (index.page id).offset = offset
  match Chains.find index.table.next here index.cachedpages (index.table.head (getentry vnode offset)) with
  | none => .error .notReady
  | some found => .ok found

def putpage (id : Nat) : Except Fault Index :=
  match (index.page id).backing with
  | none => .error .null
  | some vnode =>
    .ok { index with
      cache := index.cache.putpage id
      table := index.table.push (getentry vnode (index.page id).offset) id
      vnodes := index.vnodes.push vnode id
      cachedpages := index.cachedpages + 1 }

def removepage (id : Nat) : Except Fault Index :=
  match (index.page id).backing with
  | none => .error .null
  | some vnode =>
    .ok { index with
      cache := { index.cache with cached := index.cache.cached.erase id }
      table := (index.table.cut (getentry vnode (index.page id).offset) id).clear id
      vnodes := (index.vnodes.cut vnode id).clear id
      cachedpages := index.cachedpages - 1
      sound := index.sound && index.cache.cached.contains id }

def pmmHold (id : Nat) : Except Fault Index :=
  (fun cache => { index with cache }) <$> index.cache.pmmHold id

def pmmRelease (id : Nat) : Except Fault Index :=
  (fun cache => { index with cache }) <$> index.cache.pmmRelease id

/-- The memory manager clears all fields of a page that it gives away. -/
def pmmAllocpage (id : Nat) : Index :=
  { (index.setPage id .fresh).setTaken id false with
    table := index.table.clear id
    vnodes := index.vnodes.clear id }

/-- Make a page the one at an offset of a vnode. -/
def assign (vnode offset id : Nat) (flags : PageFlags) : Index :=
  index.setPage id { index.page id with backing := some vnode, offset, flags }

/-- Make a page anonymous. -/
def forget (id : Nat) (flags : PageFlags) : Index :=
  index.setPage id { index.page id with backing := none, offset := 0, flags }

def pushpage (vnode offset id : Nat) : Except Fault Index :=
  if offset % pageSize = 0 then do
    match ← index.findpage vnode offset with
    | some _ => pure index
    | none => (index.assign vnode offset id ((index.page id).flags ||| pageFlagsReady)).putpage id
  else .error .assertion

def withdraw (id : Nat) : Except Fault (Bool × Index) :=
  (index.page id).withdraw index (index.removepage id)

def evict (id : Nat) : Except Fault Index := do
  let (removed, index) ← index.withdraw id
  if removed then pure (index.forget id 0) else pure index

def takepage (id : Nat) : Except Fault Index := do
  let (removed, index) ← index.withdraw id
  if removed then pure (index.setTaken id true) else pure index

/-- Cut one page off a file. Its link in the list of the vnode then leads to the page that was cut off before it. -/
def truncatePage (id : Nat) (pagelist : Option Nat) : Except Fault Index := do
  let index ← (index.setPage id { index.page id with flags := (index.page id).flags ||| pageFlagsTruncated }).removepage id
  pure (index.setVnodenext id pagelist)

/-- The loop through the pages of a vnode. -/
def truncateFrom (offset : Nat) : (fuel : Nat) → Index → (page pagelist : Option Nat) → Except Fault (Index × Option Nat)
  | _, index, none, pagelist => .ok (index, pagelist)
  | 0, _, some _, _ => .error .notReady
  | fuel + 1, index, some id, pagelist =>
    let next := index.vnodes.next id
    if (index.page id).offset < offset then truncateFrom offset fuel index next pagelist
    else do
      let index ← index.truncatePage id pagelist
      truncateFrom offset fuel index next (some id)

/-- The part of `vmmcache_truncate` under the lock. -/
def truncate (vnode offset : Nat) : Except Fault (Index × Option Nat) :=
  truncateFrom offset index.cachedpages index (index.vnodes.head vnode) none

end Index

/-- Where a call is. -/
inductive Stage where
  | find (vnode offset : Nat)
  | alloc (vnode offset : Nat)
  | add (vnode offset newpage : Nat)
  | wait (vnode offset page : Nat)
  | load (newpage : Nat)
  | fail (newpage : Nat)
  | unpin (pagelist : Option Nat)
  | done
  deriving DecidableEq

namespace Index

/-- A call goes on with a page that is in the cache. -/
def wait (index : Index) (vnode offset id : Nat) : Except Fault (Stage × Index) :=
  (fun index => (.wait vnode offset id, index)) <$> index.pmmHold id

/-- A call goes on. -/
def proceed (index : Index) (outcome : Outcome) : Stage → Except Fault (Stage × Index)
  | .find vnode offset => do
      match ← index.findpage vnode offset with
      | some id => index.wait vnode offset id
      | none => pure (.alloc vnode offset, index)
  | .alloc vnode offset =>
    match outcome.memory with
    | none => .ok (.done, index)
    | some id => .ok (.add vnode offset id, index.pmmAllocpage id)
  | .add vnode offset newpage => do
      match ← index.findpage vnode offset with
      | some id => do
          let (stage, index) ← index.wait vnode offset id
          let index ← index.pmmRelease newpage
          pure (stage, index)
      | none => do
          let index ← (index.assign vnode offset newpage (index.page newpage).flags).putpage newpage
          pure (.load newpage, index)
  | .wait vnode offset id =>
    if hasFlag (index.page id).flags pageFlagsError then
      (fun index => (.find vnode offset, index)) <$> index.pmmRelease id
    else if hasFlag (index.page id).flags pageFlagsReady then .ok (.done, index)
    else .error .notReady
  | .load newpage =>
    if outcome.failed then .ok (.fail newpage, index)
    else
      let page := index.page newpage
      .ok (.done, index.setPage newpage { page with flags := page.flags ||| pageFlagsReady })
  | .fail newpage => do
      let index ← index.removepage newpage
      let index ← (index.forget newpage ((index.page newpage).flags ||| pageFlagsError)).pmmRelease newpage
      pure (.done, index)
  | .unpin none => .ok (.done, index)
  | .unpin (some id) =>
    let next := index.vnodes.next id
    if hasFlag (index.page id).flags pageFlagsPinned then
      (fun index => (.unpin next, index)) <$> index.pmmRelease id
    else .ok (.unpin next, index)
  | .done => .ok (.done, index)

end Index

/-- The index with the calls that are under way. -/
structure Activity where
  index : Index
  stages : List Stage

/-- A call begins, or one of the calls that are under way goes on. -/
inductive Action where
  | getpage (vnode offset : Nat)
  | pushpage (vnode offset page : Nat)
  | evict (page : Nat)
  | takepage (page : Nat)
  | truncate (vnode offset : Nat)
  | proceed (position : Nat) (outcome : Outcome)

namespace Activity

def act (activity : Activity) : Action → Except Fault Activity
  | .getpage vnode offset =>
    if offset % pageSize = 0 then .ok { activity with stages := activity.stages ++ [.find vnode offset] }
    else .error .assertion
  | .pushpage vnode offset page => (fun index => { activity with index }) <$> activity.index.pushpage vnode offset page
  | .evict page => (fun index => { activity with index }) <$> activity.index.evict page
  | .takepage page => (fun index => { activity with index }) <$> activity.index.takepage page
  | .truncate vnode offset =>
    (fun result => ⟨result.1, activity.stages ++ [.unpin result.2]⟩) <$> activity.index.truncate vnode offset
  | .proceed position outcome =>
    match activity.stages[position]? with
    | none => .error .notReady
    | some stage =>
      (fun result => ⟨result.2, activity.stages.set position result.1⟩) <$> activity.index.proceed outcome stage

/-- The cache is empty, and no page is in use. -/
def empty : Activity where
  index :=
    { cache := initial.cache
      table := Chains.empty
      vnodes := Chains.empty
      cachedpages := 0
      taken _ := false
      sound := true }
  stages := []

end Activity

end Astral.Vmmcache
