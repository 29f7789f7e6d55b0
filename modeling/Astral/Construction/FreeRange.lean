/-
This file models the search for free addresses between the ranges of an address space, and the pages that the entries
for ranges are taken from.
-/

import Astral.Construction.Machine
import Mathlib.Algebra.Group.Nat.Defs
import Mathlib.Data.List.Pairwise

namespace Astral.FreeRange

structure Range where
  start : Nat
  size : Nat
  deriving DecidableEq

def Range.top (range : Range) : Nat := range.start + range.size

structure Space where
  start : Nat
  stop : Nat
  ranges : List Range
  deriving DecidableEq

/-- The null pointer. -/
def null : Nat := 0

/-- The loop over the ranges from the first one on, with the end of the space behind the last. -/
def searchBehind (stop size addr : Nat) (range : Range) : List Range → Nat
  | [] =>
    let addr := if addr < range.top then range.top else addr
    if addr ≠ stop ∧ stop - addr ≥ size then addr else null
  | next :: rest =>
    let addr := if addr < range.top then range.top else addr
    if addr < next.start ∧ next.start - addr ≥ size then addr else searchBehind stop size addr next rest

def getfreerange (space : Space) (addr size : Nat) : Nat :=
  let addr := if addr = null then space.start else addr
  match space.ranges with
  | [] => addr
  | range :: rest =>
    if range.start ≠ space.start ∧ addr < range.start ∧ range.start - addr ≥ size then addr
    else searchBehind space.stop size addr range rest

namespace Cache

/-- An entry for a range. The last field says that somebody got the entry and has not given it back. -/
structure Entry where
  size : Nat
  owned : Bool
  deriving DecidableEq

/-- A page of entries. -/
structure Vmmcache where
  freecount : Nat
  firstfree : Nat
  ranges : List Entry
  deriving DecidableEq

/-- A page without its header has room for these. -/
def vmmRangesPerCache : Nat := (4096 - 48) / 64

def newcache : Vmmcache := ⟨vmmRangesPerCache, 0, List.replicate vmmRangesPerCache ⟨0, false⟩⟩

def getentrynumber (cache : Vmmcache) : Except Fault Nat :=
  match (cache.ranges.drop cache.firstfree).findIdx? (·.size = 0) with
  | some index => .ok (cache.firstfree + index)
  | none => .error .assertion

/-- The size of an entry that is taken is set to -1. -/
def take (cache : Vmmcache) : Except Fault (Nat × Vmmcache) :=
  (fun r => (r, ⟨cache.freecount - 1, r + 1, cache.ranges.set r ⟨2 ^ 64 - 1, true⟩⟩)) <$> getentrynumber cache

/-- The loop over the pages. The last page gets another one behind it if there is memory. -/
def allocrange (memory : Bool) : List Vmmcache → Except Fault (Option (Nat × Nat) × List Vmmcache)
  | [] => .ok (none, [])
  | cache :: rest =>
    if cache.freecount > 0 then (fun (r, cache) => (some (0, r), cache :: rest)) <$> take cache
    else
      match rest, memory with
      | [], true => (fun (r, next) => (some (1, r), [cache, next])) <$> take newcache
      | rest, _ => (fun (found, rest) => (found.map (Prod.map Nat.succ id), cache :: rest)) <$> allocrange memory rest

def freerange (cache : Vmmcache) (rangeoffset : Nat) : Vmmcache where
  ranges := cache.ranges.set rangeoffset ⟨0, false⟩
  freecount := cache.freecount + 1
  firstfree := if cache.firstfree > rangeoffset then rangeoffset else cache.firstfree

/-- Entries are named by their page and their place there. Who owns one may change its size. -/
inductive Event where
  | alloc (memory : Bool)
  | free (page place : Nat)
  | resize (page place size : Nat)

def change (caches : List Vmmcache) (page place : Nat) (new : Vmmcache → Vmmcache) : Except Fault (List Vmmcache) :=
  match caches[page]? with
  | some cache => if cache.ranges[place]?.any Entry.owned then .ok (caches.set page (new cache)) else .error .notReady
  | none => .error .notReady

def step (caches : List Vmmcache) : Event → Except Fault (List Vmmcache)
  | .alloc memory => Prod.snd <$> allocrange memory caches
  | .free page place => change caches page place (freerange · place)
  | .resize page place size =>
    change caches page place fun cache => { cache with ranges := cache.ranges.set place ⟨size, true⟩ }

end Cache

end Astral.FreeRange
