/-
This file models the physical memory manager. A page is named by its number.
-/

import Astral.Construction.Machine
import Astral.Library.Chains
import Astral.Library.Run

namespace Astral.Pmm

open Function Astral.Library

def top1mb : Nat := 0x100

def top4gb : Nat := 0x100000

abbrev Section := Fin 3

/-- One of the six lists: the standby list or the free list of a section. -/
abbrev Listing := Bool × Section

def sectionOf (page : Nat) : Section :=
  if page < top1mb then 0 else if page < top4gb then 1 else 2

/-- The page numbers of a section end before this one. -/
def topid (place : Section) : Nat :=
  match place with
  | 0 => top1mb
  | 1 => top4gb
  | 2 => 0xffffffffffffffff

/-- The fields of the pages are functions of their numbers. Of the vnode behind a page only its presence counts. -/
structure State where
  pagecount : Nat
  lists : Chains Listing Nat
  tail : Listing → Option Nat
  backing : Nat → Bool
  refcount : Nat → Nat
  free : Nat → Bool
  freepagecount : Nat
  searchstart : Section → Nat

namespace State

variable (pmm : State)

/-- The list that a page belongs to. -/
def listOf (page : Nat) : Listing := (pmm.backing page, sectionOf page)

def insertinfreelist (page : Nat) : State :=
  { pmm with
    searchstart := update pmm.searchstart (sectionOf page) (min (pmm.searchstart (sectionOf page)) page)
    lists := pmm.lists.push (pmm.listOf page) page
    tail :=
      match pmm.lists.head (pmm.listOf page) with
      | none => update pmm.tail (pmm.listOf page) (some page)
      | some _ => pmm.tail
    freepagecount := pmm.freepagecount + 1 }

def removefromfreelist (page : Nat) : State :=
  { pmm with
    lists := pmm.lists.cut (pmm.listOf page) page
    tail :=
      match pmm.lists.next page with
      | none => update pmm.tail (pmm.listOf page) (pmm.lists.prev page)
      | some _ => pmm.tail
    freepagecount := pmm.freepagecount - 1 }

def setRefcount (page count : Nat) : State :=
  { pmm with refcount := update pmm.refcount page count }

def internalhold (page : Nat) : Except Fault State :=
  let pmm := pmm.setRefcount page (pmm.refcount page + 1)
  if pmm.refcount page = 1 then
    if pmm.free page then .error .assertion else .ok (pmm.removefromfreelist page)
  else .ok pmm

def pmmHold (page : Nat) : Except Fault State := pmm.internalhold page

/-- The part of `pmm_release` that holds the lock. -/
def putback (page : Nat) : State :=
  { pmm.insertinfreelist page with
    free := if pmm.backing page then pmm.free else update pmm.free page true }

def pmmRelease (page : Nat) : Except Fault State :=
  if pmm.refcount page = 0 then .error .assertion
  else
    let pmm := pmm.setRefcount page (pmm.refcount page - 1)
    if pmm.refcount page = 0 then .ok (pmm.putback page) else .ok pmm

/-- Clear the other fields of a page. -/
def wipe (page : Nat) : State :=
  { pmm with
    lists := pmm.lists.clear page
    backing := update pmm.backing page false
    free := update pmm.free page false }

def doalloc (page : Nat) : Except Fault State :=
  if pmm.refcount page ≠ 0 then .error .assertion else .ok ((pmm.wipe page).setRefcount page 1)

/-- Set or clear the vnode behind a page. -/
def setBacking (page : Nat) (present : Bool) : State :=
  { pmm with backing := update pmm.backing page present }

/-- A section and those below it. -/
def downFrom (place : Section) : List Section :=
  match place with
  | 0 => [0]
  | 1 => [1, 0]
  | 2 => [2, 1, 0]

def firstFree (place : Section) : Option Nat :=
  (downFrom place).findSome? fun part => pmm.lists.head (false, part)

def lastStandby (place : Section) : Option Nat :=
  (downFrom place).findSome? fun part => pmm.tail (true, part)

/-- The page cache gives a page away unless others hold it. -/
def vmmcacheTakepage (page : Nat) : Except Fault Bool :=
  if pmm.refcount page > 1 then .ok false
  else if pmm.refcount page = 1 then .ok true
  else .error .assertion

def pmmAllocpage (place : Section) : (fuel : Nat) → State → Except Fault (Option Nat × State)
  | 0, _ => .error .endless
  | fuel + 1, pmm =>
    match pmm.firstFree place with
    | some page => do
        let pmm := pmm.removefromfreelist page
        if pmm.refcount page ≠ 0 then throw .assertion
        let pmm ← pmm.doalloc page
        pure (some page, pmm)
    | none =>
      match pmm.lastStandby place with
      | none => pure (none, pmm)
      | some page => do
          let pmm ← pmm.internalhold page
          if ← pmm.vmmcacheTakepage page then do
            let pmm ← (pmm.setRefcount page 0).doalloc page
            pure (some page, pmm)
          else do
            let pmm ← pmm.pmmRelease page
            pmmAllocpage place fuel pmm

def pmmMakefree (pageid count : Nat) : State :=
  (List.range' pageid count).foldl insertinfreelist pmm

/-- The loop over the pages of a section, which ends at the last of enough free pages. -/
def scan (pmm : State) (size : Nat) : (count page found : Nat) → Option Nat
  | 0, _, _ => none
  | count + 1, page, found =>
    let found := if pmm.free page then found + 1 else 0
    if found = size then some page else pmm.scan size count (page + 1) found

def scanSection (size : Nat) (place : Section) : Option Nat :=
  pmm.scan size (min (topid place) pmm.pagecount - pmm.searchstart place) (pmm.searchstart place) 0

/-- Take a page out of its list and hand it out. -/
def takeOut (page : Nat) : Except Fault State := (pmm.removefromfreelist page).doalloc page

/-- The part of `pmm_alloc` that holds the lock. -/
def allocMany (size : Nat) (place : Section) : Except Fault (Option Nat × State) :=
  match (downFrom place).findSome? (pmm.scanSection size) with
  | none => pure (none, pmm)
  | some last => do
      let page := last - (size - 1)
      let pmm ← (List.range' page size).foldlM takeOut pmm
      pure (some page, pmm)

def pmmAlloc (fuel : Nat) (pmm : State) (size : Nat) (place : Section) : Except Fault (Option Nat × State) :=
  if size = 0 then .error .assertion
  else if size = 1 then pmmAllocpage place fuel pmm
  else pmm.allocMany size place

/-- The offset of a page is a product in an `int`, which wraps. -/
def pmmFree (page size : Nat) : Except Fault State :=
  if size = 0 then .error .assertion
  else ((List.range size).map fun i => ((page + (i : Int).bmod (2 ^ 20)) % 2 ^ 52).toNat).foldlM pmmRelease pmm

end State

section Init

inductive MemoryType where
  | usable
  | bootloaderReclaimable
  | kernelAndModules
  | other
  deriving DecidableEq

/-- An entry of the memory map. -/
structure Entry where
  base : Nat
  length : Nat
  type : MemoryType
  deriving DecidableEq

def Entry.limit (entry : Entry) : Nat := entry.base + entry.length

def sizeofPage : Nat := 80

def memoryTop (entries : List Entry) : Nat :=
  entries.foldl (fun top entry => if entry.type = .other then top else max top entry.limit) 0

/-- The index of the first of the longest usable entries. -/
def biggest (entries : List Entry) : Option Nat :=
  (entries.zipIdx.foldl (fun (best : Option (Entry × Nat)) (entry, index) =>
    if entry.type = .usable then
      match best with
      | none => some (entry, index)
      | some (other, _) => if other.length < entry.length then some (entry, index) else best
    else best) none).map Prod.snd

/-- A loop whose counter is an `int` starts at the lower half of its first value and ends where the counter wraps. -/
def intRange (first bound : Nat) : List Nat :=
  if first % 2 ^ 32 < 2 ^ 31 then List.range' (first % 2 ^ 32) (min bound (2 ^ 31) - first % 2 ^ 32) else []

/-- The pages of a usable entry behind the array of pages. -/
def usablePages (pagecount : Nat) (holdsArray : Bool) (entry : Entry) : List Nat :=
  let first :=
    if holdsArray then roundUp (entry.base + pagecount * sizeofPage) pageSize / pageSize else entry.base / pageSize
  intRange first (entry.limit / pageSize)

/-- All pages that are put into the lists, in their order. -/
def initialPages (entries : List Entry) (pagecount array : Nat) : List Nat :=
  entries.zipIdx.flatMap fun (entry, index) =>
    if entry.type = .usable then usablePages pagecount (index = array) entry else []

/-- No page is in a list. -/
def State.empty (pagecount : Nat) : State where
  pagecount := pagecount
  lists := Chains.empty
  tail _ := none
  backing _ := false
  refcount _ := 0
  free _ := false
  freepagecount := 0
  searchstart place :=
    match place with
    | 0 => 0
    | 1 => top1mb
    | 2 => top4gb

def State.insertUsable (pmm : State) (page : Nat) : State :=
  { pmm with free := update pmm.free page true }.insertinfreelist page

/-- The memory manager with the pages that it manages. -/
structure System where
  pmm : State
  managed : List Nat

def pmmInit (entries : List Entry) : Except Fault System :=
  match biggest entries with
  | none => .error .null
  | some array =>
    let pagecount := roundUp (memoryTop entries) pageSize / pageSize
    let pages := initialPages entries pagecount array
    .ok ⟨pages.foldl State.insertUsable (State.empty pagecount), pages⟩

end Init

/-- The calls of the memory manager, and a change of the vnode behind a page by the page cache. -/
inductive Event where
  | allocpage (place : Section)
  | alloc (size : Nat) (place : Section)
  | hold (page : Nat)
  | release (page : Nat)
  | free (page size : Nat)
  | makefree (page count : Nat)
  | back (page : Nat) (present : Bool)

def step (system : System) : Event → Except Fault System
  | .allocpage place => (fun result => { system with pmm := result.2 }) <$> system.pmm.pmmAllocpage place 1
  | .alloc size place => (fun result => { system with pmm := result.2 }) <$> system.pmm.pmmAlloc 1 size place
  | .hold page => (fun pmm => { system with pmm }) <$> system.pmm.pmmHold page
  | .release page => (fun pmm => { system with pmm }) <$> system.pmm.pmmRelease page
  | .free page size => (fun pmm => { system with pmm }) <$> system.pmm.pmmFree page size
  | .makefree page count =>
    pure ⟨system.pmm.pmmMakefree page count, List.range' page count ++ system.managed⟩
  | .back page present => pure { system with pmm := system.pmm.setBacking page present }

/-- Only managed pages are held and only others are made free, and the vnode is only changed behind a held page. -/
def Allowed (system : System) : Event → Prop
  | .hold page => page ∈ system.managed
  | .makefree page count => ∀ other ∈ List.range' page count, other ∉ system.managed
  | .back page _ => 0 < system.pmm.refcount page
  | _ => True

end Astral.Pmm
