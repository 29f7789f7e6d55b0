/-
This file models the slab allocator.
-/

import Astral.Construction.Machine
import Astral.Library.Chains
import Astral.Library.Run

namespace Astral.Slab

open Function Astral.Library

def slabIndirectCutoff : Nat := 512

def slabIndirectCount : Nat := 16

/-- The header takes the last bytes of the page of a slab. -/
def slabPageOffset : Nat := 4056

/-- The functions `ctor` and `dtor` change the contents of an object, and a null pointer stands for the identity. -/
structure Cache (C : Type) where
  size : Nat
  alignment : Nat
  truesize : Nat
  slabobjcount : Nat
  ctor : C → C
  dtor : C → C

/-- The three lists of slabs. -/
inductive Place where
  | full
  | part
  | empty
  deriving DecidableEq

/-- A slab is named by its page. The fields are those of the headers, the words that link free objects, and the contents
of the objects. -/
structure State (C : Type) where
  slabs : List Nat
  used : Nat → Nat
  free : Nat → Option Nat
  base : Nat → Nat
  lists : Chains Place Nat
  word : Nat → Option Nat
  object : Nat → C

/-- What the two calls of `vmm_map` return, and what the new memory holds. -/
structure Growth (C : Type) where
  slab : Option Nat
  objects : Option Nat
  contents : Nat → C

variable {C : Type} (cache : Cache C) (state : State C)

def Cache.direct : Bool := cache.size < slabIndirectCutoff

/-- The size of the memory for the objects of a slab, as it is computed. -/
def Cache.bytes : Nat := cache.truesize * cache.slabobjcount % wordSize

def slabNewcache (size alignment : UInt64) (ctor dtor : C → C) : Except Fault (Cache C) :=
  let unit := if alignment = 0 then 8 else alignment.toNat
  if size.toNat < slabIndirectCutoff then
    let truesize := roundUp (size.toNat + 8) unit
    if truesize = 0 then .error .divide
    else .ok ⟨size.toNat, unit, truesize, slabPageOffset / truesize, ctor, dtor⟩
  else .ok ⟨size.toNat, unit, roundUp size.toNat unit, slabIndirectCount, ctor, dtor⟩

/-- A cache without slabs. -/
def State.init (object : Nat → C) : State C where
  slabs := []
  used _ := 0
  free _ := none
  base _ := 0
  lists := Chains.empty
  word _ := none
  object := object

/-- Start with a slab that has no objects. -/
def State.reset (page : Nat) : State C :=
  { state with
    free := update state.free page none
    used := update state.used page 0 }

/-- The loop over the offsets of the objects of a slab. -/
def initLoop (cache : Cache C) (contents : Nat → C) (page objbase : Nat) (freenext : Nat → Nat) :
    (fuel offset : Nat) → State C → Except Fault (State C)
  | 0, offset, state => if offset < cache.bytes then .error .endless else .ok state
  | fuel + 1, offset, state =>
    if offset < cache.bytes then
      initLoop cache contents page objbase freenext fuel ((offset + cache.truesize) % wordSize)
        { state with
          object := update state.object (objbase + offset) (cache.ctor (contents (objbase + offset)))
          word := update state.word (freenext offset) (state.free page)
          free := update state.free page (some (freenext offset)) }
    else .ok state

def initdirect (contents : Nat → C) (page : Nat) : Except Fault (State C) :=
  initLoop cache contents page page (fun offset => page + offset + cache.size) cache.slabobjcount 0
    (state.reset page)

def initindirect (contents : Nat → C) (page objbase : Nat) :
    Except Fault (State C) :=
  initLoop cache contents page objbase (fun offset => page + 8 * (offset / cache.truesize)) cache.slabobjcount 0
    { state.reset page with base := update state.base page objbase }

/-- A mapping of no pages fails. -/
def vmmMap (size : Nat) (start : Option Nat) : Option Nat :=
  if roundUp size pageSize = 0 then none else start

/-- Enter a new slab. -/
def enter (page : Nat) : State C :=
  { state with
    slabs := page :: state.slabs
    lists := state.lists.push .empty page }

def growcache (growth : Growth C) : Except Fault (Option (State C)) :=
  match growth.slab with
  | none => pure none
  | some page =>
    if cache.direct then do
      let ready ← initdirect cache state growth.contents page
      pure (some (enter ready page))
    else
      match vmmMap cache.bytes growth.objects with
      | none => pure none
      | some objbase => do
          let ready ← initindirect cache state growth.contents page objbase
          pure (some (enter ready page))

/-- The object that belongs to a free word. -/
def objectOf (page objend : Nat) : Nat :=
  if cache.direct then objend - cache.size
  else state.base page + (objend - page) / 8 * cache.truesize

/-- Take the first word off the free words of a slab. -/
def State.unlink (page objend : Nat) : State C :=
  { state with
    free := update state.free page (state.word objend)
    used := update state.used page (state.used page + 1)
    word := update state.word objend none }

/-- Put a word in front of the free words of a slab. -/
def State.link (page freeptr : Nat) : State C :=
  { state with
    word := update state.word freeptr (state.free page)
    free := update state.free page (some freeptr)
    used := update state.used page (state.used page - 1) }

/-- Store the contents of an object. -/
def State.store (obj : Nat) (contents : C) : State C :=
  { state with object := update state.object obj contents }

/-- The memory was changed by others. -/
def State.remember (memory : Nat → C) : State C := { state with object := memory }

def takeobject (page : Nat) : Option Nat × State C :=
  match state.free page with
  | none => (none, state)
  | some objend => (some (objectOf cache state page objend), state.unlink page objend)

/-- The loop over the full slabs and then the partly used ones. -/
def search (cache : Cache C) (state : State C) (obj : Nat) :
    (fuel : Nat) → (part : Bool) → Option Nat → Except Fault (Option Nat)
  | _, _, none => .ok none
  | 0, _, some _ => .error .endless
  | fuel + 1, part, some page =>
    if state.base page ≤ obj ∧ obj < state.base page + cache.bytes then .ok (some page)
    else if state.lists.next page = none ∧ part = false then search cache state obj fuel true (state.lists.head .part)
    else search cache state obj fuel part (state.lists.next page)

/-- The slab of an object and its free word. -/
def locate (obj : Nat) : Except Fault (Nat × Nat) :=
  if cache.direct then
    if state.word (obj + cache.size) = none then .ok (roundDown obj pageSize, obj + cache.size) else .error .assertion
  else do
    let part := (state.lists.head .full).isNone
    match ← search cache state obj state.slabs.length part (state.lists.head (if part then .part else .full)) with
    | none => .error .assertion
    | some page => .ok (page, page + 8 * ((obj - state.base page) / cache.truesize))

def returnobject (obj : Nat) : Except Fault (Nat × State C) := do
  let (page, freeptr) ← locate cache state obj
  pure (page, (state.store obj (cache.dtor (state.object obj))).link page freeptr)

/-- Take an object from a slab and move the slab to its new list. -/
def allocateFrom (page : Nat) : Option Nat × State C :=
  let (ret, state) := takeobject cache state page
  if state.lists.head .empty = some page then
    (ret, { state with lists := state.lists.moveFirst .empty .part page })
  else if state.used page = cache.slabobjcount then
    (ret, { state with lists := state.lists.moveFirst .part .full page })
  else (ret, state)

def slabAllocate (growth : Growth C) : Except Fault (Option Nat × State C) :=
  match (state.lists.head .part).or (state.lists.head .empty) with
  | some page => pure (allocateFrom cache state page)
  | none => do
      match ← growcache cache state growth with
      | none => pure (none, state)
      | some grown =>
        match grown.lists.head .empty with
        | some page => pure (allocateFrom cache grown page)
        | none => throw .null

/-- Take a slab out of its list and put it in front of another one. -/
def relist (source target : Place) (page : Nat) : State C :=
  { state with lists := (state.lists.cut source page).push target page }

def slabFree (addr : Nat) : Except Fault (State C) := do
  let (page, state) ← returnobject cache state addr
  let state := if state.used page = 0 then relist state .part .empty page else state
  pure (if state.used page + 1 = cache.slabobjcount then relist state .full .part page else state)

/-- The calls of a cache, and a store to an object by its owner. -/
inductive Event (C : Type) where
  | allocate (growth : Growth C)
  | free (addr : Nat)
  | store (addr : Nat) (contents : C)

/-- A cache with the objects that are allocated. -/
structure System (C : Type) where
  state : State C
  live : List Nat

def step (cache : Cache C) (system : System C) : Event C → Except Fault (System C)
  | .allocate growth => do
      let (ret, state) ← slabAllocate cache system.state growth
      pure ⟨state, ret.toList ++ system.live⟩
  | .free addr => do
      let state ← slabFree cache system.state addr
      pure ⟨state, system.live.erase addr⟩
  | .store addr contents =>
    pure { system with state := system.state.store addr contents }

/-- Two ranges of addresses have no address in common. -/
def Apart (one oneSize two twoSize : Nat) : Prop := one + oneSize ≤ two ∨ two + twoSize ≤ one

/-- The mapped memory is not in use. -/
structure Growth.Fresh (cache : Cache C) (state : State C) (growth : Growth C) : Prop where
  aligned : ∀ page ∈ growth.slab, page % pageSize = 0
  page : ∀ page ∈ growth.slab, page ∉ state.slabs ∧
    (cache.direct = false → ∀ other ∈ state.slabs, Apart page pageSize (state.base other) cache.bytes)
  objects : ∀ objbase ∈ growth.objects, (∀ page ∈ growth.slab, Apart page pageSize objbase cache.bytes) ∧
    ∀ other ∈ state.slabs, Apart other pageSize objbase cache.bytes ∧
      (cache.direct = false → Apart (state.base other) cache.bytes objbase cache.bytes)

/-- The memory manager maps fresh memory, and only allocated objects are used and freed. -/
def Allowed (cache : Cache C) (system : System C) : Event C → Prop
  | .allocate growth => growth.Fresh cache system.state
  | .free addr => addr ∈ system.live
  | .store addr _ => addr ∈ system.live

end Astral.Slab
