/-
This file models the kernel heap on top of the slab allocator.
-/

import Astral.Construction.Slab

namespace Astral.Alloc

open Function Astral.Library Astral.Slab

/-- The capacity and the current size of an allocation, and its data. -/
structure Block where
  capacity : Nat
  size : Nat
  data : Nat → UInt8

/-- The bytes that the owner of a block may use. -/
def Block.bytes (block : Block) : List UInt8 := (List.range block.size).map block.data

def cacheCount : Nat := 12

def allocsizes : List Nat := [32, 64, 128, 256, 512, 1024, 2048, 4096, 8192, 16384, 32768, 65536]

/-- The two words in front of the data. -/
def headerSize : Nat := 16

def initarea (cachesize : Nat) (block : Block) : Block :=
  { block with
    capacity := cachesize - headerSize
    data := fun index => if index < cachesize - headerSize then 0 else block.data index }

def dtor (cachesize : Nat) (block : Block) : Block := initarea cachesize block

def allocsize (index : Nat) : Nat := allocsizes.getD index 0

/-- The cache for one of the sizes. -/
def newcache (index : Nat) : Except Fault (Cache Block) :=
  slabNewcache (UInt64.ofNat (allocsize index + headerSize)) 0 (initarea (allocsize index + headerSize))
    (dtor (allocsize index + headerSize))

/-- The caches after `alloc_init`. -/
def Initialised (caches : Nat → Cache Block) : Prop := ∀ index < cacheCount, newcache index = .ok (caches index)

/-- All caches work on the same memory. -/
structure Heap where
  memory : Nat → Block
  slabs : Nat → State Block

def Heap.init (memory : Nat → Block) : Heap where
  memory := memory
  slabs _ := State.init memory

/-- Call a function of the slab allocator. -/
def Heap.call {R : Type} (heap : Heap) (index : Nat) (function : State Block → Except Fault (R × State Block)) :
    Except Fault (R × Heap) := do
  let (result, state) ← function ((heap.slabs index).remember heap.memory)
  pure (result, ⟨state.object, update heap.slabs index state⟩)

def Heap.modify (heap : Heap) (start : Nat) (change : Block → Block) : Heap :=
  { heap with memory := update heap.memory start (change (heap.memory start)) }

def getcachefromsize (size : Nat) : Except Fault Nat :=
  match allocsizes.findIdx? fun allocsize => size ≤ allocsize with
  | some index => .ok index
  | none => .error .assertion

variable (caches : Nat → Cache Block)

def Heap.take (heap : Heap) (index : Nat) (growth : Growth Block) : Except Fault (Option Nat × Heap) :=
  heap.call index fun state => slabAllocate (caches index) state growth

def Heap.give (heap : Heap) (index start : Nat) : Except Fault Heap :=
  Prod.snd <$> heap.call index fun state => Prod.mk () <$> slabFree (caches index) state start

def alloc (heap : Heap) (size : Nat) (growth : Growth Block) : Except Fault (Option Nat × Heap) := do
  let index ← getcachefromsize size
  let (ret, heap) ← heap.take caches index growth
  match ret with
  | none => pure (none, heap)
  | some start =>
    if (heap.memory start).capacity = (caches index).size - headerSize then
      pure (some (start + headerSize), heap.modify start fun block => { block with size })
    else throw .assertion

def free (heap : Heap) (ptr : Nat) : Except Fault Heap := do
  let start := ptr - headerSize
  let index ← getcachefromsize (heap.memory start).capacity
  heap.give caches index start

/-- Clear the bytes behind the current size. -/
def Block.grow (size : Nat) (block : Block) : Block :=
  { block with
    data := fun index => if block.size ≤ index ∧ index < size then 0 else block.data index
    size }

/-- Copy the bytes of another block. -/
def Block.copy (size : Nat) (source block : Block) : Block :=
  { block with
    data := fun index => if index < source.size then source.data index else block.data index
    size }

def realloc (heap : Heap) (ptr size : Nat) (growth : Growth Block) : Except Fault (Option Nat × Heap) := do
  let start := ptr - headerSize
  if size ≤ (heap.memory start).size then
    pure (some ptr, heap.modify start fun block => { block with size })
  else do
    let oldcache ← getcachefromsize (heap.memory start).capacity
    let newcache ← getcachefromsize size
    if oldcache = newcache then
      pure (some ptr, heap.modify start (Block.grow size))
    else do
      let (ret, heap) ← heap.take caches newcache growth
      match ret with
      | none => pure (none, heap)
      | some new => do
          let heap ← (heap.modify new (Block.copy size (heap.memory start))).give caches oldcache start
          pure (some (new + headerSize), heap)

/-- The calls of the heap, and a write to a block by its owner. -/
inductive Event where
  | alloc (size : Nat) (growth : Growth Block)
  | realloc (ptr size : Nat) (growth : Growth Block)
  | free (ptr : Nat)
  | write (ptr index : Nat) (byte : UInt8)

/-- A call with the pointer that it returns. -/
def Heap.apply (heap : Heap) : Event → Except Fault (Option Nat × Heap)
  | .alloc size growth => Alloc.alloc caches heap size growth
  | .realloc ptr size growth => Alloc.realloc caches heap ptr size growth
  | .free ptr => Prod.mk none <$> Alloc.free caches heap ptr
  | .write ptr index byte =>
    pure (none, heap.modify (ptr - headerSize) fun block =>
      { block with data := update block.data index byte })

end Astral.Alloc
