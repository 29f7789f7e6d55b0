/-
This file models the hash table of the kernel.
-/

import Astral.Construction.Machine
import Astral.Library.Chains
import Astral.Library.Run

namespace Astral.Hashtable

open Function Astral.Library

abbrev Key := List UInt8

def fnv1prime : UInt64 := 0x100000001b3

def fnv1offset : UInt64 := 0xcbf29ce484222325

def fnv1ahash (buffer : Key) : UInt64 :=
  buffer.foldl (fun h byte => (h ^^^ byte.toUInt64) * fnv1prime) fnv1offset

structure Entry (V : Type) where
  hash : UInt64
  key : Key
  value : V
  deriving DecidableEq

/-- The entries are at their addresses, and an address without an entry is free. -/
structure Table (V : Type) where
  capacity : Nat
  entrycount : Nat
  chains : Chains Nat Nat
  entry : Nat → Option (Entry V)

/-- The address of a new entry, if there is memory for it, and whether there is memory for its key. -/
structure Memory where
  entry : Option Nat
  key : Bool

/-- The largest size that the kernel heap serves. -/
def allocLimit : Nat := 65536

namespace Table

variable {V : Type}

def tableoffset (table : Table V) (hash : UInt64) : Nat := hash.toNat % table.capacity

/-- The test of the loop in `getentry`. -/
def isKey (table : Table V) (key : Key) (hash : UInt64) (address : Nat) : Bool :=
  match table.entry address with
  | some entry => entry.key.length = key.length && entry.hash = hash && entry.key = key
  | none => false

def getentry (fuel : Nat) (table : Table V) (key : Key) (hash : UInt64) : Except Fault (Option Nat) :=
  match Chains.find table.chains.next (table.isKey key hash) fuel (table.chains.head (table.tableoffset hash)) with
  | some found => .ok found
  | none => .error .endless

/-- Enter a new entry at an address. -/
def insert (table : Table V) (address : Nat) (hash : UInt64) (key : Key) (value : V) : Table V :=
  { table with
    chains := table.chains.push (table.tableoffset hash) address
    entry := update table.entry address (some ⟨hash, key, value⟩)
    entrycount := table.entrycount + 1 }

/-- The allocation of the two parts of an entry. Memory may be handed out that is in use, which is no fault of the
table. -/
def allocate (table : Table V) (key : Key) (memory : Memory) : Except Fault (Option Nat) :=
  match memory.entry with
  | none => .ok none
  | some address =>
    if (table.entry address).isSome then .error .taken
    else if key.length > allocLimit then .error .assertion
    else .ok (if memory.key then some address else none)

def hashtableSet (fuel : Nat) (table : Table V) (value : V) (key : Key) (allocate : Bool) (memory : Memory) :
    Except Fault (Option Errno × Table V) := do
  let hash := fnv1ahash key
  match ← getentry fuel table key hash with
  | some address =>
    pure (none, { table with
      entry := update table.entry address
        ((table.entry address).map fun entry => { entry with value }) })
  | none =>
    if allocate then
      match ← table.allocate key memory with
      | none => pure (some .enomem, table)
      | some address => pure (none, table.insert address hash key value)
    else pure (some .enoent, table)

def hashtableGet (fuel : Nat) (table : Table V) (key : Key) : Except Fault (Option V) := do
  match ← getentry fuel table key (fnv1ahash key) with
  | none => pure none
  | some address => pure ((table.entry address).map Entry.value)

/-- Take an entry out of its chain and free it. -/
def erase (table : Table V) (address : Nat) (hash : UInt64) : Table V :=
  { table with
    chains := table.chains.cut (table.tableoffset hash) address
    entry := update table.entry address none
    entrycount := table.entrycount - 1 }

def hashtableRemove (fuel : Nat) (table : Table V) (key : Key) : Except Fault (Option Errno × Table V) := do
  let hash := fnv1ahash key
  match ← getentry fuel table key hash with
  | none => pure (some .enoent, table)
  | some address => pure (none, table.erase address hash)

/-- The addresses that `HASHTABLE_FOREACH` visits. -/
def foreach (fuel : Nat) (table : Table V) : Option (List Nat) :=
  List.flatten <$> (List.range table.capacity).mapM fun toffset =>
    Chains.collect table.chains.next fuel (table.chains.head toffset)

/-- A table whose buckets were just cleared. -/
def init (capacity : Nat) : Table V := ⟨capacity, 0, Chains.empty, fun _ => none⟩

end Table

/-- The last argument of `set` is the address of the memory for a new entry. -/
inductive Op (V : Type) where
  | set (key : Key) (value : V) (allocate : Bool) (address : Nat)
  | get (key : Key)
  | remove (key : Key)

inductive Output (V : Type) where
  | status (error : Option Errno)
  | found (value : Option V)
  deriving DecidableEq

namespace Op

variable {V : Type}

/-- The heap serves the key of a new entry. -/
def Storable : Op V → Prop
  | .set key _ true _ => key.length ≤ allocLimit
  | _ => True

/-- An operation for which there is memory. -/
def apply (fuel : Nat) (table : Table V) : Op V → Except Fault (Output V × Table V)
  | .set key value allocate address => do
      let (error, table) ← table.hashtableSet fuel value key allocate ⟨some address, true⟩
      pure (.status error, table)
  | .get key => do
      let value ← table.hashtableGet fuel key
      pure (.found value, table)
  | .remove key => do
      let (error, table) ← table.hashtableRemove fuel key
      pure (.status error, table)

end Op

variable {V : Type}

/-- Run a list of operations. -/
def run (fuel : Nat) : List (Op V) → Table V → Except Fault (List (Output V) × Table V)
  | [], table => pure ([], table)
  | op :: rest, table => do
      let (output, table) ← op.apply fuel table
      let (outputs, table) ← run fuel rest table
      pure (output :: outputs, table)

end Astral.Hashtable
