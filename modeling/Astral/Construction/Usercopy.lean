/-
This file models copies between kernel and user memory and the protection against faults.
-/

import Astral.Construction.Machine

namespace Astral.Io

abbrev Byte := BitVec 8

def isUserAddress (address : Nat) : Bool := address < userspaceEnd

/-- One access names the function that performs it. -/
inductive Access where
  | usercopyFromuser (kernel user size : Nat)
  | usercopyTouser (user kernel size : Nat)
  | usercopyMemset (user : Nat) (byte : Byte) (size : Nat)
  | memcpy (dst src size : Nat)
  | memset (dst : Nat) (byte : Byte) (size : Nat)
  deriving DecidableEq

/-- The fault handler cannot resolve an access to a faulting address. -/
structure Machine where
  memory : Nat → Byte
  faults : Nat → Bool
  accesses : List Access
  panicked : Bool

/-- The copy goes upward byte by byte and stops at the first fault. -/
def copyBytes (faults : Nat → Bool) : (count dst src : Nat) → (Nat → Byte) → (Nat → Byte) × Bool
  | 0, _, _, memory => (memory, true)
  | count + 1, dst, src, memory =>
    if faults src || faults dst then (memory, false)
    else copyBytes faults count (addWord dst 1) (addWord src 1) (Function.update memory dst (memory src))

def setBytes (faults : Nat → Bool) (byte : Byte) : (count dst : Nat) → (Nat → Byte) → (Nat → Byte) × Bool
  | 0, _, memory => (memory, true)
  | count + 1, dst, memory =>
    if faults dst then (memory, false)
    else setBytes faults byte count (addWord dst 1) (Function.update memory dst byte)

namespace Machine

variable (machine : Machine)

def note (access : Access) : Machine :=
  { machine with accesses := machine.accesses ++ [access] }

/-- A fault in a protected access becomes an error. -/
def guarded (access : Access) (result : (Nat → Byte) × Bool) : Machine × Option Errno :=
  ({ machine.note access with memory := result.1 }, if result.2 then none else some .efault)

/-- A fault in a plain access stops the kernel. -/
def plain (access : Access) (result : (Nat → Byte) × Bool) : Machine × Option Errno :=
  ({ machine.note access with memory := result.1, panicked := machine.panicked || !result.2 }, none)

def usercopyFromuser (kernel user size : Nat) : Machine × Option Errno :=
  if isUserAddress user then
    machine.guarded (.usercopyFromuser kernel user size)
      (copyBytes machine.faults size kernel user machine.memory)
  else (machine, some .efault)

def usercopyTouser (user kernel size : Nat) : Machine × Option Errno :=
  if isUserAddress user then
    machine.guarded (.usercopyTouser user kernel size)
      (copyBytes machine.faults size user kernel machine.memory)
  else (machine, some .efault)

def usercopyMemset (user : Nat) (byte : Byte) (size : Nat) : Machine × Option Errno :=
  if isUserAddress user then
    machine.guarded (.usercopyMemset user byte size) (setBytes machine.faults byte size user machine.memory)
  else (machine, some .efault)

def usercopyMemcpyWrapper (dst src size : Nat) : Machine × Option Errno :=
  machine.plain (.memcpy dst src size) (copyBytes machine.faults size dst src machine.memory)

def usercopyMemsetWrapper (dst : Nat) (byte : Byte) (size : Nat) : Machine × Option Errno :=
  machine.plain (.memset dst byte size) (setBytes machine.faults byte size dst machine.memory)

def usercopyPossiblyFromUser (kernel user size : Nat) : Machine × Option Errno :=
  if isUserAddress user then machine.usercopyFromuser kernel user size
  else machine.usercopyMemcpyWrapper kernel user size

def usercopyPossiblyToUser (user kernel size : Nat) : Machine × Option Errno :=
  if isUserAddress user then machine.usercopyTouser user kernel size
  else machine.usercopyMemcpyWrapper user kernel size

def usercopyPossiblyMemsetToUser (user : Nat) (byte : Byte) (size : Nat) :
    Machine × Option Errno :=
  if isUserAddress user then machine.usercopyMemset user byte size
  else machine.usercopyMemsetWrapper user byte size

end Machine

end Astral.Io
