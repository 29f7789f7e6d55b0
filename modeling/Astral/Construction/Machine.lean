/-
This file fixes the machine words, the page size, the address-space bounds, the error numbers and the faults.
-/

import Mathlib.Tactic

namespace Astral

/-- A machine word has 64 bits. -/
def wordSize : Nat := 2 ^ 64

def addWord (left right : Nat) : Nat := (left + right) % wordSize

def subWord (left right : Nat) : Nat := (left + wordSize - right) % wordSize

def mulWord (left right : Nat) : Nat := (left * right) % wordSize

/-- A word is read as a signed long. -/
def signed (word : Nat) : Int := if word < 2 ^ 63 then word else (word : Int) - 2 ^ 64

/-- The minimum takes its arguments as signed longs and its result is stored in a word. -/
def minLong (left right : Nat) : Nat := if signed left > signed right then right else left

def pageSize : Nat := 4096

def roundDown (value unit : Nat) : Nat := value - value % unit

def roundUp (value unit : Nat) : Nat := roundDown (subWord (addWord value unit) 1) unit

def kernelspaceStart : Nat := 0xffff800000000000
def userspaceEnd : Nat := 0x0000800000000000

/-- A flag test reads one mask of a flag word. -/
def hasFlag {width : Nat} (flags mask : BitVec width) : Bool := (flags &&& mask) != 0

/-- The functions return an error of their own, or one that they were given by a function they call. -/
inductive Errno where
  | eacces
  | eagain
  | ebadf
  | eexist
  | efault
  | eintr
  | einval
  | eisdir
  | eloop
  | emfile
  | emsgsize
  | enametoolong
  | enetunreach
  | enoent
  | enomem
  | enospc
  | enotdir
  | enotempty
  | enxio
  | eperm
  | epipe
  | esrch
  | given (code : Nat)
  deriving DecidableEq

/-- Why a step has no next state. What is not ready or blocked waits, the other steps stop the kernel or leave what is
defined. -/
inductive Fault where
  | assertion
  | null
  | divide
  | outside
  | overrun
  | endless
  | freed
  | taken
  | queuedTwice
  | badRelease
  | corrupted
  | blocked
  | notReady
  deriving DecidableEq

end Astral
