/-
This file models the file descriptor tables of processes. Each part of a call that holds the mutex of its table is one
step.
-/

import Astral.Construction.Machine
import Astral.Library.Run

namespace Astral.Fd

def fdtableLimit : Nat := 256

/-- A descriptor. New memory of a table holds free ones. -/
structure Slot where
  file : Option Nat
  flags : Nat
  deriving DecidableEq

def Slot.free : Slot := ⟨none, 0⟩

structure Proc where
  fd : List Slot
  fdfirst : Nat
  deriving DecidableEq

namespace Proc

variable (proc : Proc)

def fdcount : Nat := proc.fd.length

/-- The file of a descriptor. A negative number is not below the count, which is unsigned. -/
def file (fd : Int) : Option Nat :=
  if 0 ≤ fd then (proc.fd[fd.toNat]?).bind Slot.file else none

def getfree (start : Nat) : Option Nat :=
  let sfd := start + (proc.fd.drop start).findIdx fun slot => slot.file.isNone
  if sfd ≠ proc.fdcount then some sfd else none

/-- There is no table if it would be too large. -/
def growtable (newcount : Nat) : Except Fault (Option Proc) :=
  if newcount > fdtableLimit then .ok none
  else if newcount > proc.fdcount then
    .ok (some { proc with fd := proc.fd ++ List.replicate (newcount - proc.fdcount) .free })
  else .error .assertion

/-- A free descriptor from the start on, or the last one of a table that was grown. -/
def search (start newcount : Nat) (fd : Nat) : Except Fault (Option (Nat × Proc)) :=
  match proc.getfree start with
  | some found => .ok (some (found, proc))
  | none => do
      let grown ← proc.growtable newcount
      return grown.map (fd, ·)

def put (fd : Nat) (slot : Slot) : Except Fault Proc :=
  if fd < proc.fdcount then .ok { proc with fd := proc.fd.set fd slot } else .error .outside

/-- The table of a new process. Only descriptors with files are copied. -/
def copy : Proc := ⟨proc.fd.map fun slot => if slot.file.isSome then slot else .free, proc.fdfirst⟩

end Proc

/-- The last field counts the references that running calls hold. -/
structure System where
  procs : List Proc
  refcount : Nat → Int
  held : Nat → Nat

abbrev Reply := Except Errno Nat

namespace System

variable (system : System)

def hold (file : Nat) : System :=
  { system with refcount := Function.update system.refcount file (system.refcount file + 1) }

/-- At zero the file is freed. -/
def release (file : Nat) : System :=
  { system with refcount := Function.update system.refcount file (system.refcount file - 1) }

/-- A running call keeps a reference, or no longer does. -/
def keep (file count : Nat) : System := { system with held := Function.update system.held file count }

def setProc (pid : Nat) (proc : Proc) : System := { system with procs := system.procs.set pid proc }

/-- The new file has one reference, which is for the descriptor. -/
def fdNew (pid : Nat) (proc : Proc) (flags file : Nat) : Except Fault (System × Reply) := do
  match ← proc.search proc.fdfirst (proc.fdcount + 1) proc.fdcount with
  | none => return (system, .error .emfile)
  | some (fd, proc) =>
    let proc ← { proc with fdfirst := fd + 1 }.put fd ⟨some file, flags⟩
    return ((system.hold file).setProc pid proc, .ok fd)

/-- The reference of the descriptor is released after the mutex, and until then the call holds it. -/
def fdClose (pid : Nat) (proc : Proc) (fd : Int) : Except Fault (System × Reply) :=
  match proc.file fd with
  | none => .ok (system, .error .ebadf)
  | some file => do
      let proc ← proc.put fd.toNat ⟨none, ((proc.fd[fd.toNat]?).map Slot.flags).getD 0⟩
      let proc := { proc with fdfirst := if proc.fdfirst > fd.toNat then fd.toNat else proc.fdfirst }
      return ((system.setProc pid proc).keep file (system.held file + 1), .ok 0)

def fdClone (proc : Proc) : System × Reply :=
  let system := (proc.copy.fd.filterMap Slot.file).foldl hold system
  (⟨system.procs ++ [proc.copy], system.refcount, system.held⟩, .ok 0)

/-- The end of a call that looked for a free descriptor. -/
def place (pid file flags : Nat) : Option (Nat × Proc) → Except Fault (System × Reply)
  | none => .ok (system, .error .emfile)
  | some (fd, proc) => do
      let proc ← proc.put fd ⟨some file, flags⟩
      return ((system.setProc pid proc).hold file, .ok fd)

def fdInsert (pid : Nat) (proc : Proc) (file : Nat) : Except Fault (System × Reply) := do
  system.place pid file 0 (← proc.search 0 proc.fdcount proc.fdcount)

def fdDup (pid : Nat) (proc : Proc) (oldfd newfd : Int) (exact : Bool) (fdflags : Nat) :
    Except Fault (System × Reply) := do
  if newfd < 0 ∨ fdtableLimit ≤ newfd then return (system, .error .ebadf)
  else
    let newfd := newfd.toNat
    match proc.file oldfd with
    | none => return (system, .error .ebadf)
    | some file =>
      if exact then
        match ← (if newfd ≥ proc.fdcount then proc.growtable (newfd + 1) else pure (some proc)) with
        | none => return (system, .error .emfile)
        | some proc =>
          let system := (proc.file newfd).elim system system.release
          let proc ← proc.put newfd ⟨some file, fdflags⟩
          return ((system.setProc pid proc).hold file, .ok newfd)
      else
        let newsize := if newfd < proc.fdcount then proc.fdcount + 1 else newfd
        system.place pid file fdflags (← proc.search newfd newsize (newsize - 1))

end System

/-- The calls, and how running calls come to hold references. -/
inductive Call where
  | new (pid flags file : Nat)
  | close (pid : Nat) (fd : Int)
  | clone (pid : Nat)
  | insert (pid file : Nat)
  | dup (pid : Nat) (oldfd newfd : Int) (exact : Bool) (fdflags : Nat)
  | allocate (file : Nat)
  | get (pid : Nat) (fd : Int)
  | release (file : Nat)

def System.onProc (system : System) (pid : Nat) (call : Proc → Except Fault (System × Reply)) :
    Except Fault (System × Reply) :=
  match system.procs[pid]? with
  | none => .error .notReady
  | some proc => call proc

/-- A new file is one that nobody refers to, and only held references are inserted and released. The callers of `fd_dup`
do not duplicate a descriptor to itself. -/
def System.call (system : System) : Call → Except Fault (System × Reply)
  | .new pid flags file =>
    if system.refcount file = 0 then system.onProc pid fun proc => system.fdNew pid proc flags file
    else .error .notReady
  | .close pid fd => system.onProc pid fun proc => system.fdClose pid proc fd
  | .clone pid => system.onProc pid fun proc => .ok (system.fdClone proc)
  | .insert pid file =>
    if system.held file ≠ 0 then system.onProc pid fun proc => system.fdInsert pid proc file else .error .notReady
  | .dup pid oldfd newfd exact fdflags =>
    if exact ∧ oldfd = newfd then .error .notReady
    else system.onProc pid fun proc => system.fdDup pid proc oldfd newfd exact fdflags
  | .allocate file =>
    if system.refcount file = 0 then .ok ((system.hold file).keep file (system.held file + 1), .ok 0)
    else .error .notReady
  | .get pid fd => system.onProc pid fun proc =>
    match proc.file fd with
    | none => .ok (system, .error .ebadf)
    | some file => .ok ((system.hold file).keep file (system.held file + 1), .ok 0)
  | .release file =>
    if system.held file ≠ 0 then .ok ((system.release file).keep file (system.held file - 1), .ok 0)
    else .error .notReady

def System.step (system : System) (call : Call) : Except Fault System := Prod.fst <$> system.call call

/-- The first process, with its three files. -/
def boot : System where
  procs := [⟨[⟨some 0, 0⟩, ⟨some 1, 0⟩, ⟨some 2, 0⟩], 3⟩]
  refcount file := if file < 3 then 1 else 0
  held _ := 0

end Astral.Fd
