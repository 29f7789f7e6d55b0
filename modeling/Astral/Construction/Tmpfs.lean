/-
This file models the directories of a `tmpfs` file system. Calls are made one after another through the VFS.
-/

import Astral.Construction.Machine
import Astral.Library.Run

namespace Astral.Tmpfs

open Function

inductive NodeType where
  | regular
  | dir
  | chdev
  | blkdev
  | fifo
  | link
  | socket
  deriving DecidableEq

abbrev Name := List Char

def dot : Name := ['.']

def dotdot : Name := ['.', '.']

/-- An entry in the table of a directory. -/
structure Link where
  dir : Nat
  name : Name
  node : Nat
  deriving DecidableEq

/-- The entries of all directories, and the references that users of the file system hold. -/
structure Fs where
  type : Nat → Option NodeType
  nlinks : Nat → Int
  refcount : Nat → Int
  links : List Link
  held : Nat → Nat

def root : Nat := 0

/-- The table of a directory without one of its names. -/
def removed (links : List Link) (dir : Nat) (name : Name) : List Link :=
  links.filter fun link => ¬ (link.dir = dir ∧ link.name = name)

namespace Fs

variable (fs : Fs)

def get (dir : Nat) (name : Name) : Option Nat :=
  (fs.links.find? fun link => link.dir = dir ∧ link.name = name).map Link.node

/-- The entry replaces one with the same name. -/
def set (dir : Nat) (name : Name) (node : Nat) : Fs :=
  { fs with links := ⟨dir, name, node⟩ :: removed fs.links dir name }

def remove (dir : Nat) (name : Name) : Fs := { fs with links := removed fs.links dir name }

/-- At zero the node becomes inactive and is freed. -/
def count (node : Nat) (change : Int) : Fs :=
  { fs with refcount := update fs.refcount node (fs.refcount node + change) }

def relink (node : Nat) (change : Int) : Fs :=
  { fs with nlinks := update fs.nlinks node (fs.nlinks node + change) }

def hasType (node : Nat) (type : NodeType) : Bool := fs.type node = some type

/-- The directory itself is its first entry, and its parent the second one. The root has no second one. -/
def newnode (node : Nat) (type : NodeType) (parent : Option Nat) : Fs :=
  { fs with
    type := update fs.type node (some type)
    nlinks := update fs.nlinks node 1
    refcount := update fs.refcount node 1
    links := if type = .dir then
        ⟨node, dot, node⟩ :: (parent.elim fs.links fun parent => ⟨node, dotdot, parent⟩ :: fs.links)
      else fs.links }

def create (dir : Nat) (name : Name) (type : NodeType) (node : Nat) : Except Fault (Fs × Option Errno) :=
  if !fs.hasType dir .dir then .ok (fs, some .enotdir)
  else if (fs.get dir name).isSome then .ok (fs, some .eexist)
  else if (fs.type node).isSome then .error .notReady
  else
    let created := (fs.newnode node type (some dir)).set dir name node
    .ok (if type = .dir then created.count dir 1 else created, none)

/-- Whether the names of a directory all begin with a dot. -/
def seemsEmpty (dir : Nat) : Bool := fs.links.all fun link => link.dir ≠ dir ∨ link.name.head? = some '.'

def unlink (dir : Nat) (name : Name) : Except Fault (Fs × Option Errno) :=
  if !fs.hasType dir .dir then .ok (fs, some .enotdir)
  else
    match fs.get dir name with
    | none => .ok (fs, some .enoent)
    | some node =>
      if fs.hasType node .dir && !fs.seemsEmpty node then .ok (fs, some .enotempty)
      else .ok (((fs.remove dir name).relink node (-1)).count node (-1), none)

def link (node dir : Nat) (name : Name) : Except Fault (Fs × Option Errno) :=
  if !fs.hasType dir .dir then .ok (fs, some .enotdir)
  else if fs.hasType node .dir then .ok (fs, some .eisdir)
  else if (fs.get dir name).isSome then .ok (fs, some .eexist)
  else .ok (((fs.set dir name node).count node 1).relink node 1, none)

def rename (source : Nat) (oldname : Name) (target : Nat) (newname : Name) : Except Fault (Fs × Option Errno) :=
  if !fs.hasType source .dir || !fs.hasType target .dir then .ok (fs, some .enotdir)
  else
    match fs.get source oldname with
    | none => .ok (fs, some .enoent)
    | some node =>
      if source = target ∧ oldname = newname then .ok (fs, none)
      else
        let moved := (fs.set target newname node).remove source oldname
        .ok ((fs.get target newname).elim moved fun oldnode => moved.count oldnode (-1), none)

def discard (node : Nat) : Fs :=
  { fs with
    type := update fs.type node none
    links := fs.links.filter fun link => link.dir ≠ node }

/-- A directory that is freed has only its two own entries. -/
def freenode (node : Nat) : Except Fault (Fs × Option Errno) :=
  if fs.refcount node ≠ 0 then .error .assertion
  else if fs.hasType node .dir then
    if fs.links.countP (fun link => link.dir = node) = 2 then
      match fs.get node dotdot with
      | none => .error .assertion
      | some parent => .ok ((fs.discard node).count parent (-1), none)
    else .error .assertion
  else .ok (fs.discard node, none)

end Fs

inductive Call where
  | create (dir : Nat) (name : Name) (type : NodeType) (node : Nat)
  | symlink (dir : Nat) (name : Name) (node : Nat)
  | unlink (dir : Nat) (name : Name)
  | link (node dir : Nat) (name : Name)
  | rename (source : Nat) (oldname : Name) (target : Nat) (newname : Name)
  | hold (node : Nat)
  | release (node : Nat)
  | inactive (node : Nat)

/-- The VFS has references to the nodes that it passes. A node is freed once its last reference is gone, and the
reference of the mount to the root stays. -/
def Fs.call (fs : Fs) : Call → Except Fault (Fs × Option Errno)
  | .create dir name type node => if fs.refcount dir = 0 then .error .notReady else fs.create dir name type node
  | .symlink dir name node => if fs.refcount dir = 0 then .error .notReady else fs.create dir name .link node
  | .unlink dir name => if fs.refcount dir = 0 then .error .notReady else fs.unlink dir name
  | .link node dir name =>
    if fs.refcount dir = 0 ∨ fs.refcount node = 0 then .error .notReady else fs.link node dir name
  | .rename source oldname target newname =>
    if fs.refcount source = 0 ∨ fs.refcount target = 0 then .error .notReady
    else fs.rename source oldname target newname
  | .hold node =>
    if fs.refcount node = 0 then .error .notReady
    else .ok ({ fs.count node 1 with held := update fs.held node (fs.held node + 1) }, none)
  | .release node =>
    if fs.held node = 0 ∨ node = root ∧ fs.held node = 1 then .error .notReady
    else .ok ({ fs.count node (-1) with held := update fs.held node (fs.held node - 1) }, none)
  | .inactive node => if fs.type node = none ∨ fs.refcount node ≠ 0 then .error .notReady else fs.freenode node

def Fs.step (fs : Fs) (call : Call) : Except Fault Fs := Prod.fst <$> fs.call call

/-- A file system with an empty root. -/
def mounted : Fs := { (⟨fun _ => none, fun _ => 0, fun _ => 0, [], fun _ => 0⟩ : Fs).newnode root .dir none with
  held := update (fun _ => 0) root 1 }

end Astral.Tmpfs
