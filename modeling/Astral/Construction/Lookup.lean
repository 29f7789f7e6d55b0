/-
This file models the pathname lookup of the virtual file system with a log of the locks and references that it takes and
drops, in their order.
-/

import Astral.Construction.Machine
import Mathlib

namespace Astral.Fs

inductive VnodeType where
  | regular
  | dir
  | chardev
  | blkdev
  | fifo
  | link
  | socket
  deriving DecidableEq

def pathnameMax : Nat := 512

def maxLinkDepth : Nat := 64

abbrev Name := List Char

def dotdot : Name := ['.', '.']

/-- The file systems mounted in the tree, each over a node that is not above its own root. -/
structure Mounts (Node : Type) where
  /-- The answer of `VFS_ROOT` for the file system mounted on the node. -/
  vfsmounted : Node → Option (Except Errno Node)
  isRoot : Node → Bool
  nodecovered : Node → Node
  /-- How many mounts may lie above the node. -/
  above : Node → Nat
  /-- How many mounts may lie below the node. -/
  below : Node → Nat
  mounted_above : ∀ node root, vfsmounted node = some (.ok root) → above root < above node
  covered_below : ∀ node, isRoot node = true → below (nodecovered node) < below node

namespace Mounts

variable {Node : Type} (mounts : Mounts Node)

def highest : Nat → Node → Except Errno Node
  | 0, node => .ok node
  | fuel + 1, node =>
    match mounts.vfsmounted node with
    | none => .ok node
    | some (.error error) => .error error
    | some (.ok root) => highest fuel root

def highestnodeinmp (node : Node) : Except Errno Node :=
  mounts.highest (mounts.above node + 1) node

def lowest : Nat → Node → Node
  | 0, node => node
  | fuel + 1, node => if mounts.isRoot node then lowest fuel (mounts.nodecovered node) else node

def lowestnodeinmp (node : Node) : Node :=
  mounts.lowest (mounts.below node) node

end Mounts

/-- A directory tree as one lookup finds it. -/
structure Tree (Node : Type) extends Mounts Node where
  type : Node → VnodeType
  /-- The error of `VOP_ACCESS` for searching the directory, if there is one. -/
  access : Node → Option Errno
  lookup : Node → Name → Except Errno Node
  readlink : Node → Except Errno Name
  vfsroot : Node
  /-- The root directory of the calling process, if a process calls. -/
  procRoot : Option Node
  /-- Whether there is memory for a copy of the path of a lookup that starts at the node. -/
  allocates : Node → Name → Bool
  /-- The root of the tree, which the code asserts that it finds. -/
  top : Node
  top_highest : toMounts.highestnodeinmp vfsroot = .ok top
  /-- Only the root of a file system is its own parent. -/
  parent_other : ∀ node next, isRoot node = false → lookup node dotdot = .ok next → next ≠ node

inductive Action (Node : Type) where
  | lock (node : Node)
  | unlock (node : Node)
  | hold (node : Node)
  | release (node : Node)
  deriving DecidableEq

def Action.node {Node : Type} : Action Node → Node
  | .lock node => node
  | .unlock node => node
  | .hold node => node
  | .release node => node

abbrev Log (Node : Type) := List (Action Node)

/-- How often each node is locked and how many references it has. -/
structure Counts (Node : Type) where
  locks : Node → Int
  refs : Node → Int

namespace Counts

variable {Node : Type} [DecidableEq Node]

def lock (node : Node) (counts : Counts Node) : Counts Node :=
  { counts with locks := counts.locks + Pi.single node 1 }

def unlock (node : Node) (counts : Counts Node) : Counts Node :=
  { counts with locks := counts.locks - Pi.single node 1 }

def hold (node : Node) (counts : Counts Node) : Counts Node :=
  { counts with refs := counts.refs + Pi.single node 1 }

def release (node : Node) (counts : Counts Node) : Counts Node :=
  { counts with refs := counts.refs - Pi.single node 1 }

/-- One action changes one count. -/
def perform (counts : Counts Node) : Action Node → Counts Node
  | .lock node => counts.lock node
  | .unlock node => counts.unlock node
  | .hold node => counts.hold node
  | .release node => counts.release node

/-- The counts after the actions of a log. -/
def replay (counts : Counts Node) (log : Log Node) : Counts Node := log.foldl perform counts

end Counts

structure Flags where
  parent : Bool
  nolink : Bool
  deriving DecidableEq

/-- The node and the last component that a lookup returns. -/
structure Found (Node : Type) where
  node : Node
  lastcomp : Option Name

/-- A stage of one component with its log. -/
abbrev Logged (Node : Type) := Except Errno Node × Log Node

/-- A lookup of the target of a symbolic link. -/
abbrev Deref (Node : Type) := Node → Name → Logged Node

/-- What the loop over the components leaves behind. -/
structure Walked (Node : Type) where
  error : Option Errno
  current : Node
  lastcomp : Option Name
  log : Log Node

/-- The parts of a path between its slashes. -/
def components (path : Name) : List Name :=
  (path.splitOn '/').filter fun component => component ≠ []

section Lookup

variable {Node : Type} [DecidableEq Node] (tree : Tree Node)

/-- The last component is followed unless the caller wants the link itself. -/
def follows (flags : Flags) (islast : Bool) (node : Node) : Bool :=
  tree.type node = .link && (!islast || !flags.nolink)

/-- The node at which the target of a link in `current` starts. -/
def derefstart (current : Node) (target : Name) : Node :=
  if target.head? = some '/' then tree.procRoot.getD tree.vfsroot else current

/-- Exchange the held and locked node for another one. -/
def swap (node other : Node) : Log Node := [.hold other, .unlock node, .release node, .lock other]

/-- Leave the root of a mounted file system for the node it covers. -/
def leaveMount (current : Node) : Node × Log Node :=
  if tree.isRoot current then
    let covered := tree.lowestnodeinmp current
    if covered ≠ current then (covered, swap current covered) else (current, [])
  else (current, [])

def directory (component : Name) (current : Node) : Node × Log Node :=
  if component = dotdot then leaveMount tree current else (current, [])

/-- `VOP_LOOKUP` returns its result held and locked, and unlocks the directory for "..". -/
def vopLookup (current : Node) (component : Name) : Logged Node :=
  match tree.lookup current component with
  | .error error => (.error error, [])
  | .ok next =>
    (.ok next, .hold next :: (if component = dotdot then [.unlock current] else []) ++
      if next ≠ current then [.lock next] else [])

/-- Go up to the root of the file systems mounted on the node that was found. -/
def enterMount (current next : Node) : Logged Node :=
  match tree.highestnodeinmp next with
  | .error error => (.error error, (if current ≠ next then [.unlock next] else []) ++ [.release next])
  | .ok root => (.ok root, if root ≠ next then swap next root else [])

/-- Search the component in the current directory. -/
def enter (component : Name) (current : Node) : Logged Node :=
  match tree.access current with
  | some error => (.error error, [])
  | none =>
    match vopLookup tree current component with
    | (.error error, log) => (.error error, log)
    | (.ok next, log) =>
      let (result, more) := enterMount tree current next
      (result, log ++ (if current ≠ next ∧ component ≠ dotdot then [.unlock current] else []) ++ more)

/-- Replace a symbolic link by the node that its target names. -/
def follow (flags : Flags) (deref : Deref Node) (islast : Bool) (current next : Node) : Logged Node :=
  if follows tree flags islast next then
    match tree.readlink next with
    | .error error => (.error error, [.unlock next, .release next])
    | .ok target =>
      let start := derefstart tree current target
      let absolute := target.head? = some '/'
      let (result, log) := deref start target
      (result, .unlock next :: (if absolute then [.hold start] else []) ++ log ++
        (if absolute then [.release start] else []) ++ [.release next])
  else (.ok next, [])

/-- Search the component and follow the link that it may be. -/
def advance (flags : Flags) (deref : Deref Node) (islast : Bool) (component : Name) (current : Node) :
    Logged Node :=
  match enter tree component current with
  | (.error error, log) => (.error error, log)
  | (.ok next, log) =>
    let (result, more) := follow tree flags deref islast current next
    (result, log ++ more)

/-- The loop over the components. -/
def walk (flags : Flags) (deref : Deref Node) : List Name → Node → Walked Node
  | [], current => ⟨none, current, none, []⟩
  | component :: rest, current =>
    if tree.type current ≠ .dir then ⟨some .enotdir, current, none, []⟩
    else if rest.isEmpty && flags.parent then ⟨none, current, some component, []⟩
    else if component = dotdot ∧ current = tree.top then walk flags deref rest current
    else
      let (current, log) := directory tree component current
      match advance tree flags deref rest.isEmpty component current with
      | (.error error, more) => ⟨some error, current, none, log ++ more⟩
      | (.ok next, more) =>
        let walked := walk flags deref rest next
        { walked with log := log ++ more ++ .release current :: walked.log }

/-- One call of `vfs_lookup` after the check of the link count. -/
def lookupPath (flags : Flags) (deref : Deref Node) (start : Node) (path : Name) :
    Except Errno (Found Node) × Log Node :=
  if path = [] then
    if flags.parent then (.error .enoent, [])
    else
      match tree.highestnodeinmp start with
      | .error error => (.error error, [])
      | .ok root => (.ok ⟨root, none⟩, [.hold root])
  else if path.length > pathnameMax then (.error .enametoolong, [])
  else
    match tree.highestnodeinmp start with
    | .error error => (.error error, [])
    | .ok current =>
      if tree.allocates start path then
        let walked := walk tree flags deref (components path) current
        let log := .hold current :: .lock current :: walked.log
        match walked.error with
        | some error => (.error error, log ++ [.unlock walked.current, .release walked.current])
        | none => (.ok ⟨walked.current, walked.lastcomp⟩, log)
      else (.error .enomem, [])

/-- A nested call, with the number of links that may still be followed. -/
def derefLookup : Nat → Deref Node
  | 0 => fun _ _ => (.error .eloop, [])
  | links + 1 => fun start path =>
    let (result, log) := lookupPath tree ⟨false, false⟩ (derefLookup links) start path
    (result.map Found.node, log)

def vfsLookup (flags : Flags) (start : Node) (path : Name) : Except Errno (Found Node) × Log Node :=
  lookupPath tree flags (derefLookup tree (maxLinkDepth + 1)) start path

end Lookup

end Astral.Fs
