/-
This file models the calls of the virtual file system that take paths, with the locks and references that they and the
functions of tmpfs under them take and drop.
-/

import Astral.Construction.Lookup

namespace Astral.Fs

/-- A lookup with its log. -/
abbrev Lookup (Node : Type) := Flags → Node → Name → Except Errno (Found Node) × Log Node

/-- The ways in which `tmpfs_create` ends. -/
inductive Creation (Node : Type) where
  | refused (error : Errno)
  /-- The node was made but not entered into the directory. -/
  | unlisted (node : Node) (error : Errno)
  | created (node : Node)
  deriving DecidableEq

/-- What the allocator, the checks of the credentials and the file system answer during one call. -/
structure Answers (Node : Type) where
  /-- Whether there is memory for the last components. -/
  memory : Bool
  /-- The text in the buffer of a last component before the lookup. -/
  buffer : Name
  dstbuffer : Name
  /-- The error of `VOP_ACCESS` for the modes of an open. -/
  access : Node → Option Errno
  /-- The error of `VOP_ACCESS` for writing to a directory. -/
  write : Node → Option Errno
  /-- The answers of `auth_filesystem_check` for a node and its directory. -/
  mayUnlink : Node → Node → Bool
  mayRename : Node → Node → Bool
  create : Node → Name → Creation Node
  link : Node → Node → Name → Option Errno
  unlink : Node → Node → Name → Option Errno
  rename : Node → Name → Node → Name → Option Errno
  /-- The new node of `devfs_getnode` and its master. -/
  device : Node → Except Errno (Node × Node)
  openDevice : Node → Except Errno Node
  /-- The pipe of `pipefs_getbinding` and whether it is new. -/
  pipe : Node → Except Errno (Node × Bool)
  openPipe : Node → Option Errno

/-- What a call leaves behind. -/
structure Done (Node : Type) where
  error : Option Errno
  /-- What the caller takes with the result. -/
  handed : Log Node
  /-- The references of names that were added and removed. -/
  names : Log Node
  log : Log Node

/-- A call that fails. -/
def Done.fail {Node : Type} (error : Errno) (log : Log Node) : Done Node := ⟨some error, [], [], log⟩

/-- Put the actions of a call between others. -/
def Done.within {Node : Type} (before : Log Node) (done : Done Node) (after : Log Node) : Done Node :=
  { done with log := before ++ done.log ++ after }

section Tmpfs

variable {Node : Type} (tree : Tree Node) (answers : Answers Node)

/-- A new device node has one reference, and its lock does nothing. -/
def openDeviceLog (node : Node) : Logged Node :=
  match answers.device node with
  | .error error => (.error error, [])
  | .ok (device, master) =>
    match answers.openDevice device with
    | .error error => (.error error, [.hold device, .hold master, .hold node])
    | .ok opened => (.ok opened, [.hold device, .hold master, .hold node, .hold opened])

/-- A new pipe has one reference, and its lock does nothing. -/
def openFifoLog (node : Node) : Logged Node :=
  match answers.pipe node with
  | .error error => (.error error, [])
  | .ok (pipe, fresh) =>
    let bound := (if fresh then [.hold pipe] else []) ++ [.hold pipe, .unlock node, .lock node]
    match answers.openPipe pipe with
    | some error => (.error error, bound)
    | none => (.ok pipe, bound ++ [.hold pipe])

def tmpfsOpenLog (node : Node) : Logged Node :=
  match tree.type node with
  | .socket => (.error .enxio, [])
  | .chardev => openDeviceLog answers node
  | .blkdev => openDeviceLog answers node
  | .fifo => openFifoLog answers node
  | .regular => (.ok node, [])
  | .dir => (.ok node, [])
  | .link => (.ok node, [])

/-- The references of the name of a new node and of the ".." of a new directory. -/
def createdNames (parent node : Node) (dir : Bool) : Log Node :=
  .hold node :: if dir then [.hold parent] else []

/-- A new node is returned held and locked. When a new directory cannot be entered, its removal drops the reference of
its "..", which was not taken. -/
def tmpfsCreateLog (parent : Node) (name : Name) (dir : Bool) : Logged Node :=
  match answers.create parent name with
  | .refused error => (.error error, [])
  | .unlisted node error => (.error error, [.hold node, .release node] ++ if dir then [.release parent] else [])
  | .created node => (.ok node, createdNames parent node dir ++ [.hold node, .lock node])

end Tmpfs

section Calls

variable {Node : Type} [DecidableEq Node] (first second : Lookup Node) (tree : Tree Node) (answers : Answers Node)

def vfsOpen (ref : Node) (path : Name) : Done Node :=
  match first ⟨false, false⟩ ref path with
  | (.error error, log) => .fail error log
  | (.ok ⟨tmp, _⟩, log) =>
    match answers.access tmp with
    | some error => .fail error (log ++ [.unlock tmp])
    | none =>
      match tmpfsOpenLog tree answers tmp with
      | (.error error, more) => .fail error (log ++ more ++ [.release tmp, .unlock tmp])
      | (.ok new, more) => ⟨none, [.hold new], [], log ++ more ++ [.unlock tmp]⟩

/-- The caller may want the new node. -/
def vfsCreate (ref : Node) (path : Name) (dir wanted : Bool) : Done Node :=
  match first ⟨true, false⟩ ref path with
  | (.error error, log) => .fail error log
  | (.ok ⟨parent, lastcomp⟩, log) =>
    match answers.write parent with
    | some error => .fail error (log ++ [.unlock parent, .release parent, .unlock parent])
    | none =>
      match tmpfsCreateLog answers parent (lastcomp.getD answers.buffer) dir with
      | (.error error, more) => .fail error (log ++ more ++ [.release parent, .unlock parent])
      | (.ok ret, more) =>
        ⟨none, if wanted then [.hold ret, .lock ret] else [], createdNames parent ret dir,
          log ++ more ++ [.release parent] ++ (if wanted then [] else [.unlock ret, .release ret]) ++
            [.unlock parent]⟩

/-- The second half of `vfs_link`, for a hard link to a target or for a symbolic link. -/
def linkInto (target : Option Node) (linkref : Node) (linkpath : Name) : Done Node :=
  if answers.memory then
    match second ⟨true, false⟩ linkref linkpath with
    | (.error error, log) => .fail error log
    | (.ok ⟨parent, lastcomp⟩, log) =>
      let leaving := [.unlock parent, .release parent]
      let component := lastcomp.getD answers.buffer
      match answers.write parent with
      | some error => .fail error (log ++ leaving)
      | none =>
        match target with
        | some node =>
          match answers.link node parent component with
          | some error => .fail error (log ++ leaving)
          | none => ⟨none, [], [.hold node], log ++ [.hold node] ++ leaving⟩
        | none =>
          match tmpfsCreateLog answers parent component false with
          | (.error error, more) => .fail error (log ++ more ++ leaving)
          | (.ok node, more) =>
            ⟨none, [], createdNames parent node false,
              log ++ (more ++ [.unlock node, .release node]) ++ leaving⟩
  else .fail .enomem []

def vfsLink (destref : Node) (destpath : Name) (linkref : Node) (linkpath : Name) : Done Node :=
  match first ⟨false, false⟩ destref destpath with
  | (.error error, log) => .fail error log
  | (.ok ⟨targetnode, _⟩, log) =>
    (linkInto second answers (some targetnode) linkref linkpath).within log
      [.unlock targetnode, .release targetnode]

def vfsSymlink (linkref : Node) (linkpath : Name) : Done Node := linkInto second answers none linkref linkpath

/-- The check of the credentials and `tmpfs_unlink`, with the references of the removed name. -/
def unlinked (parent child : Node) (component : Name) : Option Errno × Log Node :=
  if answers.mayUnlink child parent then
    match answers.unlink parent child component with
    | some error => (some error, [])
    | none => (none, [.release child])
  else (some .eacces, [])

/-- The part of `vfs_unlink` behind the lookup of the directory. -/
def unlinkIn (path : Name) (parent : Node) (component : Name) : Done Node :=
  match vopLookup tree parent component with
  | (.error error, found) => .fail error (found ++ [.unlock parent, .release parent])
  | (.ok child, found) =>
    let (error, names) := unlinked answers parent child component
    ⟨error, [], names, found ++ names ++ [.unlock child] ++
      (if path = dotdot then [] else [.unlock parent]) ++ [.release child, .release parent]⟩

def vfsUnlink (ref : Node) (path : Name) : Done Node :=
  if answers.memory then
    match first ⟨true, true⟩ ref path with
    | (.error error, log) => .fail error log
    | (.ok ⟨parent, lastcomp⟩, log) =>
      (unlinkIn tree answers path parent (lastcomp.getD answers.buffer)).within log []
  else .fail .enomem []

/-- The checks of the credentials and `tmpfs_rename`, with the reference of the replaced name. -/
def renamed (srcdir : Node) (srccomp : Name) (src dstdir : Node) (dstcomp : Name) (dst : Option Node) :
    Option Errno × Log Node :=
  if answers.mayRename src srcdir ∧ ∀ node ∈ dst, answers.mayUnlink node dstdir then
    match answers.write dstdir with
    | some error => (some error, [])
    | none =>
      match answers.rename srcdir srccomp dstdir dstcomp with
      | some error => (some error, [])
      | none => (none, if srcdir = dstdir ∧ srccomp = dstcomp then [] else dst.toList.map .release)
  else (some .eacces, [])

/-- The part of `vfs_rename` behind the lookup of the destination. -/
def replace (srcdir : Node) (srccomp : Name) (src dstdir : Node) (dstcomp : Name) (dst : Option Node) : Done Node :=
  let (error, names) := renamed answers srcdir srccomp src dstdir dstcomp dst
  ⟨error, [], names, (if dstcomp = dotdot then [.lock dstdir] else []) ++
    (if some src ≠ dst then [.lock src] else []) ++ names ++ (if some src ≠ dst then [.unlock src] else []) ++
    dst.toList.map .unlock ++ [.release src] ++ dst.toList.map .release⟩

/-- The part of `vfs_rename` behind the lookups of the directories. -/
def renameIn (srcdir : Node) (srccomp : Name) (dstdir : Node) (dstcomp : Name) : Done Node :=
  let entering := if srcdir ≠ dstdir then [.lock srcdir] else []
  let leaving := (if srcdir ≠ dstdir then [.unlock srcdir] else []) ++
    [.unlock dstdir, .release srcdir, .release dstdir]
  match vopLookup tree srcdir srccomp with
  | (.error error, found) => .fail error (entering ++ found ++ leaving)
  | (.ok src, found) =>
    let looking := entering ++ found ++ (if srccomp = dotdot then [.lock srcdir] else []) ++ [.unlock src]
    match vopLookup tree dstdir dstcomp with
    | (.error error, more) =>
      if error = .enoent then
        (replace answers srcdir srccomp src dstdir dstcomp none).within (looking ++ more) leaving
      else .fail error (looking ++ more ++ [.release src] ++ leaving)
    | (.ok dst, more) =>
      (replace answers srcdir srccomp src dstdir dstcomp (some dst)).within (looking ++ more) leaving

def vfsRename (srcref : Node) (srcpath : Name) (dstref : Node) (dstpath : Name) : Done Node :=
  if answers.memory then
    match first ⟨true, true⟩ srcref srcpath with
    | (.error error, log) => .fail error log
    | (.ok ⟨srcdir, srclast⟩, log) =>
      match second ⟨true, true⟩ dstref dstpath with
      | (.error error, more) => .fail error (log ++ [.unlock srcdir] ++ more ++ [.release srcdir])
      | (.ok ⟨dstdir, dstlast⟩, more) =>
        (renameIn tree answers srcdir (srclast.getD answers.buffer) dstdir (dstlast.getD answers.dstbuffer)).within
          (log ++ [.unlock srcdir] ++ more) []
  else .fail .enomem []

end Calls

/-- The calls with their nodes and paths. -/
inductive Call (Node : Type) where
  | openPath (ref : Node) (path : Name)
  | create (ref : Node) (path : Name) (dir wanted : Bool)
  | link (destref : Node) (destpath : Name) (linkref : Node) (linkpath : Name)
  | symlink (linkref : Node) (linkpath : Name)
  | unlink (ref : Node) (path : Name)
  | rename (srcref : Node) (srcpath : Name) (dstref : Node) (dstpath : Name)

def Call.run {Node : Type} [DecidableEq Node] (first second : Lookup Node) (tree : Tree Node) (answers : Answers Node) :
    Call Node → Done Node
  | .openPath ref path => vfsOpen first tree answers ref path
  | .create ref path dir wanted => vfsCreate first answers ref path dir wanted
  | .link destref destpath linkref linkpath => vfsLink first second answers destref destpath linkref linkpath
  | .symlink linkref linkpath => vfsSymlink second answers linkref linkpath
  | .unlink ref path => vfsUnlink first tree answers ref path
  | .rename srcref srcpath dstref dstpath => vfsRename first second tree answers srcref srcpath dstref dstpath

end Astral.Fs
