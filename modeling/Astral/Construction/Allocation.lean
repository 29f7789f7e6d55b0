/-
This file models the allocation of blocks and inodes in an ext2 file system.
-/

import Astral.Construction.Machine
import Astral.Library.Bitmap

namespace Astral.Ext2

open Function Astral.Library

abbrev Byte := BitVec 8

/-- A failed assertion stops the kernel. -/
inductive Panic where
  | assertion
  deriving DecidableEq

/-- The structures that are allocated, which the code tells apart by a flag. -/
inductive Kind where
  | block
  | inode
  deriving DecidableEq

/-- The layout that the superblock gives, in groups whose bitmaps are whole bytes. -/
structure Geometry where
  superblockstart : Nat
  blockspergroup : Nat
  inodespergroup : Nat
  blockcount : Nat
  inodecount : Nat
  bgcount : Nat
  blocks_positive : 0 < blockspergroup
  inodes_positive : 0 < inodespergroup
  blocks_bytes : blockspergroup % 8 = 0
  inodes_bytes : inodespergroup % 8 = 0
  blocks_bounded : blockspergroup < 2 ^ 16
  inodes_bounded : inodespergroup < 2 ^ 16
  blocks_grouped : blockcount ≤ superblockstart + bgcount * blockspergroup
  inodes_grouped : inodecount ≤ bgcount * inodespergroup
  blockcount_bounded : blockcount < 2 ^ 32
  inodecount_bounded : inodecount < 2 ^ 32

namespace Geometry

variable (geometry : Geometry)

def pergroup : Kind → Nat
  | .block => geometry.blockspergroup
  | .inode => geometry.inodespergroup

/-- The number of the first structure. -/
def first : Kind → Nat
  | .block => geometry.superblockstart
  | .inode => 1

/-- The number behind the last structure. -/
def limit : Kind → Nat
  | .block => geometry.blockcount
  | .inode => geometry.inodecount + 1

/-- The number of the first structure of a group. -/
def groupGet (kind : Kind) (bg : Nat) : Nat :=
  bg * geometry.pergroup kind + geometry.first kind

def getGroup (kind : Kind) (id : Nat) : Nat :=
  (id - geometry.first kind) / geometry.pergroup kind

def getIndex (kind : Kind) (id : Nat) : Nat :=
  (id - geometry.first kind) % geometry.pergroup kind

end Geometry

/-- The parts of a file system that allocation uses, in memory and on the disk. -/
structure Fs where
  geometry : Geometry
  /-- The counters of the superblock. -/
  unallocated : Kind → Nat
  unclean : Bool
  /-- The counters of the descriptor of each group. -/
  desc : Nat → Kind → Nat
  /-- The bitmap of each group. -/
  bitmap : Kind → Nat → List Byte
  lowestfree : Kind → Nat

namespace Fs

def writeBitmap (fs : Fs) (kind : Kind) (bg : Nat) (bm : List Byte) : Fs :=
  { fs with bitmap := update fs.bitmap kind (update (fs.bitmap kind) bg bm) }

def writeDesc (fs : Fs) (kind : Kind) (bg count : Nat) : Fs :=
  { fs with desc := update fs.desc bg (update (fs.desc bg) kind count) }

def setLowest (fs : Fs) (kind : Kind) (bg : Nat) : Fs :=
  { fs with lowestfree := update fs.lowestfree kind bg }

def setUnallocated (fs : Fs) (kind : Kind) (count : Nat) : Fs :=
  { fs with unallocated := update fs.unallocated kind count }

end Fs

/-- What the disk and the memory allocator answer in one call. -/
structure Io where
  memory : Bool
  readDesc : Nat → Option Errno
  readBitmap : Option Errno
  writeBitmap : Option Errno
  writeDesc : Option Errno
  syncSuperblock : Option Errno

/-- No input or output fails. -/
def Io.working : Io := ⟨true, fun _ => none, none, none, none, none⟩

/-- A failed write marks the file system as unclean. -/
def Fs.assertUnclean (fs : Fs) (error : Option Errno) : Fs :=
  if error = none then fs else { fs with unclean := true }

/-- The number of zero bits below the lowest set bit. -/
def ctz (value : Byte) : Nat :=
  ((List.range 8).find? fun offset => value.getLsbD offset).getD 8

/-- The byte and the offset of the first clear bit. -/
def findClear : List Byte → Option (Nat × Nat)
  | [] => none
  | byte :: rest =>
    if ~~~byte ≠ 0 then some (0, ctz (~~~byte)) else (findClear rest).map fun found => (found.1 + 1, found.2)

/-- Go through the groups until one has a free structure. -/
def searchGroup (io : Io) (fs : Fs) (kind : Kind) : (remaining bg : Nat) → Except Errno Nat
  | 0, bg => .ok bg
  | remaining + 1, bg =>
    match io.readDesc bg with
    | some error => .error error
    | none => if fs.desc bg kind ≠ 0 then .ok bg else searchGroup io fs kind remaining (bg + 1)

/-- Take a structure from the group and count it. -/
def takeFrom (io : Io) (kind : Kind) (bg : Nat) (fs : Fs) : Except Panic (Except Errno Nat × Fs) :=
  if !io.memory then .ok (.error .enomem, fs)
  else
    match io.readBitmap with
    | some error => .ok (.error error, fs)
    | none =>
      match findClear (fs.bitmap kind bg) with
      | none => .error .assertion
      | some (i, offset) =>
        let structurefound := fs.geometry.groupGet kind bg + i * 8 + offset
        if structurefound = 0 then .error .assertion
        else
          match io.writeBitmap with
          | some error => .ok (.error error, fs)
          | none =>
            let fs := fs.writeBitmap kind bg (setBit (fs.bitmap kind bg) i offset)
            let count := (fs.desc bg kind + 2 ^ 16 - 1) % 2 ^ 16
            match io.writeDesc with
            | some error => .ok (.error error, fs.assertUnclean (some error))
            | none =>
              let fs := fs.writeDesc kind bg count
              let fs := if count = 0 then fs.setLowest kind (fs.lowestfree kind + 1) else fs
              let fs := fs.setUnallocated kind ((fs.unallocated kind + 2 ^ 32 - 1) % 2 ^ 32)
              .ok (match io.syncSuperblock with
                | some error => .error error
                | none => .ok structurefound, fs.assertUnclean io.syncSuperblock)

def allocatestructure (io : Io) (kind : Kind) (fs : Fs) : Except Panic (Except Errno Nat × Fs) :=
  if fs.unallocated kind = 0 then .ok (.error .enospc, fs)
  else
    let lowest := fs.lowestfree kind
    match searchGroup io fs kind (fs.geometry.bgcount - lowest) lowest with
    | .error error => .ok (.error error, fs)
    | .ok bg =>
      let fs := fs.setLowest kind bg
      if bg = fs.geometry.bgcount then .ok (.error .enospc, fs) else takeFrom io kind bg fs

def freestructure (io : Io) (kind : Kind) (id : Nat) (fs : Fs) : Except Panic (Option Errno × Fs) :=
  let bg := fs.geometry.getGroup kind id
  let index := fs.geometry.getIndex kind id
  match io.readDesc bg with
  | some error => .ok (some error, fs)
  | none =>
    if !io.memory then .ok (some .enomem, fs)
    else
      match io.readBitmap with
      | some error => .ok (some error, fs)
      | none =>
        if !bit (fs.bitmap kind bg) index then .error .assertion
        else
          match io.writeBitmap with
          | some error => .ok (some error, fs)
          | none =>
            let fs := fs.writeBitmap kind bg (clearBit (fs.bitmap kind bg) (index / 8) (index % 8))
            match io.writeDesc with
            | some error => .ok (some error, fs)
            | none =>
              let fs := fs.writeDesc kind bg ((fs.desc bg kind + 1) % 2 ^ 16)
              let fs := if bg < fs.lowestfree kind then fs.setLowest kind bg else fs
              .ok (io.syncSuperblock, fs.setUnallocated kind ((fs.unallocated kind + 1) % 2 ^ 32))

/-- The two operations on the structures of a file system. -/
inductive Op where
  | allocate (kind : Kind)
  | free (kind : Kind) (id : Nat)

/-- One operation while no input or output fails. -/
def Fs.step (fs : Fs) : Op → Except Panic Fs
  | .allocate kind => (allocatestructure .working kind fs).map Prod.snd
  | .free kind id => (freestructure .working kind id fs).map Prod.snd

end Astral.Ext2
