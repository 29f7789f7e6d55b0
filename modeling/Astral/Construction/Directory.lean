/-
This file models the entries of an ext2 directory as bytes, and how they are searched, inserted and removed.
-/

import Astral.Construction.Allocation

namespace Astral.Ext2

open Astral.Library

abbrev Bytes := Nat → Byte

abbrev FileName := List Byte

/-- The contents of a directory, whose size the inode keeps in 32 bits. -/
structure Directory where
  logblock : Nat
  size : Nat
  data : Bytes

def Directory.blocksize (directory : Directory) : Nat := 1024 * 2 ^ directory.logblock

def dentHeader : Nat := 8

variable (data : Bytes)

def dentInode (offset : Nat) : Nat :=
  (data offset).toNat + 2 ^ 8 * (data (offset + 1)).toNat + 2 ^ 16 * (data (offset + 2)).toNat +
    2 ^ 24 * (data (offset + 3)).toNat

def dentSize (offset : Nat) : Nat :=
  (data (offset + 4)).toNat + 2 ^ 8 * (data (offset + 5)).toNat

def dentNamelen (offset : Nat) : Nat := (data (offset + 6)).toNat

def dentType (offset : Nat) : Byte := data (offset + 7)

def dentName (offset : Nat) : FileName :=
  List.ofFn fun index : Fin (dentNamelen data offset) => data (offset + dentHeader + index)

/-- The size that an entry with a name of this length needs. -/
def entlen (namelen : Nat) : Nat :=
  (dentHeader + namelen + 3) - (dentHeader + namelen + 3) % 4

/-- Copy bytes from the start of a source to an offset. -/
def copyTo (offset count : Nat) (source : Bytes) : Bytes := fun place =>
  if offset ≤ place ∧ place < offset + count then source (place - offset) else data place

/-- Write a range of a buffer back to the same place. -/
def writeBack (data buffer : Bytes) (offset count : Nat) : Bytes := fun place =>
  if offset ≤ place ∧ place < offset + count then buffer place else data place

def setInode (offset inode : Nat) : Bytes :=
  copyTo data offset 4 fun place => BitVec.ofNat 8 (inode / 2 ^ (8 * place))

def setSize (offset size : Nat) : Bytes :=
  copyTo data (offset + 4) 2 fun place => BitVec.ofNat 8 (size / 2 ^ (8 * place))

def setByte (offset : Nat) (value : Byte) : Bytes :=
  copyTo data offset 1 fun _ => value

/-- The bytes of a new entry, whose padding is what the allocator left there. -/
def dentBuffer (inode size : Nat) (type : Byte) (name : FileName) (garbage : Bytes) : Bytes :=
  copyTo (setByte (setByte (setSize (setInode garbage 0 inode) 0 size) 6 (BitVec.ofNat 8 name.length)) 7 type)
    dentHeader name.length fun place => name.getD place 0

/-- What memory and disk answer in one call. -/
structure DirIo where
  memory : Bool
  mapped : Bool
  read : Option Errno
  write : Option Errno

def DirIo.working : DirIo := ⟨true, true, none, none⟩

/-- Go through the entries until one is wanted, and remember the size of the entry before it. -/
def scan (data : Bytes) (size : Nat) (wanted : Nat → Bool) : (fuel offset lastsize : Nat) → Except Panic (Nat × Nat)
  | 0, offset, lastsize => .ok (offset, lastsize)
  | fuel + 1, offset, lastsize =>
    if offset < size then
      if wanted offset then .ok (offset, lastsize)
      else if dentSize data offset = 0 then .error .assertion
      else scan data size wanted fuel (offset + dentSize data offset) (dentSize data offset)
    else .ok (offset, lastsize)

/-- Whether the entry at the offset is in use under the name. -/
def named (name : FileName) (offset : Nat) : Bool :=
  name.length = dentNamelen data offset && dentInode data offset ≠ 0 && name = dentName data offset

/-- The size of an entry without what is behind its name. -/
def truesize (offset : Nat) : Nat :=
  if dentInode data offset = 0 then 0 else entlen (dentNamelen data offset)

def findindir (io : DirIo) (directory : Directory) (name : FileName) (switchnode : Option (Nat × Byte)) :
    Except Panic (Except Errno Nat × Directory) :=
  if !io.mapped then .ok (.error .enomem, directory)
  else
    match io.read with
    | some error => .ok (.error error, directory)
    | none => do
        let (offset, _) ← scan directory.data directory.size (named directory.data name) directory.size 0 0
        if offset < directory.size then
          let inode := dentInode directory.data offset
          match switchnode with
          | none => pure (.ok inode, directory)
          | some (id, type) =>
            let buffer := setByte (setInode directory.data offset id) (offset + 7) type
            match io.write with
            | some error => pure (.error error, directory)
            | none =>
              pure (.ok inode,
                { directory with data := writeBack directory.data buffer offset (dentSize buffer offset) })
        else pure (.error .enoent, directory)

/-- What is behind the name of an entry, in words of 64 bits. -/
def freesize (offset : Nat) : Nat :=
  (dentSize data offset + 2 ^ 64 - truesize data offset) % 2 ^ 64

/-- Whether the entry at the offset has room behind its name. -/
def roomy (needed offset : Nat) : Bool := needed ≤ freesize data offset

/-- A grown directory has a new block, with the bytes that the disk had there. -/
def Directory.grow (directory : Directory) (stale : Bytes) : Directory :=
  { directory with
    size := (directory.size + directory.blocksize) % 2 ^ 32
    data := copyTo directory.data directory.size directory.blocksize stale }

/-- `resized` is the error of `resizeinode` or the old contents of the block that it adds. -/
def insertdent (io : DirIo) (resized : Except Errno Bytes) (garbage : Bytes) (directory : Directory) (name : FileName)
    (inode : Nat) (type : Byte) : Except Panic (Option Errno × Directory) :=
  if !io.memory then .ok (some .enomem, directory)
  else if !io.mapped then .ok (some .enomem, directory)
  else
    match io.read with
    | some error => .ok (some error, directory)
    | none => do
        let needed := entlen name.length
        let (offset, _) ← scan directory.data directory.size (roomy directory.data needed) directory.size 0 0
        if offset ≥ directory.size then
          match resized with
          | .error error => pure (some error, directory)
          | .ok stale =>
            let grown := directory.grow stale
            -- The write asserts that its block is inside the size that the inode has now.
            if directory.size / grown.blocksize ≥ (grown.size + grown.blocksize - 1) / grown.blocksize then
              .error .assertion
            else
              match io.write with
              | some error => pure (some error, grown)
              | none =>
                let dent := dentBuffer inode directory.blocksize type name garbage
                pure (none, { grown with data := copyTo grown.data directory.size needed dent })
        else
          let size := dentSize directory.data offset
          let used := truesize directory.data offset
          let dent := dentBuffer inode (freesize directory.data offset) type name garbage
          let buffer := copyTo (setSize directory.data offset used) (offset + used) needed dent
          match io.write with
          | some error => pure (some error, directory)
          | none => pure (none, { directory with data := writeBack directory.data buffer offset size })

def removedent (io : DirIo) (directory : Directory) (name : FileName) : Except Panic (Except Errno Nat × Directory) :=
  if !io.mapped then .ok (.error .enomem, directory)
  else
    match io.read with
    | some error => .ok (.error error, directory)
    | none => do
        let (offset, lastsize) ← scan directory.data directory.size (named directory.data name) directory.size 0 0
        if offset < directory.size then
          let inode := dentInode directory.data offset
          let last := offset - lastsize
          match io.write with
          | some error => pure (.error error, directory)
          | none =>
            if offset % directory.blocksize ≠ 0 then
              let size := dentSize directory.data last + dentSize directory.data offset
              let buffer := setSize directory.data last size
              pure (.ok inode,
                { directory with data := writeBack directory.data buffer last (dentSize buffer last) })
            else
              let buffer := setByte (setInode directory.data offset 0) (offset + dentHeader) 0
              pure (.ok inode,
                { directory with data := writeBack directory.data buffer offset (dentSize buffer offset) })
        else pure (.error .enoent, directory)

end Astral.Ext2
