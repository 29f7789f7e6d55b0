/-
This file models how IPv4 packets are cut into fragments and which frames are accepted.
-/

import Astral.Construction.Machine

namespace Astral.Ipv4

/-- The fields of a frame in the byte order of the machine, and its payload. -/
structure Frame where
  versionLength : Nat
  servicetypeEcn : Nat
  packetlen : Nat
  id : Nat
  flagsFragoffset : Nat
  timetolive : Nat
  protocol : Nat
  framechecksum : Nat
  srcaddr : UInt32
  dstaddr : UInt32
  payload : List UInt8
  deriving DecidableEq

/-- The size of the header. -/
def frameSize : Nat := 20

def broadcastAddress : UInt32 := 0xffffffff

def versionLength (version length : Nat) : Nat := version <<< 4 ||| length

def flagMf : Nat := 1

/-- The offset has to be a multiple of 8. -/
def flagsFragoffset (flags offset : Nat) : Nat := flags <<< 13 ||| offset >>> 3

def getFlags (value : Nat) : Nat := value >>> 13 &&& 0x7

def getFragoffset (value : Nat) : Nat := value &&& 0x1fff

/-- The header as words of 16 bits. -/
def Frame.words (frame : Frame) : List Nat :=
  [frame.versionLength * 256 + frame.servicetypeEcn, frame.packetlen, frame.id, frame.flagsFragoffset,
    frame.timetolive * 256 + frame.protocol, frame.framechecksum, frame.srcaddr.toNat / 2 ^ 16,
    frame.srcaddr.toNat % 2 ^ 16, frame.dstaddr.toNat / 2 ^ 16, frame.dstaddr.toNat % 2 ^ 16]

def checksum (words : List Nat) : Nat :=
  let sum := words.sum
  let sum := sum / 2 ^ 16 + sum % 2 ^ 16
  let sum := sum + sum / 2 ^ 16
  2 ^ 16 - 1 - sum % 2 ^ 16

/-- What sending needs of a device. Each fragment may be refused before or while it is sent. -/
structure Netdev where
  mtu : Nat
  ip : UInt32
  ipcurrid : Nat
  allocdesc : (fragment : Nat) → Option Nat
  sendpacket : (fragment : Nat) → Option Nat

def dispatchFragment (netdev : Netdev) (payload : List UInt8) (fragmentoffset : Nat) (id : Nat) (ip : UInt32)
    (proto : Nat) (last : Bool) : Frame :=
  let frame : Frame := {
    versionLength := versionLength 4 5
    servicetypeEcn := 0
    packetlen := (payload.length + frameSize) % 2 ^ 16
    id := id % 2 ^ 16
    flagsFragoffset := flagsFragoffset (if last then 0 else flagMf) fragmentoffset % 2 ^ 16
    timetolive := 0xff
    protocol := proto % 2 ^ 8
    framechecksum := 0
    srcaddr := netdev.ip
    dstaddr := ip
    payload }
  { frame with framechecksum := checksum frame.words }

/-- A frame that passes is handed on with its protocol. -/
def ipv4Process (netdev : Netdev) (frame : Frame) : Option (Nat × List UInt8) :=
  if checksum frame.words ≠ 0 then none
  else if frame.versionLength ≠ versionLength 4 5 then none
  else if getFlags frame.flagsFragoffset &&& flagMf ≠ 0 ∨ getFragoffset frame.flagsFragoffset > 0 then none
  else if frame.dstaddr ≠ broadcastAddress ∧ frame.dstaddr ≠ netdev.ip then none
  else some (frame.protocol, frame.payload)

/-- The number of payload bytes in each fragment but the last. -/
def devfragmentsize (netdev : Netdev) : Nat :=
  let mtuheader := subWord netdev.mtu frameSize
  mtuheader - mtuheader % 8

/-- Send the fragments from one index on. The result has the frames that were sent and an error. -/
def sendFragments (netdev : Netdev) (buffer : List UInt8) (ip : UInt32) (proto fragmentcount : Nat) :
    (remaining i : Nat) → List Frame × Option Errno
  | 0, _ => ([], none)
  | remaining + 1, i =>
    let unit := devfragmentsize netdev
    let last : Bool := i = fragmentcount - 1
    let fragmentlen := if last then buffer.length - unit * (fragmentcount - 1) else unit
    match netdev.allocdesc i with
    | some error => ([], some (.given error))
    | none =>
      let payload := (buffer.drop (i * unit)).take fragmentlen
      let frame := dispatchFragment netdev payload (i * unit) netdev.ipcurrid ip proto last
      match netdev.sendpacket i with
      | some error => ([], some (.given error))
      | none =>
        let (frames, error) := sendFragments netdev buffer ip proto fragmentcount remaining (i + 1)
        (frame :: frames, error)

/-- The device is the one of the route to the address. -/
def ipv4Sendpacket (route : Option Netdev) (buffer : List UInt8) (ip : UInt32) (proto : Nat) :
    List Frame × Option Errno :=
  if buffer.length + frameSize > 65535 then ([], some .emsgsize)
  else
    match route with
    | none => ([], some .enetunreach)
    | some netdev =>
      let fragmentcount := buffer.length / devfragmentsize netdev + 1
      sendFragments netdev buffer ip proto fragmentcount fragmentcount 0

end Astral.Ipv4
