/-
This file models the search for the maximum segment size in the options of a received segment, and the sizes of the
segments that follow.
-/

import Astral.Construction.Tcp

namespace Astral.Net.Options

def tcpDefaultMss : Nat := 536

def optionsMssKind : UInt8 := 2

def optionsMssLen : UInt8 := 4

/-- The bytes that follow the fixed header, of the segment and of what lies behind it in memory. -/
abbrev Bytes := Nat → UInt8

def Bytes.word (options : Bytes) (place : Nat) : Nat :=
  (options place).toNat * 256 + (options (place + 1)).toNat

def Bytes.length (options : Bytes) (place : Nat) : Nat := (options (place + 1)).toNat

/-- The loop with the places that it reads, whose bound never changes. -/
def readOptions (options : Bytes) : Nat → Nat → Option (List Nat × Nat)
  | 0, _ => none
  | fuel + 1, place =>
    if options place = 0 then some ([place], tcpDefaultMss)
    else if options place = 1 then
      (readOptions options fuel (place + 1)).map fun rest => (place :: rest.1, rest.2)
    else if options place = optionsMssKind then
      some ([place, place + 2, place + 3], options.word (place + 2))
    else
      (readOptions options fuel (place + options.length place)).map fun rest =>
        (place :: (place + 1) :: rest.1, rest.2)

def getsendmss (dataoffset : UInt8) (options : Bytes) (fuel sndmss : Nat) : Option (List Nat × Nat) :=
  if ((dataoffset.toNat : Int) - 4) * 4 = 0 then some ([], min sndmss tcpDefaultMss)
  else (readOptions options fuel 0).map fun found => (found.1, min sndmss found.2)

/-- The ways in which a block is created before it is connected. -/
inductive Opening where
  | connect
  | bindConnect
  | passive
  deriving DecidableEq

/-- The size of the retransmit buffer. A listening socket has the MTU of the route in 32 bits. -/
def Opening.retransmitsize (opening : Opening) (mtu : Nat) : Nat :=
  match opening with
  | .connect => mtu
  | .bindConnect => 1
  | .passive => mtu % 2 ^ 32

/-- The MTU is the limit that `getsendmss` starts with. -/
def sendmss (mtu : Nat) (newsendmss : UInt16) : Nat := min (mtu % 2 ^ 32) newsendmss.toNat

end Astral.Net.Options
