/-
This file models how a received packet is checked and handed to a worker.
-/

import Astral.Construction.Tcp

namespace Astral.Net.Input

def workerBufferSize : Nat := 64 * 1024

def workerInternalBufferSize : Nat := 2048

def workerRetries : Nat := 12

/-- The number of bytes of the task type and of the pseudo header before a packet. -/
def taskSize : Nat := 4

def pseudoheaderSize : Nat := 12

/-- The conversion between the byte orders of the network and of the machine. -/
def swap (word : Nat) : Nat := word % 256 * 256 + word / 256

structure Pseudoheader where
  source : Nat
  dest : Nat
  protocol : Nat
  /-- The length in the byte order of the network. -/
  length : Nat

def Pseudoheader.words (pseudo : Pseudoheader) : List Nat :=
  [pseudo.source / 65536, pseudo.source % 65536, pseudo.dest / 65536, pseudo.dest % 65536, pseudo.protocol,
    swap pseudo.length]

def byteAt (buffer : List UInt8) (place : Nat) : Except Fault Nat :=
  match buffer[place]? with
  | none => .error .outside
  | some byte => .ok byte.toNat

def addWords (buffer : List UInt8) : Nat → Nat → Nat → Except Fault Nat
  | 0, _, sum => .ok sum
  | count + 1, place, sum => do
      let high ← byteAt buffer place
      let low ← byteAt buffer (place + 1)
      addWords buffer count (place + 2) (sum + (high * 256 + low))

def addLast (buffer : List UInt8) (datalen place sum : Nat) : Except Fault Nat := do
  if datalen % 2 = 0 then .ok sum
  else
    let last ← byteAt buffer place
    .ok (sum + last * 256)

/-- The carries of the sum are added to it. -/
def folded (sum : Nat) : Nat :=
  let sum := sum / 65536 + sum % 65536
  (sum + sum / 65536) % 65536

/-- The sum has no more words than a packet and does not wrap. -/
def checksum (pseudo : Pseudoheader) (buffer : List UInt8) : Except Fault Nat := do
  let dataoffset ← byteAt buffer 12
  let headerlen := dataoffset / 16 * 4
  let datalen := (2 ^ 64 + swap pseudo.length - headerlen) % 2 ^ 64
  let sum ← addWords buffer (headerlen / 2) 0 pseudo.words.sum
  let sum ← addWords buffer (datalen / 2) headerlen sum
  let sum ← addLast buffer datalen (headerlen + datalen / 2 * 2) sum
  .ok (65535 - folded sum)

/-- The buffers of the workers are seen with the number of bytes that they hold at each attempt. -/
def getworker (packetlen : Nat) (attempts : List Nat) : Option Nat :=
  (attempts.take workerRetries).find? fun filled => taskSize + (packetlen + pseudoheaderSize) ≤ workerBufferSize - filled

def ringbufferWrite (filled count : Nat) : Except Fault Nat :=
  if min count (workerBufferSize - filled) = count then .ok (filled + count) else .error .assertion

structure Received where
  source : Nat
  dest : Nat
  protocol : Nat
  payload : List UInt8
  /-- The total length of a packet is a word. -/
  fits : payload.length + 20 < 65536

def Received.pseudo (packet : Received) : Pseudoheader where
  source := packet.source
  dest := packet.dest
  protocol := packet.protocol
  length := swap packet.payload.length

/-- A packet of a length is written behind its task type and its pseudo header. -/
def writeTask (filled length : Nat) : Except Fault (Option Nat) := do
  let filled ← ringbufferWrite filled taskSize
  let filled ← ringbufferWrite filled pseudoheaderSize
  let filled ← ringbufferWrite filled length
  .ok (some filled)

/-- A packet is dropped or put into the buffer of a worker, whose number of bytes is given. -/
def tcpProcess (packet : Received) (attempts : List Nat) : Except Fault (Option Nat) := do
  let pseudo := packet.pseudo
  let sum ← checksum pseudo packet.payload
  if sum ≠ 0 then .ok none
  else if swap pseudo.length > workerInternalBufferSize then .ok none
  else
    match getworker pseudo.length attempts with
    | none => .ok none
    | some filled => writeTask filled (swap pseudo.length)

/-- The bytes of a word in the order of the network. -/
def cpuToBeW (word : Nat) : List UInt8 := [.ofNat (word / 256), .ofNat word]

def cpuToBeD (word : Nat) : List UInt8 := cpuToBeW (word / 65536) ++ cpuToBeW word

def network (header : Tcpheader) (checksum : Nat) : List UInt8 :=
  cpuToBeW header.srcport ++ cpuToBeW header.dstport ++ cpuToBeD header.seq.toNat ++ cpuToBeD header.ack.toNat ++
    [.ofNat header.dataoffset, .ofNat header.control.toNat] ++ cpuToBeW header.window ++ cpuToBeW checksum ++
    cpuToBeW header.urgentptr

def pseudoheader (self peer : UInt32) (buffersize : Nat) : Pseudoheader where
  source := self.toNat
  dest := peer.toNat
  protocol := 6
  length := swap buffersize

/-- The bytes that are given to the next layer. The options and the data stand behind the header. -/
def tcpSendpacket (header : Tcpheader) (behind : List UInt8) (peer self : UInt32) : Except Fault (List UInt8) := do
  let buffer := network header 0 ++ behind
  let sum ← checksum (pseudoheader self peer buffer.length) buffer
  .ok (network header sum ++ behind)

end Astral.Net.Input
