import Astral.Construction.Udp
import Astral.Proof.SocketRing

namespace Astral.Udp

open Library (Yields Reaches)
open Io

variable {frame : Frame} {peer : BitVec 32} {iterator : IovecIterator} {count offset : Nat} {rest output : List Byte}

theorem Dataheader.bytes_length (header : Dataheader) : header.bytes.length = Dataheader.size := rfl

def Datagram.header (datagram : Datagram) : Dataheader :=
  ⟨datagram.peer, datagram.srcport, BitVec.ofNat 16 datagram.payload.length⟩

/-- A datagram in the ring buffer. -/
def Datagram.record (datagram : Datagram) : List Byte := datagram.header.bytes ++ datagram.payload

/-- A datagram goes behind the others. -/
def Socket.store (socket : Socket) (datagram : Datagram) : Socket :=
  { socket with ring := socket.ring ++ datagram.record, accepted := socket.accepted ++ [datagram] }

/-- A call that asks for this many bytes has to return this. -/
def Datagram.delivery (datagram : Datagram) (count : Nat) : Delivery :=
  ⟨datagram.peer, datagram.srcport, datagram.payload.take count, min datagram.payload.length count⟩

/-- The number of datagrams that calls took. -/
def taken (finished : List Receipt) : Nat :=
  finished.countP fun receipt => !receipt.peek && receipt.outcome.toBool

/-- Every successful call returns the datagram behind those that the calls before it took. -/
def Socket.Returned (socket : Socket) : Prop :=
  ∀ before receipt after delivery, socket.finished = before ++ receipt :: after → receipt.outcome = .ok delivery →
    ∃ datagram, socket.accepted[taken before]? = some datagram ∧ delivery = datagram.delivery receipt.count

/-- A call has copied the first bytes of a datagram. -/
structure Call.Copies (call : Call) (datagram : Datagram) : Prop where
  header : call.header = datagram.header
  copycount : call.copycount = min datagram.payload.length call.count
  within : call.progress.done ≤ call.copycount
  output : call.progress.side.2 = datagram.payload.take call.progress.done
  ends : call.going = false → call.progress.done = call.copycount
  goes : call.going = true → call.progress.Ahead call.copycount

/-- The ring buffer holds the datagrams that were accepted and not taken. -/
structure Socket.Framed (socket : Socket) : Prop where
  port : socket.port ≠ 0
  short : ∀ datagram ∈ socket.accepted, datagram.payload.length + Dataheader.size < 2 ^ 16
  order : taken socket.finished ≤ socket.accepted.length
  ring : socket.ring = (socket.accepted.drop (taken socket.finished)).flatMap Datagram.record
  room : socket.ring.length ≤ socketBuffer
  returned : socket.Returned
  call : ∀ call, socket.call = some call →
    ∃ datagram, socket.accepted[taken socket.finished]? = some datagram ∧ call.Copies datagram

/-- The length of a datagram matches its payload, and the entries of a call have room for what it asks for. -/
def Proper : Event → Prop
  | .process frame _ => frame.length.toNat = frame.payload.length + Dataheader.size
  | .recv iterator count _ _ => iterator.Sound ∧ count ≤ iterator.left
  | _ => True

/-- No entry is empty or has half of the address space, and a copy starts within the free space. -/
def Clear (socket : Socket) : Event → Prop
  | .recv iterator _ _ _ =>
    iterator.left < 2 ^ 63 ∧ (∀ entry ∈ iterator.iovec, 0 < entry.len ∧ entry.len < 2 ^ 63) ∧
      ∀ entry, iterator.iovec[iterator.current]? = some entry → iterator.currentOffset < entry.len
  | .copy =>
    ∀ call, socket.call = some call → call.copycount = 0 ∨ Dataheader.size + call.progress.done ≤ freespace socket.ring
  | _ => True

variable {socket later : Socket} {datagram : Datagram} {call : Call}

theorem taken_append (before after : List Receipt) : taken (before ++ after) = taken before + taken after :=
  List.countP_append

section

variable (framed : socket.Framed)
include framed

/-- The ring buffer starts with the next datagram. -/
theorem Socket.Framed.front (found : socket.accepted[taken socket.finished]? = some datagram) :
    socket.ring = datagram.record ++ (socket.accepted.drop (taken socket.finished + 1)).flatMap Datagram.record := by
  obtain ⟨within, found⟩ := List.getElem?_eq_some_iff.mp found
  rw [framed.ring, List.drop_eq_getElem_cons within, found, List.flatMap_cons]

theorem Socket.Framed.next (some_bytes : socket.ring ≠ []) :
    ∃ datagram, socket.accepted[taken socket.finished]? = some datagram := by
  rcases Nat.lt_or_ge (taken socket.finished) socket.accepted.length with within | beyond
  · exact ⟨_, List.getElem?_eq_getElem within⟩
  · apply absurd framed.ring
    rw [List.drop_eq_nil_of_le beyond]
    exact some_bytes

omit framed in
/-- One more call returns. -/
theorem Socket.Returned.append (returned : socket.Returned) {receipt : Receipt}
    (finished : later.finished = socket.finished ++ [receipt]) (accepted : later.accepted = socket.accepted)
    (right : ∀ delivery, receipt.outcome = .ok delivery → ∃ datagram,
      socket.accepted[taken socket.finished]? = some datagram ∧ delivery = datagram.delivery receipt.count) :
    later.Returned := by
  intro before other after delivery split outcome
  rw [finished] at split
  rw [accepted]
  rcases List.eq_nil_or_concat after with rfl | ⟨middle, last, rfl⟩
  · obtain ⟨same, last_eq⟩ := List.append_inj' split rfl
    cases last_eq
    rw [← same]
    exact right delivery outcome
  · have split : socket.finished ++ [receipt] = (before ++ other :: middle) ++ [last] := by simpa using split
    obtain ⟨same, _⟩ := List.append_inj' split rfl
    exact returned before other middle delivery same outcome

/-- A call returns the next datagram or fails, and leaves the datagrams that are not taken. -/
theorem Socket.Framed.finish {ring : List Byte} {receipt : Receipt} {left : Nat}
    (counted : taken socket.finished + taken [receipt] = left) (order : left ≤ socket.accepted.length)
    (stays : ring = (socket.accepted.drop left).flatMap Datagram.record) (room : ring.length ≤ socketBuffer)
    (right : ∀ delivery, receipt.outcome = .ok delivery → ∃ datagram,
      socket.accepted[taken socket.finished]? = some datagram ∧ delivery = datagram.delivery receipt.count) :
    ({ socket with ring := ring }.finish receipt.peek receipt.count receipt.outcome).Framed := by
  have same : taken (socket.finished ++ [receipt]) = left := (taken_append ..).trans counted
  refine ⟨framed.port, framed.short, ?_, ?_, room, framed.returned.append rfl rfl right, nofun⟩
  · exact same.symm ▸ order
  · exact same.symm ▸ stays

omit framed in
theorem ringWrite_fits {ring buffer : List Byte} (fits : buffer.length ≤ freespace ring) :
    ringWrite ring buffer = (ring ++ buffer, buffer.length) := by
  rw [ringWrite, Nat.min_eq_left fits, List.take_length]

omit framed in
/-- A datagram that fits is stored with what its length says, which must be there, and another one is dropped. -/
theorem udpProcess_eq (socket : Socket) (frame : Frame) (peer : BitVec 32) :
    socket.udpProcess frame peer = if (frame.dstport = socket.port ∧ socket.port ≠ 0) ∧
        (frame.length - 8).toNat + Dataheader.size ≤ freespace socket.ring then
        if (frame.length - 8).toNat ≤ frame.payload.length then
          .ok (socket.store ⟨peer, frame.srcport, frame.payload.take (frame.length - 8).toNat⟩)
        else .error .overrun
      else .ok socket := by
  have free : freespace socket.ring = socketBuffer - socket.ring.length := rfl
  fun_cases Socket.udpProcess socket frame peer with
  | case1 other => rw [if_neg fun both => other.elim (· both.1.1) both.1.2]
  | case2 here header needed fits short =>
    rw [not_or, not_not] at here
    rw [if_pos ⟨here, fits⟩, if_neg short.not_ge]
  | case3 here header needed fits inside written filled outcome
  | case4 here header needed fits inside written filled outcome =>
    rw [not_or, not_not] at here
    have inside : header.length.toNat ≤ frame.payload.length := not_lt.mp inside
    have taken : (frame.payload.take header.length.toNat).length = header.length.toNat := List.length_take_of_le inside
    have same : Datagram.header ⟨peer, frame.srcport, frame.payload.take header.length.toNat⟩ = header := by
      rw [Datagram.header, taken, BitVec.ofNat_toNat, BitVec.setWidth_eq]
    have first : written = (socket.ring ++ header.bytes, Dataheader.size) :=
      ringWrite_fits (by rw [Dataheader.bytes_length]; omega)
    have second : filled =
        (socket.ring ++ header.bytes ++ frame.payload.take header.length.toNat, header.length.toNat) := by
      refine (congrArg (ringWrite ·.1 _) first).trans ((ringWrite_fits ?_).trans (by rw [taken]))
      rw [taken, freespace, List.length_append, Dataheader.bytes_length]
      omega
    first
    | exact absurd ⟨congrArg Prod.snd first, congrArg Prod.snd second⟩ outcome
    | rw [if_pos ⟨here, fits⟩, if_pos inside, second, List.append_assoc, Socket.store, Datagram.record, same]
  | case5 here header needed full => rw [if_neg fun both => full both.2]

end

/-- A bound socket holds these datagrams. -/
def filled (port : BitVec 16) (datagrams : List Datagram) : Socket :=
  ⟨port, datagrams.flatMap Datagram.record, none, datagrams, []⟩

/-- The datagram was taken. -/
def answered : Socket where
  port := 7
  ring := []
  call := none
  accepted := [⟨5, 2, [1, 1]⟩]
  finished := [⟨false, 4, .ok ⟨5, 2, [1, 1], 2⟩⟩]

section

variable {payload last : List Byte} (large : payload.length = 28992) (small : last.length = 1132)
include large small

end

/-- A packet is handled inside of its payload, and stored with its length if at all, exactly when the ports and the
length are there and, if there is room for as many bytes as the length says, these are there too. -/
theorem udp_confined_iff (socket : Socket) (netdev : Ipv4.Netdev) (packet : Ipv4.Frame) :
    (∃ next, socket.ipv4Process netdev packet = .ok next ∧ (next = socket ∨
      ∃ datagram : Datagram, next.ring = socket.ring ++ datagram.header.bytes ++ datagram.payload ∧
        datagram.header.length.toNat = datagram.payload.length)) ↔
      ∀ payload, Ipv4.ipv4Process netdev packet = some (ipv4ProtoUdp, payload) →
        ∃ frame, Frame.ofBytes (payload.map UInt8.toBitVec) = some frame ∧
          (frame.dstport = socket.port ∧ socket.port ≠ 0 →
            (frame.length - 8).toNat + Dataheader.size ≤ freespace socket.ring →
            (frame.length - 8).toNat ≤ frame.payload.length) := by
  fun_cases Socket.ipv4Process socket netdev packet with
  | case1 dropped => simp [dropped]
  | case2 payload given missing => simp [given, missing]
  | case3 payload frame found given =>
    simp only [given, found, Option.some.injEq, Prod.mk.injEq, true_and, forall_eq', exists_eq_left']
    rw [udpProcess_eq]
    split
    · next room =>
      split
      · next inside =>
        refine iff_of_true ⟨_, rfl, .inr ⟨_, (List.append_assoc ..).symm, ?_⟩⟩ fun _ _ => inside
        have taken : (frame.payload.take (frame.length - 8).toNat).length = (frame.length - 8).toNat :=
          List.length_take_of_le inside
        rw [Datagram.header, taken, BitVec.ofNat_toNat, BitVec.setWidth_eq]
      · next short => exact iff_of_false (by simp) fun all => short (all room.1 room.2)
    · next none => exact iff_of_true ⟨socket, rfl, .inl rfl⟩ fun here fits => absurd ⟨here, fits⟩ none
  | case4 protocol payload given other =>
    simp [given, other]

/-- The length says that one byte more follows than there is. -/
def overlong (netdev : Ipv4.Netdev) : Ipv4.Frame :=
  Ipv4.dispatchFragment netdev [0, 9, 0, 7, 0, 9, 0, 0] 0 0 netdev.ip ipv4ProtoUdp true

theorem overlong_overruns : ((bound 7).ipv4Process ⟨1500, 0x0a000001, 0, fun _ => none, fun _ => none⟩
    (overlong ⟨1500, 0x0a000001, 0, fun _ => none, fun _ => none⟩)).map (fun _ => ()) = .error .overrun := by
  decide +kernel

end Astral.Udp
