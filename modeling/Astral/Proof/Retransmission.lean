import Astral.Proof.Connection

namespace Astral.Net

open Io (Byte)
open Library

variable {done flight : List Byte} {tcb : Tcb}

/-- These bytes have left the ring. -/
def Connection.sentBytes (connection : Connection) : List Byte :=
  connection.accepted.take (connection.accepted.length - connection.tcb.transmitbuffer.length)

/-- This many sequence numbers are not acknowledged. -/
def Tcb.inFlight (tcb : Tcb) : Nat := (tcb.sndnext - tcb.sndunack).toNat

/-- The frame carries the byte at the sequence number. -/
def Frame.Carries (frame : Frame) (seq : Seq) (byte : Byte) : Prop :=
  ∃ index, frame.payload[index]? = some byte ∧ frame.header.seq + BitVec.ofNat 32 index = seq

/-- Every accepted byte is in the ring, in the frame that would be sent again, or acknowledged. -/
structure Covered (connection : Connection) : Prop where
  queued : connection.accepted = connection.sentBytes ++ connection.tcb.transmitbuffer
  kept : ∀ index byte, connection.sentBytes[index]? = some byte →
    connection.sentBytes.length ≤ index + connection.tcb.inFlight →
      connection.tcb.retransmitFrame.Carries (connection.tcb.iss + 1 + BitVec.ofNat 32 index) byte

/-- In these states accepted data may still be on its way. -/
def TcbState.Transfers : TcbState → Prop
  | .estabilished | .closewait | .finwait1 | .closing | .lastack => True
  | _ => False

/-- A connection is not closed while its last segment is in flight. -/
def SparesFlight (connection : Connection) : TcbEvent → Prop
  | .close => connection.tcb.state = .estabilished ∨ connection.tcb.state = .closewait →
      connection.tcb.transmitbuffer = [] → connection.tcb.sndunack = connection.tcb.sndnext
  | _ => True

/-- All accepted bytes are acknowledged. -/
structure Resting (tcb : Tcb) (accepted : List Byte) : Prop where
  ring : tcb.transmitbuffer = []
  level : tcb.sndnext = tcb.sndunack
  place : tcb.sndnext = tcb.iss + 1 + BitVec.ofNat 32 accepted.length

/-- One segment is in flight. -/
structure Flying (tcb : Tcb) (accepted done flight : List Byte) : Prop where
  split : accepted = done ++ flight ++ tcb.transmitbuffer
  short : flight.length ≤ tcbRingbufferSize
  start : tcb.sndunack = tcb.iss + 1 + BitVec.ofNat 32 done.length
  next : tcb.sndnext = tcb.sndunack + BitVec.ofNat 32 flight.length
  seq : tcb.retransmitheader.seq = tcb.sndunack
  payload : tcb.retransmitFrame.payload = flight

/-- Data flows while the connection is open on our side. -/
def Flows (tcb : Tcb) (accepted : List Byte) : Prop :=
  Resting tcb accepted ∨ ∃ done flight, flight ≠ [] ∧ Flying tcb accepted done flight

/-- What is sent and what is accepted agree in every state. -/
def Sending (tcb : Tcb) (accepted : List Byte) : Prop :=
  tcb.transmitbuffer.length ≤ tcbRingbufferSize ∧
    match tcb.state with
    | .synsent | .synreceived =>
      accepted = [] ∧ tcb.transmitbuffer = [] ∧ tcb.sndunack = tcb.iss ∧ tcb.sndnext = tcb.iss + 1
    | .estabilished | .closewait => Flows tcb accepted
    | .finwait1 | .closing | .lastack =>
      tcb.transmitbuffer = [] ∧ (tcb.sndnext = tcb.sndunack ∨ accepted = [])
    | .finwait2 => tcb.transmitbuffer = []
    | .abort | .closed | .listen | .timewait => True

section Cover

variable {connection : Connection}

theorem sentBytes_empty (ring : connection.tcb.transmitbuffer = []) : connection.sentBytes = connection.accepted := by
  rw [Connection.sentBytes, ring]
  simp

/-- Nothing in flight and nothing in the ring leaves nothing to cover. -/
theorem covered_idle (ring : connection.tcb.transmitbuffer = [])
    (idle : connection.tcb.sndnext = connection.tcb.sndunack ∨ connection.accepted = []) : Covered connection := by
  constructor
  · rw [sentBytes_empty ring, ring, List.append_nil]
  · intro index byte found recent
    rw [sentBytes_empty ring] at found recent
    obtain ⟨inside, _⟩ := List.getElem?_eq_some_iff.mp found
    rcases idle with level | empty
    · rw [Tcb.inFlight, level, BitVec.sub_self] at recent
      simp only [BitVec.toNat_zero] at recent
      omega
    · rw [empty] at inside
      exact absurd inside (Nat.not_lt_zero _)

/-- A segment in flight is the one that would be sent again. -/
theorem covered_flying (flying : Flying connection.tcb connection.accepted done flight) : Covered connection := by
  have sent : connection.sentBytes = done ++ flight := by
    rw [Connection.sentBytes, flying.split, List.length_append, Nat.add_sub_cancel, List.take_left']
    rfl
  have count : connection.tcb.inFlight = flight.length := by
    have short := flying.short
    have limit : tcbRingbufferSize = 65535 := rfl
    rw [Tcb.inFlight, flying.next]
    simp only [BitVec.toNat_sub, BitVec.toNat_add, BitVec.toNat_ofNat]
    omega
  constructor
  · rw [sent, flying.split]
  · intro index byte found recent
    rw [sent] at found recent
    rw [count, List.length_append] at recent
    rw [List.getElem?_append_right (by omega)] at found
    refine ⟨index - done.length, by rw [flying.payload, found], ?_⟩
    change connection.tcb.retransmitheader.seq + _ = _
    rw [flying.seq, flying.start, BitVec.add_assoc _ _ (BitVec.ofNat 32 (index - done.length)), ← BitVec.ofNat_add,
      Nat.add_sub_cancel' (by omega)]

theorem Sending.covered (sending : Sending connection.tcb connection.accepted)
    (state : connection.tcb.state.Transfers) : Covered connection := by
  unfold Sending at sending
  cases which : connection.tcb.state with
  | estabilished | closewait =>
    rw [which] at sending
    rcases sending.2 with resting | ⟨done, flight, _, flying⟩
    · exact covered_idle resting.ring (.inl resting.level)
    · exact covered_flying flying
  | finwait1 | closing | lastack =>
    rw [which] at sending
    exact covered_idle sending.2.1 sending.2.2
  | abort | closed | listen | synsent | synreceived | finwait2 | timewait =>
    rw [which] at state
    exact absurd state id

end Cover

section Keep

variable {accepted : List Byte} {before after : Endpoint} {packet : Packet} {around : Surroundings}

theorem Resting.same {before after : Tcb} (resting : Resting before accepted) (same : SameSend before after) :
    Resting after accepted := by
  constructor
  · rw [same.transmitbuffer, resting.ring]
  · rw [same.sndnext, same.sndunack, resting.level]
  · rw [same.sndnext, same.iss, resting.place]

theorem Flying.same {before after : Tcb} (flying : Flying before accepted done flight) (same : SameSend before after) :
    Flying after accepted done flight := by
  constructor
  · rw [same.transmitbuffer, flying.split]
  · exact flying.short
  · rw [same.sndunack, same.iss, flying.start]
  · rw [same.sndnext, same.sndunack, flying.next]
  · rw [same.header, same.sndunack, flying.seq]
  · rw [same.frame, flying.payload]

theorem Flows.same {before after : Tcb} (flows : Flows before accepted) (same : SameSend before after) :
    Flows after accepted := by
  rcases flows with resting | ⟨done, flight, some, flying⟩
  · exact .inl (resting.same same)
  · exact .inr ⟨done, flight, some, flying.same same⟩

theorem Sending.same {before after : Tcb} (sending : Sending before accepted) (same : SameSend before after)
    (state : after.state = before.state) : Sending after accepted := by
  unfold Sending at *
  rw [state, same.transmitbuffer, same.sndnext, same.sndunack, same.iss]
  refine ⟨sending.1, ?_⟩
  cases which : before.state with
  | estabilished | closewait =>
    rw [which] at sending
    exact Flows.same sending.2 same
  | abort | closed | listen | synsent | synreceived | finwait1 | finwait2 | closing | lastack | timewait =>
    rw [which] at sending
    exact sending.2

theorem Flows.sending (flows : Flows tcb accepted) (bound : tcb.transmitbuffer.length ≤ tcbRingbufferSize)
    (state : tcb.state = .estabilished ∨ tcb.state = .closewait) : Sending tcb accepted := by
  refine ⟨bound, ?_⟩
  rcases state with state | state
  all_goals
    rw [state]
    exact flows

/-- A side that has closed has nothing left to send. -/
theorem sending_ended (ring : tcb.transmitbuffer = []) (idle : tcb.sndnext = tcb.sndunack ∨ accepted = [])
    (state : tcb.state = .finwait1 ∨ tcb.state = .finwait2 ∨ tcb.state = .closing ∨ tcb.state = .lastack ∨
      tcb.state = .timewait) : Sending tcb accepted := by
  refine ⟨by rw [ring]; exact Nat.zero_le _, ?_⟩
  rcases state with state | state | state | state | state
  all_goals simp [state, ring, idle]

/-- The block is ready for an acknowledgement of all that it sent. -/
def Acking (tcb : Tcb) (accepted : List Byte) : Prop :=
  tcb.transmitbuffer.length ≤ tcbRingbufferSize ∧
    ((tcb.state = .estabilished ∨ tcb.state = .closewait) ∧ Flows tcb accepted ∨
      (tcb.state = .finwait1 ∨ tcb.state = .finwait2 ∨ tcb.state = .closing ∨ tcb.state = .timewait) ∧
        tcb.transmitbuffer = [])

/-- A side whose FIN is acknowledged only has an empty ring. -/
theorem finished_ready (ring : tcb.transmitbuffer = []) (state : tcb.state = .timewait ∨ tcb.state = .finwait2) :
    Acking tcb accepted ∧ Sending tcb accepted := by
  have bound : tcb.transmitbuffer.length ≤ tcbRingbufferSize := by
    rw [ring]
    exact Nat.zero_le _
  rcases state with state | state
  · exact ⟨⟨bound, .inr ⟨.inr (.inr (.inr state)), ring⟩⟩, bound, by rw [state]; trivial⟩
  · exact ⟨⟨bound, .inr ⟨.inr (.inl state), ring⟩⟩, bound, by rw [state]; exact ring⟩

/-- The sequence number behind the flight is the number of all bytes that left the ring. -/
theorem Flows.place (flows : Flows tcb accepted) (ring : tcb.transmitbuffer = []) :
    tcb.sndnext = tcb.iss + 1 + BitVec.ofNat 32 accepted.length := by
  rcases flows with resting | ⟨done, flight, _, flying⟩
  · exact resting.place
  · rw [flying.next, flying.start, flying.split, ring, List.append_nil, List.length_append, BitVec.ofNat_add,
      ← BitVec.add_assoc]

theorem dofirstfin_sending (ring : before.tcb.transmitbuffer = [])
    (idle : before.tcb.sndnext = before.tcb.sndunack ∨ accepted = []) : Sending before.tcpDofirstfin.tcb accepted := by
  apply sending_ended
  · exact ring
  · exact idle
  · by_cases closewait : before.tcb.state = .closewait <;> simp [Endpoint.tcpDofirstfin, closewait]

/-- A segment that leaves the ring is the one in flight. -/
theorem transmitted_flying {data : List Byte} (done : List Byte) (transmitted : Transmitted before after data)
    (split : accepted = done ++ before.tcb.transmitbuffer)
    (bound : before.tcb.transmitbuffer.length ≤ tcbRingbufferSize)
    (place : before.tcb.sndnext = before.tcb.iss + 1 + BitVec.ofNat 32 done.length)
    (level : before.tcb.sndnext = before.tcb.sndunack) :
    after.tcb.transmitbuffer.length ≤ tcbRingbufferSize ∧ Flying after.tcb accepted done data := by
  have ring := congrArg List.length transmitted.ring
  rw [List.length_append] at ring
  refine ⟨by omega, ?_⟩
  constructor
  · rw [split, transmitted.ring, List.append_assoc]
  · omega
  · rw [transmitted.sndunack, transmitted.iss, ← level, place]
  · rw [transmitted.sndnext, transmitted.sndunack, level]
  · rw [transmitted.header, transmitted.sndunack, ← level]
    rfl
  · exact transmitted.payload

theorem handleack_sending {header : Tcpheader}
    (ran : before.tcpHandleack header = .ok after) (all : before.tcb.sndnext = header.ack)
    (acking : Acking before.tcb accepted) : Sending after.tcb accepted := by
  obtain ⟨bound, ready⟩ := acking
  rcases handleack_cases ran with ⟨more, transmitted⟩ | ⟨ring, _, rfl⟩ | ⟨ring, _, rfl⟩
  · rcases ready with ⟨state, resting | ⟨done, flight, _, flying⟩⟩ | ⟨_, empty⟩
    · exact absurd resting.ring more
    · have place : before.tcb.sndnext = before.tcb.iss + 1 + BitVec.ofNat 32 (done ++ flight).length := by
        rw [flying.next, flying.start, List.length_append, BitVec.ofNat_add, ← BitVec.add_assoc]
      obtain ⟨less, next⟩ := transmitted_flying (done ++ flight) transmitted flying.split bound place all
      have flows : Flows after.tcb accepted := .inr ⟨_, _, transmitted.some, next⟩
      apply flows.sending less
      rw [transmitted.state]
      exact state
    · exact absurd empty more
  · exact dofirstfin_sending ring (.inl all)
  · rcases ready with ⟨state, flows⟩ | ⟨state, _⟩
    · have rests : Flows { before.tcb with sndunack := header.ack, itimer := none } accepted :=
        .inl ⟨ring, all, flows.place ring⟩
      exact rests.sending bound state
    · apply sending_ended
      · exact ring
      · exact .inl all
      · exact state.imp_right (Or.imp_right (Or.imp_right .inr))

/-- The acknowledgement of a data packet is handled after its data and its FIN. -/
theorem handledatareceive_sending {allocated : Bool} {finstate : TcbState}
    (ran : before.tcpHandledatareceive packet allocated finstate = .ok after)
    (ready : ∀ tcb, SameSend before.tcb tcb → tcb.state = finstate ∨ tcb.state = before.tcb.state →
      Acking tcb accepted ∧ Sending tcb accepted) : Sending after.tcb accepted := by
  obtain ⟨shouldack, queued, middle, queue, middleTcb, _, result⟩ := handledatareceive_cases ran
  obtain ⟨same, state⟩ := queuereceivepacket_send queue
  have middleSame : SameSend before.tcb middle.tcb := by
    rw [middleTcb]
    exact same.trans (taken_send queued packet finstate)
  have middleState : middle.tcb.state = finstate ∨ middle.tcb.state = before.tcb.state := by
    rw [middleTcb, ← state]
    exact taken_state queued packet finstate
  rcases result with rfl | ⟨_, all, handled⟩
  · exact (ready _ middleSame middleState).2
  · have updated : SameSend before.tcb { middle.tcb with sndwindow := packet.header.window } :=
      middleSame.trans ⟨rfl, rfl, rfl, rfl, rfl, rfl, rfl⟩
    exact handleack_sending handled all (ready _ updated middleState).1

theorem armTimewait_sending {endpoint : Endpoint} (sending : Sending endpoint.tcb accepted) :
    Sending endpoint.armTimewait.tcb accepted := by
  unfold Endpoint.armTimewait
  split
  · exact sending.same ⟨rfl, rfl, rfl, rfl, rfl, rfl, rfl⟩ rfl
  · exact sending

section

variable {tcb : Tcb} (sending : Sending tcb accepted)
include sending

/-- What a block in one of these states has left to send. -/
theorem Sending.flows (state : tcb.state = .estabilished ∨ tcb.state = .closewait) : Flows tcb accepted := by
  unfold Sending at sending
  rcases state with state | state
  all_goals
    rw [state] at sending
    exact sending.2

theorem Sending.opening (state : tcb.state = .synsent ∨ tcb.state = .synreceived) :
    accepted = [] ∧ tcb.transmitbuffer = [] ∧ tcb.sndunack = tcb.iss ∧ tcb.sndnext = tcb.iss + 1 := by
  unfold Sending at sending
  rcases state with state | state
  all_goals
    rw [state] at sending
    exact sending.2

theorem Sending.ended (state : tcb.state = .finwait1) :
    tcb.transmitbuffer = [] ∧ (tcb.sndnext = tcb.sndunack ∨ accepted = []) := by
  unfold Sending at sending
  rw [state] at sending
  exact sending.2

theorem Sending.finished (state : tcb.state = .finwait2) : tcb.transmitbuffer = [] := by
  unfold Sending at sending
  rw [state] at sending
  exact sending.2

end

variable (sending : Sending before.tcb accepted)
include sending

/-- A close keeps the stream together if nothing is in flight when it sends the FIN. -/
theorem handleclose_sending (ran : before.tcpHandleclose = .ok after)
    (spared : before.tcb.state = .estabilished ∨ before.tcb.state = .closewait → before.tcb.transmitbuffer = [] →
      before.tcb.sndunack = before.tcb.sndnext) : Sending after.tcb accepted := by
  rcases tcpHandleclose_cases ran with ⟨_, rfl⟩ | ⟨state, ⟨ring, rfl⟩ | ⟨_, rfl⟩⟩
  · exact ⟨sending.1, trivial⟩
  · apply dofirstfin_sending ring
    rcases state with state | state | state
    · exact .inl (spared (.inl state) ring).symm
    · exact .inr (sending.opening (.inr state)).1
    · exact .inl (spared (.inr state) ring).symm
  · have waits (flows : Flows before.tcb accepted) : Flows { before.tcb with shouldclose := true } accepted := by
      rcases flows with resting | ⟨done, flight, some, flying⟩
      · exact .inl ⟨resting.ring, resting.level, resting.place⟩
      · exact .inr ⟨done, flight, some, flying.split, flying.short, flying.start, flying.next, flying.seq,
          flying.payload⟩
    rcases state with state | state | state
    · exact (waits (sending.flows (.inl state))).sending sending.1 (.inl state)
    · rename_i more
      exact absurd (sending.opening (.inr state)).2.1 more
    · exact (waits (sending.flows (.inr state))).sending sending.1 (.inr state)

theorem packet_sending (step : PacketStep before packet around after) : Sending after.tcb accepted := by
  cases step with
  | reset | left => exact ⟨sending.1, trivial⟩
  | answered same _ =>
    rw [same]
    exact sending
  | repeated _ => exact sending
  | connected state _ =>
    obtain ⟨empty, ring, _, next⟩ := sending.opening (.inl state)
    apply Flows.sending
    · refine .inl ⟨ring, rfl, ?_⟩
      change before.tcb.sndnext = before.tcb.iss + 1 + _
      rw [next, empty]
      simp
    · exact sending.1
    · exact .inl rfl
  | @accepted state middle after entered closed =>
    obtain ⟨empty, ring, start, next⟩ := sending.opening (.inr state)
    have level : middle.tcb.sndnext = middle.tcb.sndunack := by
      rw [entered]
      change before.tcb.sndnext = before.tcb.sndunack + 1
      rw [next, start]
    have place : middle.tcb.sndnext = middle.tcb.iss + 1 + BitVec.ofNat 32 accepted.length := by
      rw [entered]
      change before.tcb.sndnext = before.tcb.iss + 1 + _
      rw [next, empty]
      simp
    have middleRing : middle.tcb.transmitbuffer = [] := by rw [entered, ring]
    have middleSending : Sending middle.tcb accepted := by
      apply Flows.sending
      · exact .inl ⟨middleRing, level, place⟩
      · rw [middleRing]
        exact Nat.zero_le _
      · rw [entered]
        exact .inl rfl
    rcases closed with rfl | ran
    · exact middleSending
    · exact handleclose_sending middleSending ran fun _ _ => level.symm
  | data state handled =>
    have flows := sending.flows (.inl state)
    apply handledatareceive_sending handled
    intro tcb same which
    have bound : tcb.transmitbuffer.length ≤ tcbRingbufferSize := by
      rw [same.transmitbuffer]
      exact sending.1
    have place : tcb.state = .estabilished ∨ tcb.state = .closewait := by
      rw [state] at which
      exact which.symm
    exact ⟨⟨bound, .inl ⟨place, flows.same same⟩⟩, (flows.same same).sending bound place⟩
  | acked state all handled =>
    exact handleack_sending handled all ⟨sending.1, .inl ⟨.inr state, sending.flows (.inr state)⟩⟩
  | @closing state middle finstate moved after handled =>
    obtain ⟨ring, idle⟩ := sending.ended state
    apply armTimewait_sending
    apply handledatareceive_sending handled
    intro tcb same which
    rcases moved with ⟨rfl, rfl⟩ | ⟨rfl, _, rfl⟩
    · have empty : tcb.transmitbuffer = [] := by rw [same.transmitbuffer, ring]
      have still : tcb.sndnext = tcb.sndunack ∨ accepted = [] := by rwa [same.sndnext, same.sndunack]
      rw [state] at which
      refine ⟨⟨by rw [empty]; exact Nat.zero_le _, .inr ⟨?_, empty⟩⟩, sending_ended empty still ?_⟩
      all_goals rcases which with which | which <;> simp [which]
    · exact finished_ready (by rw [same.transmitbuffer, ring]) which
  | @closed state after handled =>
    have ring := sending.finished state
    apply armTimewait_sending
    apply handledatareceive_sending handled
    intro tcb same which
    rw [state] at which
    exact finished_ready (by rw [same.transmitbuffer, ring]) which
  | crossed _ same _ =>
    refine ⟨?_, trivial⟩
    rw [same]
    exact sending.1

omit sending in
/-- A segment in flight separates the two sequence numbers. -/
theorem Flying.apart (flying : Flying tcb accepted done flight) (some : flight ≠ []) : tcb.sndnext ≠ tcb.sndunack := by
  have short := flying.short
  have limit : tcbRingbufferSize = 65535 := rfl
  have positive := List.length_pos_of_ne_nil some
  intro level
  rw [flying.next] at level
  have zero : BitVec.ofNat 32 flight.length = 0#32 := by simpa using level
  have value := congrArg BitVec.toNat zero
  simp only [BitVec.toNat_ofNat] at value
  omega

theorem send_sending {data : List Byte} {copied : Copied} {error : Option SockError} {count : Nat}
    (ran : before.tcpSend data copied = .ok (error, count, after)) :
    Sending after.tcb (accepted ++ data.take count) := by
  rcases tcpSend_cases ran with ⟨rfl, rfl⟩ | ⟨state, _, fits, middle, entered, sent⟩
  · rw [List.take_zero, List.append_nil]
    exact sending
  · have flows := sending.flows (.inl state)
    have bound : middle.tcb.transmitbuffer.length ≤ tcbRingbufferSize := by
      have taken := List.length_take_le count data
      rw [entered]
      simp only [List.length_append]
      omega
    rcases sent with ⟨busy, rfl⟩ | ⟨idle, transmit⟩
    · rcases flows with resting | ⟨done, flight, some, flying⟩
      · exact absurd resting.level busy
      · apply Flows.sending
        · refine .inr ⟨done, flight, some, ?_⟩
          rw [entered]
          refine ⟨?_, flying.short, flying.start, flying.next, flying.seq, flying.payload⟩
          rw [flying.split]
          simp only [List.append_assoc]
        · exact bound
        · rw [entered]
          exact .inl state
    · rcases flows with resting | ⟨done, flight, some, flying⟩
      · have transmitted := transmitnextsegment_ok transmit
        have split : accepted ++ data.take count = accepted ++ middle.tcb.transmitbuffer := by
          rw [entered]
          simp only [resting.ring, List.nil_append]
        have place : middle.tcb.sndnext = middle.tcb.iss + 1 + BitVec.ofNat 32 accepted.length := by
          rw [entered]
          exact resting.place
        have level : middle.tcb.sndnext = middle.tcb.sndunack := by
          rw [entered]
          exact resting.level
        obtain ⟨less, next⟩ := transmitted_flying accepted transmitted split bound place level
        have flows : Flows after.tcb (accepted ++ data.take count) := .inr ⟨_, _, transmitted.some, next⟩
        apply flows.sending less
        rw [transmitted.state, entered]
        exact .inl state
      · exact absurd idle (flying.apart some)

theorem timeout_sending {elapsedms : Nat} {stale : Packet} (ran : before.tcpTimeout elapsedms stale around = .ok after)
    : Sending after.tcb accepted := by
  rcases tcpTimeout_cases ran with rfl | ⟨currentrto, itimer, same, _⟩ | ⟨_, handled⟩
  · exact ⟨sending.1, trivial⟩
  · rw [same]
    exact sending.same ⟨rfl, rfl, rfl, rfl, rfl, rfl, rfl⟩ rfl
  · exact packet_sending sending handled

end Keep

theorem step_sending {connection next : Connection} {event : TcbEvent} (spares : SparesFlight connection event)
    (ran : connection.step event = .ok next) (sending : Sending connection.tcb connection.accepted) :
    Sending next.tcb next.accepted := by
  cases Connection.step_moves ran with
  | send sent => exact send_sending sending sent
  | @recv _ _ _ _ _ after received =>
    rcases tcpRecv_cases received with ⟨rfl, _⟩ | ⟨_, copycount, _, _, _, same⟩
    · exact sending
    · change Sending after.tcb connection.accepted
      rw [same]
      exact Sending.same sending ⟨rfl, rfl, rfl, rfl, rfl, rfl, rfl⟩ rfl
  | packet handled => exact packet_sending sending handled
  | timeout expired => exact timeout_sending sending expired
  | close closed => exact handleclose_sending sending closed spares
  | gone => exact sending

theorem Opens.sending {connection : Connection} (opens : Opens connection) :
    Sending connection.tcb connection.accepted := by
  cases opens with
  | active tcb pristine key iss mtu =>
    refine ⟨?_, rfl, pristine.transmitbuffer, rfl, rfl⟩
    change tcb.transmitbuffer.length ≤ _
    rw [pristine.transmitbuffer]
    exact Nat.zero_le _
  | passive parent key header iss mtu newsendmss => exact ⟨Nat.zero_le _, rfl, rfl, rfl, rfl⟩

/-- Every accepted byte stays covered if no close comes while the last segment is in flight. -/
theorem accepted_covered {start connection : Connection} (opens : Opens start)
    (reached : Reaches Connection.step SparesFlight start connection) (state : connection.tcb.state.Transfers) :
    Covered connection :=
  Sending.covered (reached.keeps (fun connection => Sending connection.tcb connection.accepted)
    (fun _ _ _ sending spares ran => step_sending spares ran sending) opens.sending) state

/-- A peer has asked for a connection and has been answered. -/
def answeredSyn : Connection :=
  ⟨Endpoint.sendSynack 0 ⟨1, 80, 5000⟩ ⟨80, 5000, 7, 0, 0x50, controlSyn, 65535, 0⟩ 100 1500 536, [], []⟩

/-- The peer acknowledges a sequence number. -/
def ackPacket (seq ack : Seq) : Packet := ⟨⟨80, 5000, seq, ack, 0x50, controlAck, 65535, 0⟩, List.replicate 20 0⟩

/-- Memory is there, and the listening socket is open. -/
def plainSurroundings : Surroundings := ⟨true, 536, false⟩

/-- The state after some events. -/
def Connection.after (connection : Connection) (events : List TcbEvent) : Connection :=
  (events.foldlM Connection.step connection).toOption.getD connection

/-- A byte has been sent. -/
def greeting : List TcbEvent := [.packet (ackPacket 8 101) plainSurroundings, .send [65] .whole]

/-- The connection is closed before the byte is acknowledged. -/
def hangup : List TcbEvent := greeting ++ [.close]

/-- A byte that is in flight when its connection is closed is nowhere. -/
theorem closedFlight_uncovered : ∃ start connection, Opens start ∧
    Reaches Connection.step (fun _ _ => True) start connection ∧ connection.tcb.state.Transfers ∧
      ¬ Covered connection := by
  refine ⟨answeredSyn, answeredSyn.after hangup, .passive _ _ _ _ _ _, ?_, trivial, ?_⟩
  · exact Reaches.of_foldlM hangup (fun _ _ _ => trivial) rfl
  · intro covered
    obtain ⟨index, found, _⟩ := covered.kept 0 65 rfl (by decide)
    cases found

theorem greeting_covered : (answeredSyn.after greeting).tcb.inFlight = 1 ∧ Covered (answeredSyn.after greeting) := by
  refine ⟨rfl, ?_⟩
  apply accepted_covered (Opens.passive 0 ⟨1, 80, 5000⟩ ⟨80, 5000, 7, 0, 0x50, controlSyn, 65535, 0⟩ 100 1500 536)
  · apply Reaches.of_foldlM greeting
    · simp [greeting, SparesFlight]
    · rfl
  · trivial

end Astral.Net
