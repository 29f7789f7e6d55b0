import Astral.Construction.Connection
import Astral.Library.Run

namespace Astral.Net

open Io (Byte)
open Library

variable {first second third : Tcb}

/-- The send side of the block is the same. -/
structure SameSend (before after : Tcb) : Prop where
  transmitbuffer : after.transmitbuffer = before.transmitbuffer
  frame : after.retransmitFrame = before.retransmitFrame
  header : after.retransmitheader = before.retransmitheader
  shouldclose : after.shouldclose = before.shouldclose
  sndunack : after.sndunack = before.sndunack
  sndnext : after.sndnext = before.sndnext
  iss : after.iss = before.iss

/-- The receive side of the block is the same. -/
structure SameReceive (before after : Tcb) : Prop where
  receivebuffer : after.receivebuffer = before.receivebuffer
  receivequeue : after.receivequeue = before.receivequeue
  rcvnext : after.rcvnext = before.rcvnext
  rcvwindow : after.rcvwindow = before.rcvwindow
  irs : after.irs = before.irs

theorem SameSend.refl (tcb : Tcb) : SameSend tcb tcb := ⟨rfl, rfl, rfl, rfl, rfl, rfl, rfl⟩

theorem SameSend.trans (one : SameSend first second) (two : SameSend second third) : SameSend first third := by
  constructor
  · rw [two.transmitbuffer, one.transmitbuffer]
  · rw [two.frame, one.frame]
  · rw [two.header, one.header]
  · rw [two.shouldclose, one.shouldclose]
  · rw [two.sndunack, one.sndunack]
  · rw [two.sndnext, one.sndnext]
  · rw [two.iss, one.iss]

theorem SameReceive.refl (tcb : Tcb) : SameReceive tcb tcb := ⟨rfl, rfl, rfl, rfl, rfl⟩

theorem SameReceive.trans (one : SameReceive first second) (two : SameReceive second third) :
    SameReceive first third := by
  constructor
  · rw [two.receivebuffer, one.receivebuffer]
  · rw [two.receivequeue, one.receivequeue]
  · rw [two.rcvnext, one.rcvnext]
  · rw [two.rcvwindow, one.rcvwindow]
  · rw [two.irs, one.irs]

section Queue

variable {tcb after : Tcb} {packet : Packet} {allocated shouldack : Bool}

/-- A segment that is taken in order is written and flushes the queue. -/
structure InOrder (tcb after : Tcb) (packet : Packet) : Prop where
  order : packet.header.seq = tcb.rcvnext
  flushed : ∃ receivebuffer flushed, receiveWrite tcb.receivebuffer packet.data = .ok receivebuffer ∧
    flushReceivequeue (tcb.receivequeue.filter fun queued =>
        !queued.conflicts packet.header.seq (packet.header.seq + BitVec.ofNat 32 packet.datalen))
      (tcb.rcvnext + BitVec.ofNat 32 packet.datalen) receivebuffer packet.datalen = .ok flushed ∧
    flushed.2.2.2 ≤ tcb.rcvwindow.toNat ∧
    after = { tcb with
      receivequeue := flushed.1
      rcvnext := flushed.2.1
      receivebuffer := flushed.2.2.1
      rcvwindow := tcb.rcvwindow - BitVec.ofNat 32 flushed.2.2.2 }

/-- A segment of this kind passes the window check. -/
structure InWindow (tcb : Tcb) (packet : Packet) : Prop where
  fits : packet.datalen ≤ tcb.rcvwindow.toNat
  some : packet.datalen ≠ 0
  range : seqinrange packet.header.seq (packet.header.seq + BitVec.ofNat 32 packet.datalen) tcb.rcvnext
    (tcb.rcvnext + tcb.rcvwindow) = true

/-- The queue that is left after the conflicts have been dropped. -/
def Tcb.cleared (tcb : Tcb) (packet : Packet) : List Queuedpacket :=
  tcb.receivequeue.filter fun queued =>
    !queued.conflicts packet.header.seq (packet.header.seq + BitVec.ofNat 32 packet.datalen)

section

variable (ran : tcpQueuereceivepacket tcb packet allocated = .ok (shouldack, after))
include ran

/-- A packet is dropped, taken in order, or queued. -/
theorem queuereceivepacket_cases : after = tcb ∧ (¬ InWindow tcb packet) ∨
      InWindow tcb packet ∧ InOrder tcb after packet ∨ InWindow tcb packet ∧ packet.header.seq ≠ tcb.rcvnext ∧
        (after = { tcb with receivequeue :=
            insertReceivequeue ⟨packet.header, packet.data⟩ tcb.rcvnext (tcb.cleared packet) } ∨
          after = { tcb with receivequeue := tcb.cleared packet }) := by
  revert ran
  fun_cases tcpQueuereceivepacket tcb packet allocated with intro ran
  | case1 _ large =>
    cases ran
    exact .inl ⟨rfl, fun inside => absurd inside.fits (by omega)⟩
  | case2 _ _ empty =>
    cases ran
    exact .inl ⟨rfl, fun inside => inside.some empty⟩
  | case3 _ _ _ _ _ outside =>
    cases ran
    exact .inl ⟨rfl, fun inside => by rw [inside.range] at outside; cases outside⟩
  | case4 _ _ _ fits some range _ order =>
    have inside : InWindow tcb packet := ⟨by omega, some, by simpa using range⟩
    obtain ⟨receivebuffer, written, ran⟩ := bind_ok.mp ran
    obtain ⟨flushed, flush, ran⟩ := bind_ok.mp ran
    obtain ⟨within, ran⟩ := guard_ok.mp ran
    cases ran
    exact .inr (.inl ⟨inside, order, receivebuffer, flushed, written, flush, within, rfl⟩)
  | case5 _ _ _ fits some range _ later =>
    cases ran
    exact .inr (.inr ⟨⟨by omega, some, by simpa using range⟩, later, .inl rfl⟩)
  | case6 _ _ _ fits some range _ later =>
    cases ran
    exact .inr (.inr ⟨⟨by omega, some, by simpa using range⟩, later, .inr rfl⟩)

theorem queuereceivepacket_send : SameSend tcb after ∧ after.state = tcb.state := by
  rcases queuereceivepacket_cases ran with ⟨rfl, _⟩ | ⟨_, _, _, _, _, _, _, rfl⟩ | ⟨_, _, rfl | rfl⟩
  all_goals exact ⟨⟨rfl, rfl, rfl, rfl, rfl, rfl, rfl⟩, rfl⟩

end

end Queue

/-- The frame ends the stream of its sender. -/
def Frame.isFin (frame : Frame) : Bool := hasFlag frame.header.control controlFin

/-- The endpoint has sent more frames, none of which is a FIN. -/
def SentMore (before after : Endpoint) : Prop :=
  ∃ frames, after.sent = before.sent ++ frames ∧ ∀ frame ∈ frames, frame.isFin = false

theorem SentMore.refl (endpoint : Endpoint) : SentMore endpoint endpoint :=
  ⟨[], by simp, by simp⟩

theorem SentMore.one {before after : Endpoint} (frame : Frame) (sent : after.sent = before.sent ++ [frame])
    (other : frame.isFin = false) : SentMore before after := by
  refine ⟨[frame], sent, ?_⟩
  intro last member
  rw [List.mem_singleton] at member
  rw [member, other]

theorem SentMore.trans {first second third : Endpoint} (one : SentMore first second) (two : SentMore second third) :
    SentMore first third := by
  obtain ⟨early, earlySent, earlyOther⟩ := one
  obtain ⟨late, lateSent, lateOther⟩ := two
  refine ⟨early ++ late, by rw [lateSent, earlySent, List.append_assoc], ?_⟩
  intro frame member
  rcases List.mem_append.mp member with isEarly | isLate
  · exact earlyOther frame isEarly
  · exact lateOther frame isLate

section

variable (endpoint : Endpoint)
include endpoint

theorem tcpAck_more : SentMore endpoint endpoint.tcpAck := by
  apply SentMore.one _ rfl
  change hasFlag controlAck controlFin = false
  decide

theorem answer_more (answers : Bool) : (if answers then endpoint.tcpAck else endpoint).tcb = endpoint.tcb ∧
    SentMore endpoint (if answers then endpoint.tcpAck else endpoint) := by
  cases answers with
  | false => exact ⟨rfl, SentMore.refl endpoint⟩
  | true => exact ⟨rfl, tcpAck_more endpoint⟩

@[simp] theorem tcpRetransmit_tcb : endpoint.tcpRetransmit.tcb = endpoint.tcb := rfl

theorem tcpSendreset_more (packet : Packet) : SentMore endpoint (endpoint.tcpSendreset packet) := by
  apply SentMore.one _ rfl
  change hasFlag (controlRst ||| controlAck) controlFin = false
  decide

end

/-- The next data of the ring is in flight and in the retransmit buffer. -/
structure Transmitted (before after : Endpoint) (data : List Byte) : Prop where
  some : data ≠ []
  ring : before.tcb.transmitbuffer = data ++ after.tcb.transmitbuffer
  state : after.tcb.state = before.tcb.state
  shouldclose : after.tcb.shouldclose = before.tcb.shouldclose
  sndunack : after.tcb.sndunack = before.tcb.sndunack
  iss : after.tcb.iss = before.tcb.iss
  sndnext : after.tcb.sndnext = before.tcb.sndnext + BitVec.ofNat 32 data.length
  header : after.tcb.retransmitheader = tcpCreateheader before.tcb 0 (controlAck ||| controlPsh) 0
  payload : after.tcb.retransmitFrame.payload = data
  sent : after.sent = before.sent ++ [after.tcb.retransmitFrame]
  receive : SameReceive before.tcb after.tcb

theorem transmitnextsegment_ok {before after : Endpoint} (ran : before.tcpTransmitnextsegment = .ok after) :
    Transmitted before after (before.tcb.transmitbuffer.take before.tcb.sndmss) := by
  obtain ⟨some, ran⟩ := unless_ok.mp ran
  cases ran
  refine ⟨some, by simp, rfl, rfl, rfl, rfl, rfl, rfl, ?_, rfl, rfl, rfl, rfl, rfl, rfl⟩
  simp only [Tcb.retransmitFrame, Endpoint.tcpRetransmit, Nat.add_sub_cancel]
  exact List.take_left' rfl

/-- An acknowledgement sends the next data, the FIN, or nothing. -/
theorem handleack_cases {before after : Endpoint} {header : Tcpheader} (ran : before.tcpHandleack header = .ok after) :
    (before.tcb.transmitbuffer ≠ [] ∧
      Transmitted { before with tcb := { before.tcb with sndunack := header.ack } } after
        (before.tcb.transmitbuffer.take before.tcb.sndmss)) ∨
    (before.tcb.transmitbuffer = [] ∧ before.tcb.shouldclose = true ∧
      after = { before with tcb := { before.tcb with sndunack := header.ack } }.tcpDofirstfin) ∨
    (before.tcb.transmitbuffer = [] ∧ before.tcb.shouldclose = false ∧
      after = { before with tcb := { before.tcb with sndunack := header.ack, itimer := none } }) := by
  revert ran
  fun_cases Endpoint.tcpHandleack before header with intro ran
  | case1 _ some => exact .inl ⟨some, transmitnextsegment_ok ran⟩
  | case2 _ none close =>
    cases ran
    exact .inr (.inl ⟨of_not_not none, close, rfl⟩)
  | case3 _ none stays =>
    cases ran
    exact .inr (.inr ⟨of_not_not none, by simpa using stays, rfl⟩)

/-- The block after the data and the FIN of a packet have been taken. -/
def Tcb.taken (queued : Tcb) (packet : Packet) (finstate : TcbState) : Tcb :=
  if hasFlag packet.header.control controlFin then { queued with state := finstate, rcvnext := queued.rcvnext + 1 }
  else queued

theorem taken_send (queued : Tcb) (packet : Packet) (finstate : TcbState) :
    SameSend queued (queued.taken packet finstate) := by
  unfold Tcb.taken
  split
  · exact ⟨rfl, rfl, rfl, rfl, rfl, rfl, rfl⟩
  · exact SameSend.refl queued

theorem taken_state (queued : Tcb) (packet : Packet) (finstate : TcbState) :
    (queued.taken packet finstate).state = finstate ∨ (queued.taken packet finstate).state = queued.state := by
  unfold Tcb.taken
  split
  · exact .inl rfl
  · exact .inr rfl

/-- A data packet is queued, its FIN changes the state, and its acknowledgement is handled last. -/
theorem handledatareceive_cases {before after : Endpoint} {packet : Packet} {allocated : Bool} {finstate : TcbState}
    (ran : before.tcpHandledatareceive packet allocated finstate = .ok after) :
    ∃ shouldack queued middle, tcpQueuereceivepacket before.tcb packet allocated = .ok (shouldack, queued) ∧
      middle.tcb = queued.taken packet finstate ∧ SentMore before middle ∧ (after = middle ∨
        hasFlag packet.header.control controlAck = true ∧ middle.tcb.sndnext = packet.header.ack ∧
          Endpoint.tcpHandleack { middle with tcb := { middle.tcb with sndwindow := packet.header.window } }
            packet.header = .ok after) := by
  obtain ⟨⟨shouldack, queued⟩, queue, ran⟩ := bind_ok.mp ran
  simp only at ran
  generalize finished : (if hasFlag packet.header.control controlFin = true then
      ({ before with tcb := { queued with state := finstate, rcvnext := queued.rcvnext + 1 } } : Endpoint)
    else { before with tcb := queued }) = closed at ran
  have closedTcb : closed.tcb = queued.taken packet finstate := by
    rw [← finished, Tcb.taken]
    split <;> rfl
  have closedSent : closed.sent = before.sent := by
    rw [← finished]
    split <;> rfl
  have same : SentMore before closed := ⟨[], by simp [closedSent], by simp⟩
  obtain ⟨answerTcb, answerMore⟩ := answer_more closed (shouldack || hasFlag packet.header.control controlFin)
  generalize (if shouldack || hasFlag _ _ then closed.tcpAck else _) = middle at ran answerTcb answerMore
  refine ⟨shouldack, queued, middle, queue, answerTcb.trans closedTcb, same.trans answerMore, ?_⟩
  split at ran
  · rename_i acked
    rw [Bool.and_eq_true, decide_eq_true_eq] at acked
    exact .inr ⟨acked.1, acked.2, ran⟩
  · cases ran
    exact .inl rfl

/-- A packet has one of these effects. -/
inductive PacketStep (before : Endpoint) (packet : Packet) (around : Surroundings) : Endpoint → Prop where
  | reset (state : before.tcb.state ≠ .listen) : PacketStep before packet around before.tcpReset
  | answered {after : Endpoint} (same : after.tcb = before.tcb) (more : SentMore before after) :
      PacketStep before packet around after
  | repeated (state : before.tcb.state = .synreceived) : PacketStep before packet around before.tcpRetransmit
  | connected (state : before.tcb.state = .synsent) (acked : before.tcb.sndunack + 1 = packet.header.ack) :
      PacketStep before packet around (Endpoint.tcpAck { before with tcb := { before.tcb with
          sndunack := before.tcb.sndnext
          itimer := none
          state := .estabilished
          sndwindow := packet.header.window
          irs := packet.header.seq
          rcvwindow := BitVec.ofNat 32 tcbRingbufferSize
          rcvnext := packet.header.seq + 1
          sndmss := Endpoint.getsendmss before.tcb around.newsendmss } })
  | accepted (state : before.tcb.state = .synreceived) {middle after : Endpoint}
      (entered : middle = { before with tcb := { before.tcb with
        itimer := none
        state := .estabilished
        sndunack := before.tcb.sndunack + 1 } })
      (closed : after = middle ∨ middle.tcpHandleclose = .ok after) : PacketStep before packet around after
  | data (state : before.tcb.state = .estabilished) {after : Endpoint}
      (handled : before.tcpHandledatareceive packet around.allocated .closewait = .ok after) :
      PacketStep before packet around after
  | acked (state : before.tcb.state = .closewait) (all : before.tcb.sndnext = packet.header.ack) {after : Endpoint}
      (handled : before.tcpHandleack packet.header = .ok after) : PacketStep before packet around after
  | left (state : before.tcb.state = .lastack) :
      PacketStep before packet around { before with
        tcb := { before.tcb with itimer := none, state := .closed }, removals := before.removals + 1 }
  | closing (state : before.tcb.state = .finwait1) {middle : Endpoint} {finstate : TcbState}
      (moved : middle = before ∧ finstate = .closing ∨
        finstate = .timewait ∧ before.tcb.sndnext + 1 = packet.header.ack ∧
          middle = { before with tcb := { before.tcb with sndnext := before.tcb.sndnext + 1, state := .finwait2 } })
      {after : Endpoint} (handled : middle.tcpHandledatareceive packet around.allocated finstate = .ok after) :
      PacketStep before packet around after.armTimewait
  | closed (state : before.tcb.state = .finwait2) {after : Endpoint}
      (handled : before.tcpHandledatareceive packet around.allocated .timewait = .ok after) :
      PacketStep before packet around after.armTimewait
  | crossed (state : before.tcb.state = .closing) {middle : Endpoint} (same : middle.tcb = before.tcb)
      (more : SentMore before middle) : PacketStep before packet around { middle with tcb := { middle.tcb with
        sndnext := before.tcb.sndnext + 1
        state := .timewait
        itimer := some (mslSec * 1000000) } }

theorem tcpPacket_step {before after : Endpoint} {packet : Packet} {around : Surroundings}
    (ran : before.tcpPacket packet around = .ok after) : PacketStep before packet around after := by
  revert ran
  fun_cases Endpoint.tcpPacket before packet around with intro ran
  | case1 _ _ reset =>
    cases ran
    simp only [Bool.and_eq_true, decide_eq_true_eq] at reset
    exact .reset reset.2
  | case2 | case3 | case4 | case15 | case17 =>
    cases ran
    exact .answered rfl (SentMore.refl _)
  | case5 | case10 =>
    cases ran
    exact .answered rfl (tcpSendreset_more _ _)
  | case6 _ _ _ _ _ state acked =>
    cases ran
    simp only [Bool.or_eq_true, not_or, decide_eq_true_eq, not_not] at acked
    exact .connected state acked.2
  | case7 _ _ _ _ _ state =>
    cases ran
    exact .repeated state
  | case8 _ _ _ _ _ state => exact .accepted state rfl (.inr ran)
  | case9 _ _ _ _ _ state => exact .accepted state rfl (.inl (Except.ok.inj ran).symm)
  | case11 | case13 | case22 =>
    cases ran
    exact .answered rfl (tcpAck_more _)
  | case12 _ _ _ _ _ state => exact .data state ran
  | case14 _ _ _ _ _ state _ acked =>
    rw [Bool.and_eq_true, decide_eq_true_eq] at acked
    exact .acked state acked.2 ran
  | case16 _ _ _ _ state =>
    cases ran
    exact .left state
  | case18 _ _ _ _ state moved =>
    obtain ⟨middle, handled, finished⟩ := bind_ok.mp ran
    cases finished
    simp only [moved] at handled
    split at handled
    · next acked =>
      rw [Bool.and_eq_true, decide_eq_true_eq] at acked
      exact .closing state (.inr ⟨rfl, acked.2, rfl⟩) handled
    · rw [if_neg (by rw [state]; decide)] at handled
      exact .closing state (.inl ⟨rfl, rfl⟩) handled
  | case19 _ _ _ state =>
    obtain ⟨middle, handled, finished⟩ := bind_ok.mp ran
    cases finished
    exact .closed state handled
  | case20 _ _ _ _ _ state =>
    cases ran
    exact .crossed state (answer_more ..).1 (answer_more ..).2
  | case21 =>
    rw [← Except.ok.inj ran]
    exact .answered (answer_more ..).1 (answer_more ..).2

section Calls

variable {before after : Endpoint}

/-- A send call changes nothing or puts data into the ring of an open connection. -/
theorem tcpSend_cases {data : List Byte} {copied : Copied} {error : Option SockError} {count : Nat}
    (ran : before.tcpSend data copied = .ok (error, count, after)) :
    after = before ∧ count = 0 ∨
      before.tcb.state = .estabilished ∧ 0 < count ∧ count ≤ tcbRingbufferSize - before.tcb.transmitbuffer.length ∧
        ∃ middle : Endpoint, middle = { before with tcb := { before.tcb with
            transmitbuffer := before.tcb.transmitbuffer ++ data.take count } } ∧
          (before.tcb.sndnext ≠ before.tcb.sndunack ∧ after = middle ∨
            before.tcb.sndnext = before.tcb.sndunack ∧ middle.tcpTransmitnextsegment = .ok after) := by
  unfold Endpoint.tcpSend at ran
  simp only at ran
  split at ran
  · cases ran
    exact .inl ⟨rfl, rfl⟩
  split at ran
  · cases ran
    exact .inl ⟨rfl, rfl⟩
  split at ran
  · cases ran
    exact .inl ⟨rfl, rfl⟩
  rename_i writable
  have state : before.tcb.state = .estabilished := by
    cases state : before.tcb.state <;> simp [internalpoll, state] at writable ⊢
  split at ran
  · cases ran
  rename_i some
  cases copied with
  | fault =>
    cases ran
    exact .inl ⟨rfl, rfl⟩
  | part => cases ran
  | whole =>
    simp only at ran
    split at ran
    · cases ran
    rename_i fits
    split at ran
    · rename_i idle
      obtain ⟨endpoint, sent, finished⟩ := bind_ok.mp ran
      cases finished
      exact .inr ⟨state, Nat.pos_of_ne_zero some, by omega, _, rfl, .inr ⟨idle, sent⟩⟩
    · rename_i busy
      cases ran
      exact .inr ⟨state, Nat.pos_of_ne_zero some, by omega, _, rfl, .inl ⟨busy, rfl⟩⟩

/-- A receive call changes nothing or takes bytes out of the ring and opens the window. -/
theorem tcpRecv_cases {count : Nat} {peek : Bool} {copied : Copied} {error : Option SockError} {bytes : List Byte}
    (ran : before.tcpRecv count peek copied = .ok (error, bytes, after)) :
    after = before ∧ (peek = true ∨ bytes = []) ∨ peek = false ∧ ∃ copycount ≤ before.tcb.receivebuffer.length,
        bytes = before.tcb.receivebuffer.take copycount ∧ SentMore before after ∧
        after.tcb = { before.tcb with
          receivebuffer := before.tcb.receivebuffer.drop copycount
          rcvwindow := before.tcb.rcvwindow + BitVec.ofNat 32 copycount } := by
  revert ran
  fun_cases Endpoint.tcpRecv before count peek copied with intro ran
  | case1 | case2 | case3 | case4 =>
    cases ran
    exact .inl ⟨rfl, .inr rfl⟩
  | case5 | case6 => cases ran
  | case7 _ _ _ _ _ _ _ peeked =>
    cases ran
    exact .inl ⟨rfl, .inl peeked⟩
  | case8 _ _ _ _ _ _ fits taken =>
    cases ran
    have removes : peek = false := by simpa using taken
    exact .inr ⟨removes, _, Nat.le_of_not_lt fits, rfl, tcpAck_more _, rfl⟩

/-- A close takes the block out of the table, sends the FIN, or leaves it for later. -/
theorem tcpHandleclose_cases (ran : before.tcpHandleclose = .ok after) :
    (before.tcb.state = .listen ∨ before.tcb.state = .synsent) ∧ after = { before with
          tcb := { before.tcb with itimer := none, state := .closed }
          removals := before.removals + 1 } ∨
      (before.tcb.state = .estabilished ∨ before.tcb.state = .synreceived ∨ before.tcb.state = .closewait) ∧
        (before.tcb.transmitbuffer = [] ∧ after = before.tcpDofirstfin ∨
          before.tcb.transmitbuffer ≠ [] ∧ after = { before with tcb := { before.tcb with shouldclose := true } }) := by
  revert ran
  fun_cases Endpoint.tcpHandleclose before with intro ran
  | case1 | case2 =>
    cases ran
    exact .inl ⟨by grind, rfl⟩
  | case3 _ _ empty | case5 _ _ empty | case7 _ _ empty =>
    cases ran
    exact .inr ⟨by grind, .inl ⟨empty, rfl⟩⟩
  | case4 _ _ more | case6 _ _ more | case8 _ _ more =>
    cases ran
    exact .inr ⟨by grind, .inr ⟨more, rfl⟩⟩
  | case9 => cases ran

/-- A timeout resets the connection, sends the retransmit buffer once more, or sets the timer. -/
theorem tcpHandletimeout_cases (endpoint : Endpoint) (elapsedms : Nat) :
    endpoint.tcpHandletimeout elapsedms = endpoint.tcpReset ∨ ∃ currentrto itimer,
        (endpoint.tcpHandletimeout elapsedms).tcb = { endpoint.tcb with currentrto := currentrto, itimer := itimer } ∧
        ((endpoint.tcpHandletimeout elapsedms).sent = endpoint.sent ∨
          (endpoint.tcpHandletimeout elapsedms).sent = endpoint.sent ++ [endpoint.tcb.retransmitFrame]) := by
  fun_cases Endpoint.tcpHandletimeout endpoint elapsedms with
  | case1 => exact .inl rfl
  | case2 => exact .inr ⟨_, _, rfl, .inr rfl⟩
  | case3 => exact .inr ⟨endpoint.tcb.currentrto, _, rfl, .inl rfl⟩

end Calls

/-- A timeout resets the connection, or counts on and may send the last frame again, or is a packet for a block that is
gone. -/
theorem tcpTimeout_cases {before after : Endpoint} {elapsedms : Nat} {stale : Packet} {around : Surroundings}
    (ran : before.tcpTimeout elapsedms stale around = .ok after) : after = before.tcpReset ∨
      (∃ currentrto itimer, after.tcb = { before.tcb with currentrto := currentrto, itimer := itimer } ∧
        (after.sent = before.sent ∨ after.sent = before.sent ++ [before.tcb.retransmitFrame])) ∨
      ¬ (before.tcb.state ≠ .closed ∧ before.tcb.state ≠ .abort) ∧ PacketStep before stale around after := by
  unfold Endpoint.tcpTimeout at ran
  split at ran
  · cases ran
    rcases tcpHandletimeout_cases before elapsedms with reset | ⟨currentrto, itimer, same, sent⟩
    · exact .inl reset
    · exact .inr (.inl ⟨currentrto, itimer, same, sent⟩)
  · next gone => exact .inr (.inr ⟨gone, tcpPacket_step ran⟩)

/-- What a step of a connection does. -/
inductive Connection.Moves (connection : Connection) : TcbEvent → Connection → Prop where
  | send {data copied error count after} (sent : connection.endpoint.tcpSend data copied = .ok (error, count, after)) :
      Moves connection (.send data copied) ⟨after, connection.accepted ++ data.take count, connection.taken⟩
  | recv {count peek copied error bytes after}
      (received : connection.endpoint.tcpRecv count peek copied = .ok (error, bytes, after)) :
      Moves connection (.recv count peek copied)
        ⟨after, connection.accepted, connection.taken ++ if peek then [] else bytes⟩
  | packet {packet around after} (handled : PacketStep connection.endpoint packet around after) :
      Moves connection (.packet packet around) { connection with endpoint := after }
  | timeout {elapsedms stale around after}
      (expired : connection.endpoint.tcpTimeout elapsedms stale around = .ok after) :
      Moves connection (.timeout elapsedms stale around) { connection with endpoint := after }
  | close {after} (closed : connection.endpoint.tcpHandleclose = .ok after) :
      Moves connection .close { connection with endpoint := after }
  | gone : Moves connection .close connection

theorem Connection.step_moves {connection next : Connection} {event : TcbEvent}
    (ran : connection.step event = .ok next) : connection.Moves event next := by
  cases event with
  | send data copied =>
    obtain ⟨⟨error, count, after⟩, sent, finished⟩ := bind_ok.mp ran
    cases finished
    exact .send sent
  | recv count peek copied =>
    obtain ⟨⟨error, bytes, after⟩, received, finished⟩ := bind_ok.mp ran
    cases finished
    exact .recv received
  | packet packet around =>
    obtain ⟨after, handled, finished⟩ := bind_ok.mp ran
    cases finished
    exact .packet (tcpPacket_step handled)
  | timeout elapsedms stale around =>
    obtain ⟨after, expired, finished⟩ := bind_ok.mp ran
    cases finished
    exact .timeout expired
  | close =>
    obtain ⟨after, closed, finished⟩ := bind_ok.mp ran
    cases finished
    unfold Endpoint.tcpDestroy at closed
    split at closed
    · exact .close closed
    · cases closed
      exact .gone

end Astral.Net
