import Astral.Proof.Diagram
import Astral.Proof.Receive

namespace Astral.Net

open Io (Byte)
open Library

variable {connection : Connection} {around : Surroundings} {packet : Packet} {copied : Copied} {event : TcbEvent}
  {allocated peek : Bool} {finstate : TcbState} {count total : Nat} {error : Option SockError} {data : List Byte}

/-- The handshake is over and the connection has not been reset. -/
def TcbState.Connected : TcbState → Prop
  | .estabilished | .finwait1 | .finwait2 | .closewait | .closing | .lastack | .timewait => True
  | _ => False

/-- Data is accepted in these states. -/
def TcbState.Receives : TcbState → Prop
  | .estabilished | .finwait1 | .finwait2 => True
  | _ => False

/-- What holds of the window in a state, where the sum of ring and window is given. -/
def WindowIn (total : Nat) (tcb : Tcb) : TcbState → Prop
  | .synsent => tcb.receivebuffer = [] ∧ tcb.receivequeue = [] ∧ total = tcbRingbufferSize
  | .synreceived | .estabilished | .finwait1 | .finwait2 => Sound tcb total
  | .closewait | .closing | .lastack | .timewait =>
    tcb.rcvwindow.toNat + tcb.receivebuffer.length = total ∧ total ≤ tcbRingbufferSize
  | .abort | .closed | .listen => True

/-- A close ends the connection or sends a FIN now or later. -/
def CloseMoves (before after : TcbState) : Prop :=
  after = .closed ∨ after = before ∨ (before = .estabilished ∨ before = .synreceived) ∧ after = .finwait1 ∨
    before = .closewait ∧ after = .lastack

/-- A property of the receive side that holds on when the send side moves. -/
structure KeptAside (holds : Tcb → TcbState → Prop) : Prop where
  same : ∀ {tcb after state}, holds tcb state → SameReceive tcb after → holds after state
  aborted : ∀ {tcb state}, holds tcb state → holds tcb .abort
  closed : ∀ {tcb state next}, holds tcb state → CloseMoves state next → holds tcb next
  accepted : ∀ {tcb}, holds tcb .synreceived → holds tcb .estabilished
  crossed : ∀ {tcb}, holds tcb .closing → holds tcb .timewait

section States

variable {tcb after : Tcb} {state next : TcbState}

theorem AckMoves.closes (moves : AckMoves state next) : CloseMoves state next :=
  .inr (moves.imp_right .inr)

theorem Uncrossed.same (uncrossed : Uncrossed tcb packet) (same : SameReceive tcb after) : Uncrossed after packet := by
  rw [Uncrossed, same.rcvwindow, same.rcvnext]
  exact uncrossed

section

variable (window : WindowIn total tcb state)
include window

theorem WindowIn.same (same : SameReceive tcb after) : WindowIn total after state := by
  have sound (sound : Sound tcb total) : Sound after total := by
    constructor
    · rw [same.receivequeue, same.rcvnext, same.rcvwindow]
      exact sound.held
    · rw [same.rcvwindow, same.receivebuffer]
      exact sound.sum
    · exact sound.limit
  cases state with
  | synsent => exact ⟨by rw [same.receivebuffer, window.1], by rw [same.receivequeue, window.2.1], window.2.2⟩
  | synreceived | estabilished | finwait1 | finwait2 => exact sound window
  | closewait | closing | lastack | timewait =>
    refine ⟨?_, window.2⟩
    rw [same.rcvwindow, same.receivebuffer]
    exact window.1
  | abort | closed | listen => trivial

omit window in
/-- A FIN leads to a state in which no data is accepted. -/
theorem WindowIn.accepts (sound : Sound tcb total) (accepts : Accepts state next) :
    WindowIn total tcb state ∧ WindowIn total { tcb with state := next, rcvnext := tcb.rcvnext + 1 } next := by
  cases accepts with
  | opened | closed | acked => exact ⟨sound, sound.sum, sound.limit⟩

/-- The connected states have the sum. -/
theorem WindowIn.adds (connected : state.Connected) : tcb.rcvwindow.toNat + tcb.receivebuffer.length = total := by
  cases state with
  | estabilished | finwait1 | finwait2 => exact Sound.sum window
  | closewait | closing | lastack | timewait => exact window.1
  | abort | closed | listen | synsent | synreceived => exact absurd connected id

theorem WindowIn.sound (receives : state.Receives) : Sound tcb total := by
  cases state with
  | estabilished | finwait1 | finwait2 => exact window
  | abort | closed | listen | synsent | synreceived | closewait | closing | lastack | timewait =>
    exact absurd receives id

end

theorem windowIn_kept : KeptAside (WindowIn total) where
  same := WindowIn.same
  aborted _ := trivial
  closed window moves := by
    rcases moves with rfl | rfl | ⟨rfl | rfl, rfl⟩ | ⟨rfl, rfl⟩
    · trivial
    all_goals exact window
  accepted := id
  crossed := id

theorem gone_receives (gone : ¬ (state ≠ .closed ∧ state ≠ .abort)) : ¬ state.Receives := by
  intro receives
  cases state <;> simp [TcbState.Receives] at gone receives

end States

/-- The packets have the widths of their fields, and a segment crosses number zero only if the window does. -/
def Orderly (connection : Connection) : TcbEvent → Prop
  | .packet packet _ =>
    packet.Sized ∧ (connection.tcb.state.Receives → Uncrossed connection.tcb packet)
  | .close => connection.tcb.state = .estabilished → connection.tcb.transmitbuffer = []
  | _ => True

theorem Orderly.drained (orderly : Orderly connection event) : ClosesDrained connection event := by
  cases event with
  | close => exact orderly
  | send | recv | packet | timeout => trivial

section Steps

variable {before after : Endpoint}

theorem handleclose_receive (ran : before.tcpHandleclose = .ok after) : SameReceive before.tcb after.tcb := by
  rcases tcpHandleclose_cases ran with ⟨_, rfl⟩ | ⟨_, ⟨_, rfl⟩ | ⟨_, rfl⟩⟩
  all_goals exact ⟨rfl, rfl, rfl, rfl, rfl⟩

theorem handleclose_moves (ran : before.tcpHandleclose = .ok after) : CloseMoves before.tcb.state after.tcb.state := by
  rcases tcpHandleclose_cases ran with ⟨_, rfl⟩ | ⟨state, ⟨_, rfl⟩ | ⟨_, rfl⟩⟩
  · exact .inl rfl
  · right; right
    change _ ∧ (if before.tcb.state = .closewait then TcbState.lastack else .finwait1) = _ ∨
      _ ∧ (if before.tcb.state = .closewait then TcbState.lastack else .finwait1) = _
    rcases state with state | state | state
    · exact .inl ⟨.inl state, by rw [state, if_neg (by decide)]⟩
    · exact .inl ⟨.inr state, by rw [state, if_neg (by decide)]⟩
    · exact .inr ⟨state, if_pos state⟩
  · exact .inr (.inl rfl)

section Aside

variable {holds : Tcb → TcbState → Prop} (kept : KeptAside holds) (holding : holds before.tcb before.tcb.state)
include kept holding

theorem KeptAside.close (ran : before.tcpHandleclose = .ok after) : holds after.tcb after.tcb.state :=
  kept.same (kept.closed holding (handleclose_moves ran)) (handleclose_receive ran)

theorem KeptAside.armTimewait : holds before.armTimewait.tcb before.armTimewait.tcb.state := by
  unfold Endpoint.armTimewait
  split
  · exact kept.same holding ⟨rfl, rfl, rfl, rfl, rfl⟩
  · exact holding

/-- Only the handshake and the packets that may carry data change the receive side. -/
theorem KeptAside.packetStep (step : PacketStep before packet around after) (ordered : Ordered before)
    (opens : before.tcb.state = .synsent → holds { before.tcb with
        irs := packet.header.seq
        rcvwindow := BitVec.ofNat 32 tcbRingbufferSize
        rcvnext := packet.header.seq + 1 } .estabilished)
    (data : before.tcb.state.Receives → ∀ {middle after : Endpoint} {finstate : TcbState},
      SameReceive before.tcb middle.tcb → Accepts middle.tcb.state finstate → Ordered middle →
      middle.tcpHandledatareceive packet around.allocated finstate = .ok after → holds after.tcb after.tcb.state) :
    holds after.tcb after.tcb.state := by
  cases step with
  | reset _ => exact kept.same (kept.aborted holding) ⟨rfl, rfl, rfl, rfl, rfl⟩
  | answered same _ =>
    rw [same]
    exact holding
  | repeated _ => exact holding
  | connected state _ => exact kept.same (opens state) ⟨rfl, rfl, rfl, rfl, rfl⟩
  | @accepted state middle after entered closed =>
    rw [state] at holding
    have middleHolds : holds middle.tcb middle.tcb.state := by
      rw [entered]
      exact kept.same (kept.accepted holding) ⟨rfl, rfl, rfl, rfl, rfl⟩
    rcases closed with rfl | ran
    · exact middleHolds
    · exact kept.close middleHolds ran
  | data state handled =>
    rw [state] at data
    exact data trivial (.refl _) (by rw [state]; exact .opened) ordered handled
  | acked state _ handled =>
    obtain ⟨_, moves⟩ := handleack_ordered handled (.inr (.inl state)) ordered
    exact kept.same (kept.closed holding moves.closes) (handleack_receive handled)
  | left _ => exact kept.same (kept.closed holding (.inl rfl)) ⟨rfl, rfl, rfl, rfl, rfl⟩
  | closing state moved handled =>
    rw [state] at data
    apply kept.armTimewait
    rcases moved with ⟨rfl, rfl⟩ | ⟨rfl, _, entered⟩
    · exact data trivial (.refl _) (by rw [state]; exact .closed) ordered handled
    · refine data trivial ?_ ?_ (finAcked_ordered ordered state entered) handled
      · rw [entered]
        exact ⟨rfl, rfl, rfl, rfl, rfl⟩
      · rw [entered]
        exact .acked
  | closed state handled =>
    rw [state] at data
    exact kept.armTimewait (data trivial (.refl _) (by rw [state]; exact .acked) ordered handled)
  | crossed state same _ =>
    rw [state] at holding
    rw [same]
    exact kept.same (kept.crossed holding) ⟨rfl, rfl, rfl, rfl, rfl⟩

theorem KeptAside.timeout {elapsedms : Nat} {stale : Packet}
    (ran : before.tcpTimeout elapsedms stale around = .ok after) (ordered : Ordered before) :
    holds after.tcb after.tcb.state := by
  rcases tcpTimeout_cases ran with rfl | ⟨currentrto, itimer, same, _⟩ | ⟨gone, handled⟩
  · exact kept.same (kept.aborted holding) ⟨rfl, rfl, rfl, rfl, rfl⟩
  · rw [same]
    exact kept.same holding ⟨rfl, rfl, rfl, rfl, rfl⟩
  · refine kept.packetStep holding handled ordered ?_ fun receives => absurd receives (gone_receives gone)
    intro synsent
    rw [synsent] at gone
    exact absurd (by decide) gone

end Aside

/-- A data packet keeps what its place in the queue and its FIN keep, and no assertion on the receive side fails. -/
theorem KeptAside.datareceive {holds : Tcb → TcbState → Prop} (kept : KeptAside holds)
    (ran : before.tcpHandledatareceive packet allocated finstate = .ok after)
    (accepts : Accepts before.tcb.state finstate) (ordered : Ordered before) (sound : Sound before.tcb total)
    (sized : packet.Sized) (uncrossed : Uncrossed before.tcb packet)
    (queues : ∀ queued, Queueing before.tcb packet queued → holds queued before.tcb.state ∧
      (hasFlag packet.header.control controlFin = true →
        holds { queued with state := finstate, rcvnext := queued.rcvnext + 1 } finstate)) :
    holds after.tcb after.tcb.state := by
  obtain ⟨_, shouldack, queued, middle, moves⟩ := handledatareceive_ordered ordered ran accepts
  obtain ⟨shouldack', queued', queue, queueing⟩ := queuereceivepacket_ok sound sized uncrossed allocated
  rw [moves.queue] at queue
  cases queue
  obtain ⟨stays, finishes⟩ := queues queued queueing
  have holding : holds middle middle.state := by
    rw [moves.taken, Tcb.taken]
    split
    · next fin => exact finishes fin
    · rw [(queuereceivepacket_send moves.queue).2]
      exact stays
  exact kept.same (kept.closed holding moves.further.closes) moves.receive

theorem packet_window (step : PacketStep before packet around after) (ordered : Ordered before)
    (window : WindowIn total before.tcb before.tcb.state) (sized : packet.Sized)
    (uncrossed : before.tcb.state.Receives → Uncrossed before.tcb packet) :
    WindowIn total after.tcb after.tcb.state := by
  apply windowIn_kept.packetStep window step ordered
  · intro state
    rw [state] at window
    refine ⟨?_, ?_, le_of_eq window.2.2⟩
    · change Held before.tcb.receivequeue _ _
      rw [window.2.1]
      exact Held.nil _ _
    · change (BitVec.ofNat 32 tcbRingbufferSize).toNat + before.tcb.receivebuffer.length = total
      rw [window.1, window.2.2]
      rfl
  · intro receives middle after finstate same accepts middleOrdered handled
    have sound := (window.same same).sound receives
    have uncrossed := (uncrossed receives).same same
    apply windowIn_kept.datareceive handled accepts middleOrdered sound sized uncrossed
    intro queued queueing
    obtain ⟨stays, finishes⟩ := WindowIn.accepts (queueing.sound sound sized uncrossed) accepts
    exact ⟨stays, fun _ => finishes⟩

/-- A receive call moves bytes of the ring into the window. -/
theorem recv_window {bytes : List Byte} (ran : before.tcpRecv count peek copied = .ok (error, bytes, after))
    (window : WindowIn total before.tcb before.tcb.state) : WindowIn total after.tcb after.tcb.state := by
  rcases tcpRecv_cases ran with ⟨rfl, _⟩ | ⟨_, copycount, fits, _, _, taken⟩
  · exact window
  have state : after.tcb.state = before.tcb.state := by rw [taken]
  have size : tcbRingbufferSize = 65535 := rfl
  have sum (sum : before.tcb.rcvwindow.toNat + before.tcb.receivebuffer.length = total)
      (limit : total ≤ tcbRingbufferSize) : after.tcb.rcvwindow.toNat = before.tcb.rcvwindow.toNat + copycount ∧
        after.tcb.rcvwindow.toNat + after.tcb.receivebuffer.length = total := by
    have wider : after.tcb.rcvwindow.toNat = before.tcb.rcvwindow.toNat + copycount := by
      rw [taken]
      change (before.tcb.rcvwindow + BitVec.ofNat 32 copycount).toNat = _
      rw [BitVec.toNat_add, BitVec.toNat_ofNat]
      omega
    refine ⟨wider, ?_⟩
    rw [wider, taken]
    change _ + (before.tcb.receivebuffer.drop copycount).length = total
    rw [List.length_drop]
    omega
  rw [state]
  generalize before.tcb.state = here at window ⊢
  cases here with
  | synsent =>
    rw [taken]
    refine ⟨?_, window.2⟩
    change before.tcb.receivebuffer.drop copycount = []
    rw [window.1, List.drop_nil]
  | synreceived | estabilished | finwait1 | finwait2 =>
    obtain ⟨wider, sum⟩ := sum window.sum window.limit
    refine ⟨?_, sum, window.limit⟩
    have held := window.held.wider (Nat.le_add_right _ copycount)
    rw [← wider] at held
    rw [taken] at held ⊢
    exact held
  | closewait | closing | lastack | timewait => exact ⟨(sum window.1 window.2).2, window.2⟩
  | abort | closed | listen => trivial

theorem send_receive (ran : before.tcpSend data copied = .ok (error, count, after)) :
    SameReceive before.tcb after.tcb ∧ after.tcb.state = before.tcb.state := by
  rcases tcpSend_cases ran with ⟨rfl, _⟩ | ⟨_, _, _, middle, entered, ⟨_, rfl⟩ | ⟨_, sent⟩⟩
  · exact ⟨SameReceive.refl _, rfl⟩
  · rw [entered]
    exact ⟨⟨rfl, rfl, rfl, rfl, rfl⟩, rfl⟩
  · have transmitted := transmitnextsegment_ok sent
    rw [transmitted.state]
    refine ⟨?_, by rw [entered]⟩
    apply SameReceive.trans _ transmitted.receive
    rw [entered]
    exact ⟨rfl, rfl, rfl, rfl, rfl⟩

end Steps

/-- The queue is in order, and ring and window add up. -/
structure Steady (total : Nat) (connection : Connection) : Prop where
  ordered : Ordered connection.endpoint
  window : WindowIn total connection.tcb connection.tcb.state

theorem step_steady {connection next : Connection} (orderly : Orderly connection event)
    (ran : connection.step event = .ok next) (steady : Steady total connection) : Steady total next := by
  refine ⟨(step_ordered orderly.drained ran steady.ordered).1, ?_⟩
  have window := steady.window
  cases Connection.step_moves ran with
  | @send _ _ _ _ after sent =>
    obtain ⟨same, state⟩ := send_receive sent
    change WindowIn total after.tcb after.tcb.state
    rw [state]
    exact window.same same
  | recv received => exact recv_window received window
  | packet handled => exact packet_window handled steady.ordered window orderly.1 orderly.2
  | timeout expired => exact windowIn_kept.timeout window expired steady.ordered
  | close closed => exact windowIn_kept.close window closed
  | gone => exact window

/-- These assertions are about the receive ring and the window. -/
def Assertion.OnReceive : Assertion → Prop
  | .receiveWrite | .receiveWindow => True
  | _ => False

section Failures

variable {before : Endpoint} {failure : Assertion}

theorem transmitnextsegment_error (failed : before.tcpTransmitnextsegment = .error failure) : ¬ failure.OnReceive := by
  revert failed
  fun_cases Endpoint.tcpTransmitnextsegment before with intro failed
  | case1 =>
    cases failed
    exact id
  | case2 => cases failed

theorem handleack_error {header : Tcpheader} (failed : before.tcpHandleack header = .error failure) :
    ¬ failure.OnReceive := by
  revert failed
  fun_cases Endpoint.tcpHandleack before header with intro failed
  | case1 => exact transmitnextsegment_error failed
  | case2 | case3 => cases failed

theorem handledatareceive_error (failed : before.tcpHandledatareceive packet allocated finstate = .error failure)
    (queued : ∃ result, tcpQueuereceivepacket before.tcb packet allocated = .ok result) : ¬ failure.OnReceive := by
  rcases bind_error.mp failed with dropped | ⟨result, _, failed⟩
  · obtain ⟨result, queued⟩ := queued
    rw [queued] at dropped
    cases dropped
  · have settles (middle : Endpoint)
        (failed : (if hasFlag packet.header.control controlAck && middle.tcb.sndnext = packet.header.ack then
            Endpoint.tcpHandleack { middle with tcb := { middle.tcb with sndwindow := packet.header.window } }
              packet.header
          else .ok middle) = .error failure) : ¬ failure.OnReceive := by
      split at failed
      · exact handleack_error failed
      · cases failed
    exact settles _ failed

theorem handleclose_error (failed : before.tcpHandleclose = .error failure) : ¬ failure.OnReceive := by
  revert failed
  fun_cases Endpoint.tcpHandleclose before with intro failed
  | case9 =>
    cases failed
    exact id
  | _ => cases failed

/-- A packet fails an assertion on the receive side only where it would be queued. -/
theorem tcpPacket_error (failed : before.tcpPacket packet around = .error failure)
    (queued : before.tcb.state.Receives → ∀ tcb, SameReceive before.tcb tcb →
      ∃ result, tcpQueuereceivepacket tcb packet around.allocated = .ok result) : ¬ failure.OnReceive := by
  revert failed
  fun_cases Endpoint.tcpPacket before packet around with intro failed
  | case8 => exact handleclose_error failed
  | case12 _ _ _ _ _ state =>
    exact handledatareceive_error failed (queued (by rw [state]; trivial) _ (SameReceive.refl _))
  | case14 => exact handleack_error failed
  | case18 _ _ _ _ state moved =>
    apply handledatareceive_error (bind_pure_error failed)
    apply queued (by rw [state]; trivial)
    unfold moved
    split
    · exact ⟨rfl, rfl, rfl, rfl, rfl⟩
    · exact SameReceive.refl _
  | case19 _ _ _ state =>
    exact handledatareceive_error (bind_pure_error failed) (queued (by rw [state]; trivial) _ (SameReceive.refl _))
  | _ => cases failed

theorem tcpSend_error (failed : before.tcpSend data copied = .error failure) : ¬ failure.OnReceive := by
  revert failed
  fun_cases Endpoint.tcpSend before data copied with intro failed
  | case4 | case6 | case7 =>
    cases failed
    exact id
  | case8 => exact transmitnextsegment_error (bind_pure_error failed)
  | _ => cases failed

theorem tcpRecv_error (failed : before.tcpRecv count peek copied = .error failure) : ¬ failure.OnReceive := by
  revert failed
  fun_cases Endpoint.tcpRecv before count peek copied with intro failed
  | case5 | case6 =>
    cases failed
    exact id
  | _ => cases failed

end Failures

theorem step_safe {failure : Assertion} (steady : Steady total connection) (orderly : Orderly connection event)
    (failed : connection.step event = .error failure) : ¬ failure.OnReceive := by
  cases event with
  | send data copied => exact tcpSend_error (bind_pure_error failed)
  | recv count peek copied => exact tcpRecv_error (bind_pure_error failed)
  | packet packet around =>
    apply tcpPacket_error (bind_pure_error failed)
    intro receives tcb same
    have sound : Sound tcb total := (steady.window.same same).sound receives
    have uncrossed : Uncrossed tcb packet := (orderly.2 receives).same same
    obtain ⟨shouldack, after, queued, _⟩ := queuereceivepacket_ok sound orderly.1 uncrossed around.allocated
    exact ⟨_, queued⟩
  | timeout elapsedms stale around =>
    have failed := bind_pure_error failed
    unfold Endpoint.tcpTimeout at failed
    split at failed
    · cases failed
    · next gone => exact tcpPacket_error failed fun receives => absurd receives (gone_receives gone)
  | close =>
    have failed := bind_pure_error failed
    unfold Endpoint.tcpDestroy at failed
    split at failed
    · exact handleclose_error failed
    · cases failed

/-- A connection is opened by the host or by a peer whose SYN announces the whole window. -/
inductive OpensWide : Connection → Prop where
  | active (tcb : Tcb) (pristine : tcb.Pristine) (key : Connkey) (iss : Seq) (mtu : Nat) :
      OpensWide ⟨(⟨tcb, [], 0⟩ : Endpoint).sendSyn key iss mtu, [], []⟩
  | passive (parent : Nat) (key : Connkey) (header : Tcpheader) (wide : header.window = tcbRingbufferSize) (iss : Seq)
      (mtu newsendmss : Nat) : OpensWide ⟨Endpoint.sendSynack parent key header iss mtu newsendmss, [], []⟩

theorem OpensWide.opens (wide : OpensWide connection) : Opens connection := by
  cases wide with
  | active tcb pristine key iss mtu => exact .active tcb pristine key iss mtu
  | passive parent key header _ iss mtu newsendmss => exact .passive parent key header iss mtu newsendmss

theorem OpensWide.steady (wide : OpensWide connection) : Steady tcbRingbufferSize connection := by
  refine ⟨wide.opens.ordered, ?_⟩
  cases wide with
  | active tcb pristine key iss mtu => exact ⟨pristine.receivebuffer, pristine.receivequeue, rfl⟩
  | passive parent key header wide iss mtu newsendmss =>
    refine ⟨Held.nil _ _, ?_, le_rfl⟩
    change (BitVec.ofNat 32 header.window).toNat + 0 = tcbRingbufferSize
    rw [wide]
    rfl

/-- The window is the free space of the ring and is open if the ring is empty. -/
structure Accounted (connection : Connection) : Prop where
  sum : connection.tcb.state.Connected →
    connection.tcb.rcvwindow.toNat + connection.tcb.receivebuffer.length = tcbRingbufferSize
  advertised : connection.tcb.state.Connected → ∀ optionslen control urgentp,
    (tcpCreateheader connection.tcb optionslen control urgentp).window =
      tcbRingbufferSize - connection.tcb.receivebuffer.length
  unstuck : connection.tcb.state.Connected → connection.tcb.receivebuffer = [] → connection.tcb.rcvwindow ≠ 0

theorem Steady.accounted (steady : Steady tcbRingbufferSize connection) : Accounted connection := by
  have sum (connected : connection.tcb.state.Connected) := steady.window.adds connected
  have size : tcbRingbufferSize = 65535 := rfl
  constructor
  · exact sum
  · intro connected optionslen control urgentp
    have sum := sum connected
    change connection.tcb.rcvwindow.toNat % 2 ^ 16 = _
    omega
  · intro connected empty closed
    have sum := sum connected
    rw [empty, closed] at sum
    cases sum

/-- The window is accounted for, and no assertion on the receive side can fail. -/
theorem window_accounted {start connection : Connection} (opens : OpensWide start)
    (reached : Reaches Connection.step Orderly start connection) :
    Accounted connection ∧ ∀ event failure, Orderly connection event → connection.step event = .error failure →
      ¬ failure.OnReceive := by
  have steady : Steady tcbRingbufferSize connection :=
    Reaches.keeps (Steady tcbRingbufferSize) (fun _ _ _ steady orderly ran => step_steady orderly ran steady) reached
      opens.steady
  exact ⟨steady.accounted, fun event failure orderly failed => step_safe steady orderly failed⟩

/-- A peer that closes its own window is answered. -/
def answeredZero : Connection :=
  ⟨Endpoint.sendSynack 0 ⟨1, 80, 5000⟩ ⟨80, 5000, 7, 0, 0x50, controlSyn, 0, 0⟩ 100 1500 536, [], []⟩

/-- The window of an accepted connection is the one of the peer, so that it stays closed with an empty ring. -/
theorem peerWindow_stuck : ∃ start connection, Opens start ∧
    Reaches Connection.step (fun _ _ => True) start connection ∧ connection.tcb.state = .estabilished ∧
      connection.tcb.receivebuffer = [] ∧ connection.tcb.rcvwindow = 0 ∧ ¬ Accounted connection := by
  let handshake : List TcbEvent := [.packet (ackPacket 8 101) plainSurroundings]
  refine ⟨answeredZero, answeredZero.after handshake, .passive _ _ _ _ _ _, ?_, rfl, rfl, rfl, ?_⟩
  · exact Reaches.of_foldlM handshake (fun _ _ _ => trivial) rfl
  · intro accounted
    exact accounted.unstuck trivial rfl rfl

/-- Three bytes arrive after the handshake. -/
def delivery : List TcbEvent :=
  [.packet (ackPacket 8 101) plainSurroundings,
    .packet ⟨⟨80, 5000, 8, 101, 0x50, controlAck, 65535, 0⟩, List.replicate 23 0⟩ plainSurroundings]

theorem delivery_accounted : (answeredSyn.after delivery).tcb.receivebuffer = List.replicate 3 0 ∧
    Accounted (answeredSyn.after delivery) := by
  refine ⟨rfl, ?_⟩
  refine (window_accounted (OpensWide.passive 0 ⟨1, 80, 5000⟩ ⟨80, 5000, 7, 0, 0x50, controlSyn, 65535, 0⟩ rfl 100 1500
    536) ?_).1
  apply Reaches.of_foldlM delivery
  · intro event member state
    rcases List.mem_cons.mp member with rfl | member
    · exact ⟨⟨by decide, by decide⟩, fun _ _ crosses => absurd crosses (by decide)⟩
    · rw [List.mem_singleton.mp member]
      exact ⟨⟨by decide, by decide⟩, fun _ _ crosses => absurd crosses (by decide)⟩
  · rfl

end Astral.Net
