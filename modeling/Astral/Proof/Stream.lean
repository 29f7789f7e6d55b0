import Astral.Proof.Window

namespace Astral.Net

open Io (Byte)
open Library

variable {front stream : List Byte} {packet : Packet} {connection : Connection}

/-- The bytes that were written to the receive ring since the connection was opened. -/
def Connection.delivered (connection : Connection) : List Byte := connection.taken ++ connection.tcb.receivebuffer

theorem append_begins {more : List Byte} (begins : front <+: stream) (follows : more <+: stream.drop front.length) :
    front ++ more <+: stream := by
  obtain ⟨tail, rfl⟩ := begins
  rw [List.drop_left] at follows
  exact (List.prefix_append_right_inj front).mpr follows

/-- The place of a segment in the stream is the one that its sequence number says. -/
structure Placed (stream : List Byte) (origin : Seq) (delivered start : Nat) (seq : Seq) (data : List Byte) : Prop where
  number : seq = origin + BitVec.ofNat 32 start
  bytes : data <+: stream.drop start
  inside : start + data.length ≤ stream.length
  recent : delivered ≤ start + 2 ^ 31
  near : start ≤ delivered + 2 ^ 31

section Places

variable {data : List Byte} {origin seq : Seq} {delivered start : Nat}

/-- A segment that starts at the next sequence number continues the stream. -/
theorem Placed.next (placed : Placed stream origin delivered start seq data)
    (order : seq = origin + BitVec.ofNat 32 delivered) : start = delivered := by
  have recent := placed.recent
  have near := placed.near
  have same := placed.number
  rw [order] at same
  have values := congrArg (fun value : Seq => (value - origin).toNat) same
  simp only [BitVec.toNat_sub, BitVec.toNat_add, BitVec.toNat_ofNat] at values
  omega

/-- A segment in the window is ahead of the delivered bytes by its distance. -/
theorem Placed.ahead (placed : Placed stream origin delivered start seq data)
    (inside : distance (origin + BitVec.ofNat 32 delivered) seq < 2 ^ 16) :
    start = delivered + distance (origin + BitVec.ofNat 32 delivered) seq := by
  have recent := placed.recent
  have near := placed.near
  rw [placed.number] at inside ⊢
  unfold distance at inside ⊢
  simp only [BitVec.toNat_sub, BitVec.toNat_add, BitVec.toNat_ofNat] at inside ⊢
  omega

end Places

/-- The delivered bytes begin the stream, and the queue holds later parts of it. -/
structure Streamed (stream taken : List Byte) (tcb : Tcb) : Prop where
  begins : taken ++ tcb.receivebuffer <+: stream
  next : tcb.rcvnext = tcb.irs + 1 + BitVec.ofNat 32 (taken ++ tcb.receivebuffer).length
  queue : ∀ queued ∈ tcb.receivequeue, queued.data <+:
    stream.drop ((taken ++ tcb.receivebuffer).length + distance tcb.rcvnext queued.tcpheader.seq)

section Queueing

variable {taken : List Byte} {tcb after : Tcb} {start total : Nat}

/-- Segments that follow one another continue the stream. -/
theorem Contiguous.begins {rcvnext : Seq} {flushed : List Queuedpacket} {stop : Nat}
    (contiguous : Contiguous rcvnext flushed front.length stop) (begins : front <+: stream)
    (parts : ∀ queued ∈ flushed, queued.data <+: stream.drop (distance rcvnext queued.tcpheader.seq)) :
    front ++ flushed.flatMap (·.data) <+: stream := by
  induction flushed generalizing front with
  | nil => simpa using begins
  | cons queued rest ih =>
    have part := parts queued List.mem_cons_self
    rw [contiguous.1] at part
    rw [List.flatMap_cons, ← List.append_assoc]
    apply ih
    · rw [List.length_append]
      exact contiguous.2
    · exact append_begins begins part
    · exact fun other member => parts other (List.mem_cons_of_mem _ member)

theorem Streamed.cleared (streamed : Streamed stream taken tcb) (packet : Packet) :
    ∀ queued ∈ tcb.cleared packet, queued.data <+:
      stream.drop ((taken ++ tcb.receivebuffer).length + distance tcb.rcvnext queued.tcpheader.seq) :=
  fun queued member => streamed.queue queued ((tcb.cleared_sublist packet).subset member)

/-- Queueing a part of the stream keeps the order, whatever the arrival. -/
theorem Queueing.streamed (queueing : Queueing tcb packet after) (sound : Sound tcb total) (sized : packet.Sized)
    (uncrossed : Uncrossed tcb packet) (streamed : Streamed stream taken tcb)
    (placed : packet.datalen ≠ 0 → ∃ start, Placed stream (tcb.irs + 1) (taken ++ tcb.receivebuffer).length start
      packet.header.seq packet.data) : Streamed stream taken after := by
  cases queueing with
  | dropped _ => exact streamed
  | @taken inside order flushed rest stop result =>
    have window := sound.window
    have fits := inside.fits
    have length := sized.data_length (by omega)
    obtain ⟨start, placed⟩ := placed inside.some
    have here : start = (taken ++ tcb.receivebuffer).length := placed.next (by rw [order, ← streamed.next])
    have first := placed.bytes
    rw [here] at first
    have parts : ∀ queued ∈ flushed, queued.data <+:
        (stream.drop (taken ++ tcb.receivebuffer).length).drop (distance tcb.rcvnext queued.tcpheader.seq) := by
      intro queued member
      rw [List.drop_drop]
      apply streamed.cleared packet queued
      rw [result.parts]
      exact List.mem_append_left _ member
    have contiguous : Contiguous tcb.rcvnext flushed packet.data.length stop := by
      rw [length]
      exact result.contiguous
    have grown : taken ++ (tcb.receivebuffer ++ packet.data ++ flushed.flatMap (·.data)) =
        taken ++ tcb.receivebuffer ++ (packet.data ++ flushed.flatMap (·.data)) := by
      simp only [List.append_assoc]
    have longer := congrArg List.length grown
    rw [@List.length_append _ (_ ++ _) (_ ++ _), @List.length_append _ packet.data, contiguous.length] at longer
    constructor
    · change taken ++ (_ ++ _) <+: stream
      rw [grown]
      exact append_begins streamed.begins (contiguous.begins first parts)
    · change tcb.rcvnext + BitVec.ofNat 32 stop = tcb.irs + 1 + BitVec.ofNat 32 _
      rw [longer, BitVec.ofNat_add, streamed.next, BitVec.add_assoc]
    · intro queued member
      change queued.data <+: stream.drop (_ + distance (tcb.rcvnext + BitVec.ofNat 32 stop) queued.tcpheader.seq)
      have past := result.past queued member
      rw [longer, distance_shift past, Nat.add_assoc, Nat.add_sub_cancel' past]
      apply streamed.cleared packet queued
      rw [result.parts]
      exact List.mem_append_right _ member
  | queued inside later =>
    obtain ⟨start, placed⟩ := placed inside.some
    have within := (inside.within sized uncrossed sound.window).inside
    have window := sound.window
    have next := streamed.next
    refine ⟨streamed.begins, streamed.next, ?_⟩
    intro queued member
    rcases List.mem_cons.mp ((insertReceivequeue_perm _ _ _).mem_iff.mp member) with rfl | old
    · change packet.data <+: stream.drop (_ + distance tcb.rcvnext packet.header.seq)
      have ahead := placed.ahead (by rw [← next]; simp only at within; omega)
      rw [← next] at ahead
      rw [← ahead]
      exact placed.bytes
    · exact streamed.cleared packet queued old
  | forgotten inside later => exact ⟨streamed.begins, streamed.next, streamed.cleared packet⟩

/-- A FIN that follows the delivered bytes is handled after the last byte has been written. -/
theorem Queueing.finished (queueing : Queueing tcb packet after) (sound : Sound tcb total) (sized : packet.Sized)
    (kept : Streamed stream taken after)
    (last : start + packet.data.length = stream.length) (placed : Placed stream (tcb.irs + 1)
      (taken ++ tcb.receivebuffer).length start packet.header.seq packet.data) (streamed : Streamed stream taken tcb)
    (order : (taken ++ tcb.receivebuffer).length = stream.length ∨
      start = (taken ++ tcb.receivebuffer).length ∧ packet.datalen ≤ tcb.rcvwindow.toNat) :
    taken ++ after.receivebuffer = stream := by
  apply kept.begins.eq_of_length_le
  have window := sound.window
  have nothing (empty : packet.datalen = 0) : packet.data.length = 0 := by
    rw [sized.data_length (by omega), empty]
  have inside (first : start = (taken ++ tcb.receivebuffer).length) (fits : packet.datalen ≤ tcb.rcvwindow.toNat)
      (some : packet.datalen ≠ 0) : InWindow tcb packet ∧ packet.header.seq = tcb.rcvnext := by
    have seq : packet.header.seq = tcb.rcvnext := by
      rw [placed.number, first, streamed.next]
    refine ⟨⟨fits, some, ?_⟩, seq⟩
    have range := @seqinrange_inside tcb.rcvnext 0 packet.datalen 0 tcb.rcvwindow.toNat le_rfl
      (Nat.pos_of_ne_zero some) fits (by omega)
    rw [seq]
    simpa using range
  cases queueing with
  | dropped outside =>
    rcases order with all | ⟨first, fits⟩
    · omega
    · by_cases some : packet.datalen = 0
      · omega
      · exact absurd (inside first fits some).1 outside
  | @taken within order' flushed rest stop result =>
    change stream.length ≤ (taken ++ (tcb.receivebuffer ++ packet.data ++ flushed.flatMap (·.data))).length
    simp only [List.length_append] at order ⊢
    omega
  | queued within later | forgotten within later =>
    rcases order with all | ⟨first, fits⟩
    · exact le_of_eq all.symm
    · exact absurd (inside first fits within.some).2 later

end Queueing

/-- What holds of the delivered bytes in a state. -/
def StreamIn (stream taken : List Byte) (tcb : Tcb) : TcbState → Prop
  | .synsent => taken ++ tcb.receivebuffer = []
  | .synreceived | .estabilished | .finwait1 | .finwait2 => Streamed stream taken tcb
  | .closewait | .closing | .lastack | .timewait => taken ++ tcb.receivebuffer = stream
  | .abort | .closed | .listen => taken ++ tcb.receivebuffer <+: stream

section States

variable {taken : List Byte} {tcb after : Tcb} {state next : TcbState}

section

variable (streams : StreamIn stream taken tcb state)
include streams

theorem StreamIn.begins : taken ++ tcb.receivebuffer <+: stream := by
  cases state with
  | synsent =>
    have empty : taken ++ tcb.receivebuffer = [] := streams
    rw [empty]
    exact List.nil_prefix
  | synreceived | estabilished | finwait1 | finwait2 => exact Streamed.begins streams
  | closewait | closing | lastack | timewait =>
    have all : taken ++ tcb.receivebuffer = stream := streams
    rw [all]
  | abort | closed | listen => exact streams

/-- Bytes may move from the ring to the caller. -/
theorem StreamIn.alike {later : List Byte} (delivered : later ++ after.receivebuffer = taken ++ tcb.receivebuffer)
    (queue : after.receivequeue = tcb.receivequeue) (next : after.rcvnext = tcb.rcvnext) (irs : after.irs = tcb.irs) :
    StreamIn stream later after state := by
  have streamed (streamed : Streamed stream taken tcb) : Streamed stream later after := by
    constructor
    · rw [delivered]
      exact streamed.begins
    · rw [next, irs, delivered]
      exact streamed.next
    · rw [queue, delivered, next]
      exact streamed.queue
  cases state with
  | synreceived | estabilished | finwait1 | finwait2 => exact streamed streams
  | synsent | closewait | closing | lastack | timewait | abort | closed | listen =>
    unfold StreamIn at streams ⊢
    rw [delivered]
    exact streams

theorem StreamIn.same (same : SameReceive tcb after) : StreamIn stream taken after state :=
  streams.alike (by rw [same.receivebuffer]) same.receivequeue same.rcvnext same.irs

theorem StreamIn.streamed (receives : state.Receives) : Streamed stream taken tcb := by
  cases state with
  | estabilished | finwait1 | finwait2 => exact streams
  | abort | closed | listen | synsent | synreceived | closewait | closing | lastack | timewait =>
    exact absurd receives id

omit streams in
theorem StreamIn.accepting (streamed : Streamed stream taken tcb) (accepts : Accepts state next) :
    StreamIn stream taken tcb state := by
  cases accepts with
  | opened | closed | acked => exact streamed

omit streams in
theorem StreamIn.finished (all : taken ++ tcb.receivebuffer = stream) (accepts : Accepts state next) :
    StreamIn stream taken { tcb with state := next, rcvnext := tcb.rcvnext + 1 } next := by
  cases accepts with
  | opened | closed | acked => exact all

end

theorem streamIn_kept : KeptAside (StreamIn stream taken) where
  same := StreamIn.same
  aborted := StreamIn.begins
  closed streams moves := by
    rcases moves with rfl | rfl | ⟨rfl | rfl, rfl⟩ | ⟨rfl, rfl⟩
    · exact streams.begins
    all_goals exact streams
  accepted := id
  crossed := id

end States

/-- The packet is a segment of the stream, and its FIN follows the last byte. -/
structure Belongs (stream : List Byte) (origin : Seq) (delivered start : Nat) (packet : Packet) : Prop where
  placed : Placed stream origin delivered start packet.header.seq packet.data
  last : hasFlag packet.header.control controlFin = true → start + packet.data.length = stream.length

/-- A FIN arrives after all bytes before it, or with the last of them and within the window. -/
def FinInOrder (stream : List Byte) (delivered start window : Nat) (packet : Packet) : Prop :=
  hasFlag packet.header.control controlFin = true →
    delivered = stream.length ∨ start = delivered ∧ packet.datalen ≤ window

/-- A packet that carries data or a FIN is a segment of the stream and arrives with its FIN in order. -/
def Arrives (stream taken : List Byte) (tcb : Tcb) (packet : Packet) : Prop :=
  packet.datalen ≠ 0 ∨ hasFlag packet.header.control controlFin = true →
    ∃ start, Belongs stream (tcb.irs + 1) (taken ++ tcb.receivebuffer).length start packet ∧
      FinInOrder stream (taken ++ tcb.receivebuffer).length start tcb.rcvwindow.toNat packet

/-- The peer sends segments of one stream. -/
def InStream (stream : List Byte) (connection : Connection) : TcbEvent → Prop
  | .packet packet _ => connection.tcb.state.Receives → Arrives stream connection.taken connection.tcb packet
  | _ => True

section Steps

variable {taken : List Byte} {total : Nat} {before after : Endpoint}

theorem handledatareceive_stream {allocated : Bool} {finstate : TcbState}
    (ran : before.tcpHandledatareceive packet allocated finstate = .ok after)
    (accepts : Accepts before.tcb.state finstate) (ordered : Ordered before) (sound : Sound before.tcb total)
    (sized : packet.Sized) (uncrossed : Uncrossed before.tcb packet) (streamed : Streamed stream taken before.tcb)
    (arrives : Arrives stream taken before.tcb packet) : StreamIn stream taken after.tcb after.tcb.state := by
  apply streamIn_kept.datareceive ran accepts ordered sound sized uncrossed
  intro queued queueing
  have kept : Streamed stream taken queued := by
    apply queueing.streamed sound sized uncrossed streamed
    intro some
    obtain ⟨start, belongs, _⟩ := arrives (.inl some)
    exact ⟨start, belongs.placed⟩
  refine ⟨StreamIn.accepting kept accepts, fun fin => ?_⟩
  obtain ⟨start, belongs, order⟩ := arrives (.inr fin)
  have all := queueing.finished sound sized kept (belongs.last fin) belongs.placed streamed (order fin)
  exact StreamIn.finished all accepts

theorem packet_stream {around : Surroundings} (step : PacketStep before packet around after) (ordered : Ordered before)
    (window : WindowIn total before.tcb before.tcb.state) (sized : packet.Sized)
    (uncrossed : before.tcb.state.Receives → Uncrossed before.tcb packet)
    (streams : StreamIn stream taken before.tcb before.tcb.state)
    (arrives : before.tcb.state.Receives → Arrives stream taken before.tcb packet) :
    StreamIn stream taken after.tcb after.tcb.state := by
  apply streamIn_kept.packetStep streams step ordered
  · intro state
    rw [state] at window streams
    have empty : taken ++ before.tcb.receivebuffer = [] := streams
    constructor
    · change taken ++ before.tcb.receivebuffer <+: stream
      rw [empty]
      exact List.nil_prefix
    · change packet.header.seq + 1 = packet.header.seq + 1 + BitVec.ofNat 32 (taken ++ before.tcb.receivebuffer).length
      rw [empty]
      exact (BitVec.add_zero _).symm
    · intro queued member
      change queued ∈ before.tcb.receivequeue at member
      rw [window.2.1] at member
      cases member
  · intro receives middle after finstate same accepts middleOrdered handled
    refine handledatareceive_stream handled accepts middleOrdered ((window.same same).sound receives) sized
      ((uncrossed receives).same same) ((streams.same same).streamed receives) ?_
    rw [Arrives, same.irs, same.receivebuffer, same.rcvwindow]
    exact arrives receives

theorem recv_stream {count : Nat} {peek : Bool} {copied : Copied} {error : Option SockError} {bytes : List Byte}
    (ran : before.tcpRecv count peek copied = .ok (error, bytes, after))
    (streams : StreamIn stream taken before.tcb before.tcb.state) :
    StreamIn stream (taken ++ if peek then [] else bytes) after.tcb after.tcb.state := by
  rcases tcpRecv_cases ran with ⟨rfl, nothing⟩ | ⟨kept, copycount, fits, copied, _, same⟩
  · have none : (if peek then [] else bytes) = [] := by
      rcases nothing with peeked | empty
      · rw [if_pos peeked]
      · rw [empty, ite_self]
    rw [none, List.append_nil]
    exact streams
  · rw [kept, if_neg (by decide), copied, same]
    apply streams.alike
    · change taken ++ before.tcb.receivebuffer.take copycount ++ before.tcb.receivebuffer.drop copycount = _
      rw [List.append_assoc, List.take_append_drop]
    all_goals rfl

end Steps

/-- The window and the stream are in order. -/
structure Streaming (stream : List Byte) (total : Nat) (connection : Connection) : Prop where
  steady : Steady total connection
  streams : StreamIn stream connection.taken connection.tcb connection.tcb.state

theorem step_streaming {total : Nat} {next : Connection} {event : TcbEvent} (orderly : Orderly connection event)
    (inStream : InStream stream connection event) (ran : connection.step event = .ok next)
    (streaming : Streaming stream total connection) : Streaming stream total next := by
  refine ⟨step_steady orderly ran streaming.steady, ?_⟩
  obtain ⟨⟨ordered, window⟩, streams⟩ := streaming
  cases Connection.step_moves ran with
  | @send _ _ _ _ after sent =>
    obtain ⟨same, state⟩ := send_receive sent
    change StreamIn stream connection.taken after.tcb after.tcb.state
    rw [state]
    exact streams.same same
  | recv received => exact recv_stream received streams
  | packet handled =>
    exact packet_stream handled ordered window orderly.1 orderly.2 streams inStream
  | timeout expired => exact streamIn_kept.timeout streams expired ordered
  | close closed => exact streamIn_kept.close streams closed
  | gone => exact streams

theorem Opens.streaming (opens : Opens connection) (sized : connection.tcb.rcvwindow.toNat ≤ tcbRingbufferSize)
    (stream : List Byte) : ∃ total, Streaming stream total connection := by
  have ordered := opens.ordered
  cases opens with
  | active tcb pristine key iss mtu =>
    refine ⟨tcbRingbufferSize, ⟨ordered, pristine.receivebuffer, pristine.receivequeue, rfl⟩, ?_⟩
    change [] ++ tcb.receivebuffer = []
    rw [pristine.receivebuffer, List.append_nil]
  | passive parent key header iss mtu newsendmss =>
    refine ⟨_, ⟨ordered, Held.nil _ _, rfl, sized⟩, List.nil_prefix, ?_, ?_⟩
    · exact (BitVec.add_zero _).symm
    · intro queued member
      cases member

/-- The peer has closed the connection and its FIN has been handled. -/
def TcbState.FinReceived : TcbState → Prop
  | .closewait | .closing | .timewait => True
  | _ => False

/-- The bytes are delivered in order, and the end of the stream is signalled at its end. -/
theorem stream_delivered {stream : List Byte} {start connection : Connection} (opens : Opens start)
    (sized : start.tcb.rcvwindow.toNat ≤ tcbRingbufferSize)
    (reached : Reaches Connection.step (fun connection event => Orderly connection event ∧
      InStream stream connection event) start connection) :
    connection.delivered <+: stream ∧ (connection.tcb.state.FinReceived → connection.delivered = stream) := by
  obtain ⟨total, begins⟩ := opens.streaming sized stream
  have streaming : Streaming stream total connection := Reaches.keeps (Streaming stream total)
      (fun _ _ _ streaming allowed ran => step_streaming allowed.1 allowed.2 ran streaming) reached begins
  refine ⟨streaming.streams.begins, ?_⟩
  intro received
  have streams := streaming.streams
  change connection.taken ++ connection.tcb.receivebuffer = stream
  generalize connection.tcb.state = state at received streams
  cases state with
  | closewait | closing | timewait => exact streams
  | abort | closed | listen | synsent | synreceived | estabilished | finwait1 | finwait2 | lastack =>
    exact absurd received id

/-- The packets that carry data or a FIN are segments of the stream, in any order. -/
def Segments (stream : List Byte) (connection : Connection) : TcbEvent → Prop
  | .packet packet _ => connection.tcb.state.Receives →
      packet.datalen ≠ 0 ∨ hasFlag packet.header.control controlFin = true →
        ∃ start, Belongs stream (connection.tcb.irs + 1) connection.delivered.length start packet
  | _ => True

/-- The handshake is acknowledged. -/
def shaken : Connection := answeredSyn.after [.packet (ackPacket 8 101) plainSurroundings]

/-- The peer sends some bytes and its FIN. -/
def finPacket (seq : Seq) (data : List Byte) : Packet :=
  ⟨⟨80, 5000, seq, 101, 0x50, controlFin ||| controlAck, 65535, 0⟩, List.replicate 20 0 ++ data⟩

/-- The second of two bytes arrives first with the FIN, and the stream is over before the first byte is there. -/
theorem earlyFin_undelivered : ∃ stream start connection, Opens start ∧
    Reaches Connection.step (fun connection event => Segments stream connection event) start connection ∧
      connection.tcb.state.FinReceived ∧ connection.delivered ≠ stream := by
  refine ⟨[65, 66], answeredSyn, shaken.after [.packet (finPacket 9 [66]) plainSurroundings], .passive _ _ _ _ _ _, ?_,
    trivial, by decide⟩
  have handshake : Reaches Connection.step (fun connection event => Segments [65, 66] connection event)
      answeredSyn shaken := by
    apply Relation.ReflTransGen.single
    exact ⟨.packet (ackPacket 8 101) plainSurroundings, fun receives => absurd receives id, rfl⟩
  refine Relation.ReflTransGen.tail handshake ⟨.packet (finPacket 9 [66]) plainSurroundings, ?_, rfl⟩
  intro _ _
  refine ⟨1, ⟨rfl, ?_, ?_, ?_, ?_⟩, fun _ => rfl⟩
  · exact List.prefix_rfl
  all_goals decide

theorem lastFin_delivered : (shaken.after [.packet (finPacket 8 [65, 66]) plainSurroundings]).tcb.state = .closewait ∧
      (shaken.after [.packet (finPacket 8 [65, 66]) plainSurroundings]).delivered = [65, 66] := by
  refine ⟨rfl, ?_⟩
  refine (@stream_delivered [65, 66] answeredSyn _ (.passive _ _ _ _ _ _) (by decide) ?_).2 trivial
  have handshake : Reaches Connection.step (fun connection event => Orderly connection event ∧
      InStream [65, 66] connection event) answeredSyn shaken := by
    apply Relation.ReflTransGen.single
    refine ⟨.packet (ackPacket 8 101) plainSurroundings, ⟨⟨⟨by decide, by decide⟩, ?_⟩, ?_⟩, rfl⟩
    all_goals exact fun receives => absurd receives id
  refine Relation.ReflTransGen.tail handshake ⟨.packet (finPacket 8 [65, 66]) plainSurroundings, ⟨?_, ?_⟩, rfl⟩
  · exact ⟨⟨by decide, by decide⟩, fun _ _ crosses => absurd crosses (by decide)⟩
  · intro _ _
    refine ⟨0, ⟨⟨rfl, List.prefix_rfl, ?_, ?_, ?_⟩, fun _ => rfl⟩, fun _ => .inr ⟨rfl, ?_⟩⟩
    all_goals decide

end Astral.Net
