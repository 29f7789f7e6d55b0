import Astral.Proof.Retransmission

namespace Astral.Net

open Io (Byte)
open Library

variable {state : TcbState} {seq : Seq} {data : List Byte} {header : Tcpheader} {packet : Packet} {allocated : Bool}
  {finstate : TcbState} {around : Surroundings} {connection : Connection}

/-- The state diagram of the protocol has these edges, and a reset leaves every state. -/
inductive Edge : TcbState → TcbState → Prop where
  | reset (state : TcbState) : Edge state .abort
  | unlisten : Edge .listen .closed
  | connect : Edge .synsent .estabilished
  | unconnect : Edge .synsent .closed
  | accept : Edge .synreceived .estabilished
  | acceptClose : Edge .synreceived .finwait1
  | close : Edge .estabilished .finwait1
  | peerClose : Edge .estabilished .closewait
  | lateClose : Edge .closewait .lastack
  | acked : Edge .finwait1 .finwait2
  | crossed : Edge .finwait1 .closing
  | peerDone : Edge .finwait2 .timewait
  | bothDone : Edge .closing .timewait
  | lastAcked : Edge .lastack .closed
  | expired : Edge .timewait .closed

/-- The diagram leads from one state to the other. -/
def Leads : TcbState → TcbState → Prop := Relation.ReflTransGen Edge

theorem Leads.edge {before after : TcbState} (edge : Edge before after) : Leads before after :=
  Relation.ReflTransGen.single edge

/-- Our FIN is acknowledged in these states, and the connection is over in the last two. -/
def TcbState.FinAcked : TcbState → Prop
  | .finwait2 | .timewait | .closed | .abort => True
  | _ => False

/-- We closed the connection first. -/
def TcbState.WeClosed : TcbState → Prop
  | .finwait1 | .finwait2 | .closing | .timewait => True
  | _ => False

theorem finAcked_edge {before after : TcbState} (edge : Edge before after) (acked : before.FinAcked) :
    after.FinAcked := by
  cases edge <;> first | exact acked | trivial

theorem finAcked_leads {before after : TcbState} (leads : Leads before after) (acked : before.FinAcked) :
    after.FinAcked := by
  induction leads with
  | refl => exact acked
  | tail _ edge ih => exact finAcked_edge edge ih

/-- Every FIN that the endpoint sent or would send again has the sequence number. -/
structure FinAt (endpoint : Endpoint) (seq : Seq) : Prop where
  sent : ∀ frame ∈ endpoint.sent, frame.isFin = true → frame.header.seq = seq
  kept : hasFlag endpoint.tcb.retransmitheader.control controlFin = true → endpoint.tcb.retransmitheader.seq = seq

/-- The endpoint has not sent a FIN. -/
structure NoFin (endpoint : Endpoint) : Prop where
  sent : ∀ frame ∈ endpoint.sent, frame.isFin = false
  kept : hasFlag endpoint.tcb.retransmitheader.control controlFin = false

/-- A connection is not closed while its ring holds data, unless the peer has closed it before. -/
def ClosesDrained (connection : Connection) : TcbEvent → Prop
  | .close => connection.tcb.state = .estabilished → connection.tcb.transmitbuffer = []
  | _ => True

/-- What holds of the FIN in a state. -/
def OrderedIn (endpoint : Endpoint) : TcbState → Prop
  | .synsent | .synreceived =>
    endpoint.tcb.shouldclose = false ∧ endpoint.tcb.transmitbuffer = [] ∧ NoFin endpoint
  | .estabilished => endpoint.tcb.shouldclose = false ∧ NoFin endpoint
  | .closewait => NoFin endpoint
  | .finwait1 | .closing =>
    endpoint.tcb.shouldclose = false ∧ endpoint.tcb.transmitbuffer = [] ∧ FinAt endpoint endpoint.tcb.sndnext
  | .lastack => endpoint.tcb.transmitbuffer = [] ∧ FinAt endpoint endpoint.tcb.sndnext
  | .finwait2 | .timewait =>
    endpoint.tcb.shouldclose = false ∧ endpoint.tcb.transmitbuffer = [] ∧ FinAt endpoint (endpoint.tcb.sndnext - 1)
  | .abort | .closed | .listen =>
    ∃ seq, FinAt endpoint seq ∧ (endpoint.tcb.sndnext = seq ∨ endpoint.tcb.sndnext = seq + 1)

def Ordered (endpoint : Endpoint) : Prop := OrderedIn endpoint endpoint.tcb.state

section Frames

variable {before after : Endpoint}

theorem NoFin.finAt (none : NoFin before) (seq : Seq) : FinAt before seq := by
  constructor
  · intro frame member fin
    rw [none.sent frame member] at fin
    cases fin
  · intro fin
    rw [none.kept] at fin
    cases fin

/-- The endpoint has sent more frames, and only its retransmit buffer may be a FIN among them. -/
def SentAlike (before after : Endpoint) : Prop :=
  ∃ frames, after.sent = before.sent ++ frames ∧
    ∀ frame ∈ frames, frame.isFin = false ∨ frame.header = before.tcb.retransmitheader

theorem SentMore.alike (more : SentMore before after) : SentAlike before after := by
  obtain ⟨frames, sent, others⟩ := more
  exact ⟨frames, sent, fun frame member => .inl (others frame member)⟩

theorem SentAlike.silent (sent : after.sent = before.sent) : SentAlike before after :=
  ⟨[], by rw [sent, List.append_nil], by simp⟩

theorem SentAlike.again (sent : after.sent = before.sent ++ [before.tcb.retransmitFrame]) : SentAlike before after := by
  refine ⟨[before.tcb.retransmitFrame], sent, ?_⟩
  intro frame member
  rw [List.mem_singleton.mp member]
  exact .inr rfl

theorem NoFin.more (none : NoFin before) (more : SentAlike before after)
    (same : after.tcb.retransmitheader = before.tcb.retransmitheader) : NoFin after := by
  obtain ⟨frames, sent, others⟩ := more
  constructor
  · intro frame member
    rw [sent] at member
    rcases List.mem_append.mp member with early | late
    · exact none.sent frame early
    · rcases others frame late with other | again
      · exact other
      · rw [Frame.isFin, again]
        exact none.kept
  · rw [same]
    exact none.kept

theorem FinAt.more (at_ : FinAt before seq) (more : SentAlike before after)
    (same : after.tcb.retransmitheader = before.tcb.retransmitheader) : FinAt after seq := by
  obtain ⟨frames, sent, others⟩ := more
  constructor
  · intro frame member fin
    rw [sent] at member
    rcases List.mem_append.mp member with early | late
    · exact at_.sent frame early fin
    · rcases others frame late with other | again
      · rw [other] at fin
        cases fin
      · rw [Frame.isFin, again] at fin
        rw [again]
        exact at_.kept fin
  · rw [same]
    exact at_.kept

/-- The acknowledgement of the FIN consumes its sequence number. -/
theorem FinAt.consumed (at_ : FinAt before seq) (more : SentAlike before after)
    (same : after.tcb.retransmitheader = before.tcb.retransmitheader) (next : after.tcb.sndnext = seq + 1) :
    FinAt after (after.tcb.sndnext - 1) := by
  rw [next, BitVec.add_sub_cancel]
  exact at_.more more same

/-- The block is the same as far as the FIN is concerned. -/
structure SameFin (before after : Endpoint) : Prop where
  more : SentAlike before after
  header : after.tcb.retransmitheader = before.tcb.retransmitheader
  shouldclose : after.tcb.shouldclose = before.tcb.shouldclose
  transmitbuffer : after.tcb.transmitbuffer = before.tcb.transmitbuffer
  sndnext : after.tcb.sndnext = before.tcb.sndnext

theorem OrderedIn.same (ordered : OrderedIn before state) (same : SameFin before after) : OrderedIn after state := by
  cases state with
  | synsent | synreceived =>
    exact ⟨by rw [same.shouldclose, ordered.1], by rw [same.transmitbuffer, ordered.2.1],
      NoFin.more ordered.2.2 same.more same.header⟩
  | estabilished => exact ⟨by rw [same.shouldclose, ordered.1], NoFin.more ordered.2 same.more same.header⟩
  | closewait => exact NoFin.more ordered same.more same.header
  | finwait1 | closing | finwait2 | timewait =>
    refine ⟨by rw [same.shouldclose, ordered.1], by rw [same.transmitbuffer, ordered.2.1], ?_⟩
    rw [same.sndnext]
    exact ordered.2.2.more same.more same.header
  | lastack =>
    refine ⟨by rw [same.transmitbuffer, ordered.1], ?_⟩
    rw [same.sndnext]
    exact ordered.2.more same.more same.header
  | abort | closed | listen =>
    obtain ⟨seq, at_, place⟩ := ordered
    refine ⟨seq, at_.more same.more same.header, ?_⟩
    rw [same.sndnext]
    exact place

theorem Ordered.stay (ordered : Ordered before) (same : SameFin before after)
    (stays : after.tcb.state = before.tcb.state) : Ordered after ∧ Leads before.tcb.state after.tcb.state := by
  rw [Ordered, stays]
  exact ⟨OrderedIn.same ordered same, .refl⟩

/-- Whatever the state, all FINs have one sequence number, and at most that one is consumed. -/
theorem OrderedIn.once (ordered : OrderedIn before state) :
    ∃ seq, FinAt before seq ∧ (NoFin before ∨ before.tcb.sndnext = seq ∨ before.tcb.sndnext = seq + 1) := by
  cases state with
  | synsent | synreceived => exact ⟨0, ordered.2.2.finAt 0, .inl ordered.2.2⟩
  | estabilished => exact ⟨0, ordered.2.finAt 0, .inl ordered.2⟩
  | closewait => exact ⟨0, NoFin.finAt ordered 0, .inl ordered⟩
  | finwait1 | closing => exact ⟨_, ordered.2.2, .inr (.inl rfl)⟩
  | lastack => exact ⟨_, ordered.2, .inr (.inl rfl)⟩
  | finwait2 | timewait => exact ⟨_, ordered.2.2, .inr (.inr (BitVec.sub_add_cancel _ _).symm)⟩
  | abort | closed | listen =>
    obtain ⟨seq, at_, place⟩ := ordered
    exact ⟨seq, at_, .inr place⟩

end Frames

section Steps

variable {before after : Endpoint}

theorem OrderedIn.over (ordered : OrderedIn before state) :
    ∃ seq, FinAt before seq ∧ (before.tcb.sndnext = seq ∨ before.tcb.sndnext = seq + 1) := by
  obtain ⟨seq, at_, none | place⟩ := ordered.once
  · exact ⟨_, none.finAt _, .inl rfl⟩
  · exact ⟨seq, at_, place⟩

theorem OrderedIn.weClosed (ordered : OrderedIn before state) (ours : state.WeClosed) :
    before.tcb.shouldclose = false ∧ before.tcb.transmitbuffer = [] := by
  cases state with
  | finwait1 | closing | finwait2 | timewait => exact ⟨ordered.1, ordered.2.1⟩
  | abort | closed | listen | synsent | synreceived | estabilished | closewait | lastack => exact absurd ours id

/-- The first FIN has the next sequence number. -/
theorem dofirstfin_at (none : NoFin before) : FinAt before.tcpDofirstfin before.tcb.sndnext := by
  constructor
  · intro frame member fin
    rcases List.mem_append.mp member with early | late
    · rw [none.sent frame early] at fin
      cases fin
    · rw [List.mem_singleton.mp late]
      rfl
  · intro _
    rfl

theorem dofirstfin_ordered (none : NoFin before) (ring : before.tcb.transmitbuffer = [])
    (state : before.tcb.shouldclose = false ∧
        (before.tcb.state = .estabilished ∨ before.tcb.state = .synreceived) ∨ before.tcb.state = .closewait) :
    Ordered before.tcpDofirstfin ∧ Leads before.tcb.state before.tcpDofirstfin.tcb.state := by
  have at_ := dofirstfin_at none
  unfold Ordered
  rcases state with ⟨stays, state⟩ | state
  · have next : before.tcpDofirstfin.tcb.state = .finwait1 := by
      change (if before.tcb.state = .closewait then TcbState.lastack else .finwait1) = _
      rcases state with state | state
      all_goals rw [state, if_neg (by decide)]
    rw [next]
    refine ⟨⟨stays, ring, at_⟩, ?_⟩
    rcases state with state | state
    · rw [state]
      exact Leads.edge .close
    · rw [state]
      exact Leads.edge .acceptClose
  · have next : before.tcpDofirstfin.tcb.state = .lastack := by
      change (if before.tcb.state = .closewait then TcbState.lastack else .finwait1) = _
      rw [if_pos state]
    rw [next, state]
    exact ⟨⟨ring, at_⟩, Leads.edge .lateClose⟩

/-- A data segment is not a FIN. -/
theorem transmitted_noFin (transmitted : Transmitted before after data) (none : NoFin before) : NoFin after := by
  have control : hasFlag after.tcb.retransmitheader.control controlFin = false := by
    rw [transmitted.header]
    change hasFlag (controlAck ||| controlPsh) controlFin = false
    decide
  constructor
  · intro frame member
    rw [transmitted.sent] at member
    rcases List.mem_append.mp member with early | late
    · exact none.sent frame early
    · rw [List.mem_singleton.mp late]
      exact control
  · exact control

/-- An acknowledgement only moves a connection that its peer has closed. -/
def AckMoves (before after : TcbState) : Prop := after = before ∨ before = .closewait ∧ after = .lastack

theorem AckMoves.leads {before after : TcbState} (moves : AckMoves before after) : Leads before after := by
  rcases moves with rfl | ⟨rfl, rfl⟩
  · exact .refl
  · exact Leads.edge .lateClose

theorem handleack_ordered (ran : before.tcpHandleack header = .ok after)
    (state : before.tcb.state = .estabilished ∨ before.tcb.state = .closewait ∨ before.tcb.state.WeClosed)
    (ordered : Ordered before) : Ordered after ∧ AckMoves before.tcb.state after.tcb.state := by
  unfold Ordered at ordered
  rcases handleack_cases ran with ⟨more, transmitted⟩ | ⟨ring, closes, rfl⟩ | ⟨ring, stays, rfl⟩
  · unfold Ordered
    rw [transmitted.state]
    refine ⟨?_, .inl rfl⟩
    rcases state with state | state | ours
    · rw [state] at ordered ⊢
      refine ⟨?_, transmitted_noFin transmitted ⟨ordered.2.sent, ordered.2.kept⟩⟩
      rw [transmitted.shouldclose]
      exact ordered.1
    · rw [state] at ordered ⊢
      exact transmitted_noFin transmitted ⟨ordered.sent, ordered.kept⟩
    · exact absurd (ordered.weClosed ours).2 more
  · rcases state with state | state | ours
    · rw [state] at ordered
      rw [ordered.1] at closes
      cases closes
    · rw [state] at ordered
      have none : NoFin { before with tcb := { before.tcb with sndunack := header.ack } } :=
        ⟨ordered.sent, ordered.kept⟩
      refine ⟨(dofirstfin_ordered none ring (.inr state)).1, .inr ⟨state, ?_⟩⟩
      change (if before.tcb.state = .closewait then TcbState.lastack else .finwait1) = _
      rw [if_pos state]
    · rw [(ordered.weClosed ours).1] at closes
      cases closes
  · exact ⟨ordered.same ⟨.silent rfl, rfl, rfl, rfl, rfl⟩, .inl rfl⟩

/-- Data is accepted in the first state, and a FIN leads to the second. -/
inductive Accepts : TcbState → TcbState → Prop where
  | opened : Accepts .estabilished .closewait
  | closed : Accepts .finwait1 .closing
  | acked : Accepts .finwait2 .timewait

section Accepts

variable {other : TcbState}

variable (accepts : Accepts state finstate)
include accepts

theorem Accepts.edge : Edge state finstate := by
  cases accepts with
  | opened => exact .peerClose
  | closed => exact .crossed
  | acked => exact .peerDone

theorem Accepts.ordered (ordered : OrderedIn before state) : OrderedIn before finstate := by
  cases accepts with
  | opened => exact ordered.2
  | closed | acked => exact ordered

theorem Accepts.known (which : other = finstate ∨ other = state) :
    other = .estabilished ∨ other = .closewait ∨ other.WeClosed := by
  cases accepts with
  | opened => exact which.symm.imp_right .inl
  | closed | acked =>
    rcases which with rfl | rfl
    all_goals exact .inr (.inr trivial)

end Accepts

/-- A data packet moves the connection along its FIN and then along its acknowledgement. -/
structure DataMoves (before after : Endpoint) (packet : Packet) (allocated : Bool) (finstate : TcbState)
    (shouldack : Bool) (queued middle : Tcb) : Prop where
  queue : tcpQueuereceivepacket before.tcb packet allocated = .ok (shouldack, queued)
  taken : middle = queued.taken packet finstate
  along : Leads before.tcb.state middle.state
  further : AckMoves middle.state after.tcb.state
  receive : SameReceive middle after.tcb

theorem handleack_receive (ran : before.tcpHandleack header = .ok after) : SameReceive before.tcb after.tcb := by
  rcases handleack_cases ran with ⟨_, transmitted⟩ | ⟨_, _, rfl⟩ | ⟨_, _, rfl⟩
  · have same := transmitted.receive
    exact ⟨same.receivebuffer, same.receivequeue, same.rcvnext, same.rcvwindow, same.irs⟩
  all_goals exact ⟨rfl, rfl, rfl, rfl, rfl⟩

theorem DataMoves.leads {shouldack : Bool} {queued middle : Tcb}
    (moves : DataMoves before after packet allocated finstate shouldack queued middle) :
    Leads before.tcb.state after.tcb.state := moves.along.trans moves.further.leads

variable (ordered : Ordered before)
include ordered

theorem handledatareceive_ordered (ran : before.tcpHandledatareceive packet allocated finstate = .ok after)
    (accepts : Accepts before.tcb.state finstate) : Ordered after ∧
      ∃ shouldack queued middle, DataMoves before after packet allocated finstate shouldack queued middle := by
  obtain ⟨shouldack, queued, middle, queue, middleTcb, more, result⟩ := handledatareceive_cases ran
  obtain ⟨same, state⟩ := queuereceivepacket_send queue
  have whole : SameSend before.tcb middle.tcb := by
    rw [middleTcb]
    exact same.trans (taken_send queued packet finstate)
  have sameFin : SameFin before middle :=
    ⟨more.alike, whole.header, whole.shouldclose, whole.transmitbuffer, whole.sndnext⟩
  have which : middle.tcb.state = finstate ∨ middle.tcb.state = before.tcb.state := by
    rw [middleTcb, ← state]
    exact taken_state queued packet finstate
  have middleOrdered : Ordered middle ∧ Leads before.tcb.state middle.tcb.state := by
    unfold Ordered
    rcases which with which | which
    · rw [which]
      exact ⟨(accepts.ordered ordered).same sameFin, Leads.edge accepts.edge⟩
    · rw [which]
      exact ⟨OrderedIn.same ordered sameFin, .refl⟩
  rcases result with rfl | ⟨_, _, handled⟩
  · exact ⟨middleOrdered.1, shouldack, queued, _, queue, middleTcb, middleOrdered.2, .inl rfl, SameReceive.refl _⟩
  · have updated : Ordered { middle with tcb := { middle.tcb with sndwindow := packet.header.window } } :=
      OrderedIn.same middleOrdered.1 ⟨.silent rfl, rfl, rfl, rfl, rfl⟩
    obtain ⟨final, moves⟩ := handleack_ordered handled (accepts.known which) updated
    have receive := handleack_receive handled
    exact ⟨final, shouldack, queued, middle.tcb, queue, middleTcb, middleOrdered.2, moves,
      receive.receivebuffer, receive.receivequeue, receive.rcvnext, receive.rcvwindow, receive.irs⟩

/-- A close of a drained connection keeps the order. -/
theorem handleclose_ordered (ran : before.tcpHandleclose = .ok after)
    (drained : before.tcb.state = .estabilished → before.tcb.transmitbuffer = []) :
    Ordered after ∧ Leads before.tcb.state after.tcb.state := by
  unfold Ordered at ordered
  rcases tcpHandleclose_cases ran with ⟨state, rfl⟩ | ⟨state, ⟨ring, rfl⟩ | ⟨more, rfl⟩⟩
  · refine ⟨?_, ?_⟩
    · obtain ⟨seq, at_, place⟩ := ordered.over
      exact ⟨seq, ⟨at_.sent, at_.kept⟩, place⟩
    · rcases state with state | state
      · rw [state]
        exact Leads.edge .unlisten
      · rw [state]
        exact Leads.edge .unconnect
  · rcases state with state | state | state
    · rw [state] at ordered
      exact dofirstfin_ordered ordered.2 ring (.inl ⟨ordered.1, .inl state⟩)
    · rw [state] at ordered
      exact dofirstfin_ordered ordered.2.2 ring (.inl ⟨ordered.1, .inr state⟩)
    · rw [state] at ordered
      exact dofirstfin_ordered ordered ring (.inr state)
  · rcases state with state | state | state
    · exact absurd (drained state) more
    · rw [state] at ordered
      exact absurd ordered.2.1 more
    · unfold Ordered
      rw [state] at ordered
      refine ⟨?_, .refl⟩
      change OrderedIn _ before.tcb.state
      rw [state]
      exact NoFin.mk ordered.sent ordered.kept

/-- A reset ends the connection. -/
theorem reset_ordered : Ordered before.tcpReset ∧ Leads before.tcb.state before.tcpReset.tcb.state := by
  obtain ⟨seq, at_, place⟩ := OrderedIn.over ordered
  exact ⟨⟨seq, ⟨at_.sent, at_.kept⟩, place⟩, Leads.edge (.reset _)⟩

omit ordered in
theorem armTimewait_ordered (ordered : Ordered after ∧ Leads before.tcb.state after.tcb.state) :
    Ordered after.armTimewait ∧ Leads before.tcb.state after.armTimewait.tcb.state := by
  unfold Endpoint.armTimewait
  split
  · exact ⟨OrderedIn.same ordered.1 ⟨.silent rfl, rfl, rfl, rfl, rfl⟩, ordered.2⟩
  · exact ordered

/-- The acknowledgement of the FIN leads to the state in which only the peer is open. -/
theorem finAcked_ordered (state : before.tcb.state = .finwait1)
    (entered : after = { before with tcb := { before.tcb with sndnext := before.tcb.sndnext + 1, state := .finwait2 } }) :
    Ordered after := by
  rw [Ordered, state] at ordered
  rw [entered]
  exact ⟨ordered.1, ordered.2.1, ordered.2.2.consumed (.silent rfl) rfl rfl⟩

theorem packet_ordered (step : PacketStep before packet around after) :
    Ordered after ∧ Leads before.tcb.state after.tcb.state := by
  have here : OrderedIn before before.tcb.state := ordered
  cases step with
  | reset _ => exact reset_ordered ordered
  | answered same more =>
    exact ordered.stay ⟨more.alike, by rw [same], by rw [same], by rw [same], by rw [same]⟩ (by rw [same])
  | repeated _ => exact ordered.stay ⟨.again rfl, rfl, rfl, rfl, rfl⟩ rfl
  | connected state _ =>
    rw [state] at here ⊢
    refine ⟨⟨here.1, ?_⟩, Leads.edge .connect⟩
    have none : NoFin { before with tcb := { before.tcb with state := .estabilished } } :=
      ⟨here.2.2.sent, here.2.2.kept⟩
    exact none.more (tcpAck_more _).alike rfl
  | @accepted state middle after entered closed =>
    rw [state] at here ⊢
    have middleOrdered : Ordered middle := by
      rw [entered]
      exact ⟨here.1, here.2.2.sent, here.2.2.kept⟩
    have leads : Leads .synreceived middle.tcb.state := by
      rw [entered]
      exact Leads.edge .accept
    rcases closed with rfl | ran
    · exact ⟨middleOrdered, leads⟩
    · have drained : middle.tcb.transmitbuffer = [] := by
        rw [entered]
        exact here.2.1
      obtain ⟨final, further⟩ := handleclose_ordered middleOrdered ran (fun _ => drained)
      exact ⟨final, leads.trans further⟩
  | data state handled =>
    obtain ⟨final, _, _, _, moves⟩ := handledatareceive_ordered ordered handled (by rw [state]; exact .opened)
    exact ⟨final, moves.leads⟩
  | acked state _ handled =>
    obtain ⟨final, moves⟩ := handleack_ordered handled (.inr (.inl state)) ordered
    exact ⟨final, moves.leads⟩
  | left state =>
    rw [state] at here ⊢
    exact ⟨⟨_, ⟨here.2.sent, here.2.kept⟩, .inl rfl⟩, Leads.edge .lastAcked⟩
  | @closing state middle finstate moved after handled =>
    apply armTimewait_ordered
    rcases moved with ⟨rfl, rfl⟩ | ⟨rfl, _, entered⟩
    · obtain ⟨final, _, _, _, moves⟩ := handledatareceive_ordered ordered handled (by rw [state]; exact .closed)
      exact ⟨final, moves.leads⟩
    · have middleState : middle.tcb.state = .finwait2 := by rw [entered]
      have middleOrdered := finAcked_ordered ordered state entered
      obtain ⟨final, _, _, _, moves⟩ :=
        handledatareceive_ordered middleOrdered handled (by rw [middleState]; exact .acked)
      refine ⟨final, Relation.ReflTransGen.head (b := .finwait2) ?_ ?_⟩
      · rw [state]
        exact .acked
      · rw [← middleState]
        exact moves.leads
  | closed state handled =>
    apply armTimewait_ordered
    obtain ⟨final, _, _, _, moves⟩ := handledatareceive_ordered ordered handled (by rw [state]; exact .acked)
    exact ⟨final, moves.leads⟩
  | crossed state same more =>
    rw [state] at here ⊢
    refine ⟨⟨?_, ?_, ?_⟩, Leads.edge .bothDone⟩
    · rw [same]
      exact here.1
    · rw [same]
      exact here.2.1
    · refine here.2.2.consumed ?_ ?_ rfl
      · exact more.alike
      · rw [same]

/-- A timeout sends the same frame again or resets the connection. -/
theorem timeout_ordered {elapsedms : Nat} {stale : Packet} (ran : before.tcpTimeout elapsedms stale around = .ok after) :
    Ordered after ∧ Leads before.tcb.state after.tcb.state := by
  rcases tcpTimeout_cases ran with rfl | ⟨currentrto, itimer, same, sent⟩ | ⟨_, handled⟩
  · exact reset_ordered ordered
  · have alike : SentAlike before after := by
      rcases sent with sent | sent
      · exact .silent sent
      · exact .again sent
    exact ordered.stay ⟨alike, by rw [same], by rw [same], by rw [same], by rw [same]⟩ (by rw [same])
  · exact packet_ordered ordered handled

theorem send_ordered {copied : Copied} {error : Option SockError} {count : Nat}
    (ran : before.tcpSend data copied = .ok (error, count, after)) :
    Ordered after ∧ Leads before.tcb.state after.tcb.state := by
  rcases tcpSend_cases ran with ⟨rfl, _⟩ | ⟨state, _, _, middle, entered, sent⟩
  · exact ⟨ordered, .refl⟩
  · have middleState : middle.tcb.state = .estabilished := by
      rw [entered]
      exact state
    have here : OrderedIn before .estabilished := by
      rw [← state]
      exact ordered
    have middleFacts : middle.tcb.shouldclose = false ∧ NoFin middle := by
      rw [entered]
      exact ⟨here.1, here.2.sent, here.2.kept⟩
    rcases sent with ⟨_, rfl⟩ | ⟨_, transmit⟩
    · rw [Ordered, middleState, state]
      exact ⟨middleFacts, .refl⟩
    · have transmitted := transmitnextsegment_ok transmit
      rw [Ordered, transmitted.state, middleState, state]
      refine ⟨⟨?_, transmitted_noFin transmitted middleFacts.2⟩, .refl⟩
      rw [transmitted.shouldclose, middleFacts.1]

end Steps

theorem step_ordered {next : Connection} {event : TcbEvent} (drained : ClosesDrained connection event)
    (ran : connection.step event = .ok next) (ordered : Ordered connection.endpoint) :
    Ordered next.endpoint ∧ Leads connection.tcb.state next.tcb.state := by
  cases Connection.step_moves ran with
  | send sent => exact send_ordered ordered sent
  | @recv _ _ _ _ _ after received =>
    rcases tcpRecv_cases received with ⟨rfl, _⟩ | ⟨_, copycount, _, _, more, same⟩
    · exact ⟨ordered, .refl⟩
    · change Ordered after ∧ Leads _ after.tcb.state
      exact ordered.stay ⟨more.alike, by rw [same], by rw [same], by rw [same], by rw [same]⟩ (by rw [same])
  | packet handled => exact packet_ordered ordered handled
  | timeout expired => exact timeout_ordered ordered expired
  | close closed => exact handleclose_ordered ordered closed drained
  | gone => exact ⟨ordered, .refl⟩

theorem Opens.ordered (opens : Opens connection) : Ordered connection.endpoint := by
  cases opens with
  | active tcb pristine key iss mtu =>
    refine ⟨pristine.shouldclose, pristine.transmitbuffer, ?_, ?_⟩
    · intro frame member
      rw [List.mem_singleton.mp member]
      change hasFlag controlSyn controlFin = false
      decide
    · change hasFlag controlSyn controlFin = false
      decide
  | passive parent key header iss mtu newsendmss =>
    refine ⟨rfl, rfl, ?_, ?_⟩
    · intro frame member
      rw [List.mem_singleton.mp member]
      change hasFlag (controlSyn ||| controlAck) controlFin = false
      decide
    · change hasFlag (controlSyn ||| controlAck) controlFin = false
      decide

theorem Reaches.leads {start : Connection} (reached : Reaches Connection.step ClosesDrained start connection)
    (ordered : Ordered start.endpoint) : Ordered connection.endpoint ∧ Leads start.tcb.state connection.tcb.state := by
  have begins : Ordered start.endpoint ∧ Leads start.tcb.state start.tcb.state := ⟨ordered, .refl⟩
  refine Reaches.keeps (fun connection => Ordered connection.endpoint ∧ Leads start.tcb.state connection.tcb.state)
    ?_ reached begins
  intro state event next kept drained ran
  obtain ⟨later, leads⟩ := step_ordered drained ran kept.1
  exact ⟨later, kept.2.trans leads⟩

/-- The state follows the diagram, does not come back once the FIN is acknowledged, and one FIN is sent. -/
structure Forward (middle final : Connection) : Prop where
  leads : Leads middle.tcb.state final.tcb.state
  stays : middle.tcb.state.FinAcked → final.tcb.state ≠ .finwait1 ∧ final.tcb.state ≠ .lastack
  once : ∃ seq, (∀ frame ∈ final.endpoint.sent, frame.isFin = true → frame.header.seq = seq) ∧
    ((∀ frame ∈ final.endpoint.sent, frame.isFin = false) ∨ final.tcb.sndnext = seq ∨ final.tcb.sndnext = seq + 1)

/-- The states move forward if no open connection is closed while its ring holds data. -/
theorem states_forward {start middle final : Connection} (opens : Opens start)
    (first : Reaches Connection.step ClosesDrained start middle)
    (later : Reaches Connection.step ClosesDrained middle final) : Forward middle final := by
  obtain ⟨ordered, _⟩ := Reaches.leads first opens.ordered
  obtain ⟨finalOrdered, leads⟩ := Reaches.leads later ordered
  constructor
  · exact leads
  · intro acked
    have past := finAcked_leads leads acked
    constructor
    all_goals
      intro state
      rw [state] at past
      exact past
  · obtain ⟨seq, at_, place⟩ := OrderedIn.once finalOrdered
    refine ⟨seq, at_.sent, ?_⟩
    rcases place with none | place
    · exact .inl none.sent
    · exact .inr place

/-- A socket is closed while a segment is in flight and another waits, and the peer acknowledges all of it. -/
def farewell : List TcbEvent :=
  [.packet (ackPacket 8 101) plainSurroundings, .send [65] .whole, .send [66] .whole, .close,
    .packet (ackPacket 8 102) plainSurroundings, .packet (ackPacket 8 103) plainSurroundings]

/-- The acknowledgement of the FIN makes the endpoint send another FIN with the next sequence number. -/
theorem queuedClose_backward : ∃ start final, Opens start ∧
    Reaches Connection.step (fun _ _ => True) start final ∧ ¬ Forward start final ∧
      final.tcb.sndunack = final.tcb.sndnext ∧ final.tcb.state = .finwait1 := by
  let acknowledged := farewell ++ [.packet (ackPacket 8 104) plainSurroundings]
  refine ⟨answeredSyn, answeredSyn.after acknowledged, .passive _ _ _ _ _ _, ?_, ?_, rfl, rfl⟩
  · exact Reaches.of_foldlM acknowledged (fun _ _ _ => trivial) rfl
  · intro forward
    obtain ⟨seq, alike, _⟩ := forward.once
    have first := alike ⟨20, ⟨5000, 80, 103, 8, 0x50, controlFin ||| controlAck, 65535, 0⟩, []⟩ (by decide) (by decide)
    have second := alike ⟨20, ⟨5000, 80, 104, 8, 0x50, controlFin ||| controlAck, 65535, 0⟩, []⟩ (by decide) (by decide)
    rw [← first] at second
    exact absurd second (by decide)

/-- The socket is closed after its byte has been acknowledged. -/
def goodbye : List TcbEvent := greeting ++ [.packet (ackPacket 8 102) plainSurroundings]

theorem goodbye_forward : (answeredSyn.after goodbye).tcb.state = .estabilished ∧
    Forward (answeredSyn.after goodbye) ((answeredSyn.after goodbye).after [.close]) := by
  refine ⟨rfl, ?_⟩
  apply states_forward (Opens.passive 0 ⟨1, 80, 5000⟩ ⟨80, 5000, 7, 0, 0x50, controlSyn, 65535, 0⟩ 100 1500 536)
  · apply Reaches.of_foldlM goodbye
    · intro event member state
      simp only [goodbye, greeting, List.cons_append, List.nil_append, List.mem_cons, List.not_mem_nil, or_false]
        at member
      rcases member with rfl | rfl | rfl <;> trivial
    · rfl
  · apply Relation.ReflTransGen.single
    exact ⟨.close, fun _ => rfl, rfl⟩

end Astral.Net
