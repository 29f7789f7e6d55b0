import Astral.Construction.Backlog
import Astral.Library.Run
import Astral.Proof.Connection

namespace Astral.Net

open Library

variable {header : Tcpheader} {elapsedms id : Nat} {endpoint : Endpoint} {child : Child}

/-- The peer has asked for a connection and has not completed it. -/
def Child.halfOpen (child : Child) : Bool := child.state = .synreceived

def Listening.halfOpen (listening : Listening) : Nat := listening.children.countP Child.halfOpen

/-- The packet resets the connection. -/
def Child.resetBy (child : Child) (packet : Packet) : Bool :=
  seqinrange packet.header.seq (packet.header.seq + 1) child.endpoint.tcb.rcvnext
    (child.endpoint.tcb.rcvnext + child.endpoint.tcb.rcvwindow) && hasFlag packet.header.control controlRst

/-- A new block can be stored and answered, and no connection is reset before it is complete. -/
def Unbroken (listening : Listening) : ListenEvent → Prop
  | .syn _ _ around => around.stored = true ∧ (listening.tcb.backlogfree = 0 ∨ around.sent = true)
  | .packet id packet _ _ =>
    ∀ child, listening.children[id]? = some child → child.halfOpen = true → child.resetBy packet = false
  | _ => True

section States

variable {before after : Endpoint} {packet : Packet} {around : Surroundings}

theorem handleack_later (ran : before.tcpHandleack header = .ok after) (later : before.tcb.state ≠ .synreceived) :
    after.tcb.state ≠ .synreceived := by
  rcases handleack_cases ran with ⟨_, transmitted⟩ | ⟨_, _, rfl⟩ | ⟨_, _, rfl⟩
  · rw [transmitted.state]
    exact later
  · change (if before.tcb.state = .closewait then TcbState.lastack else .finwait1) ≠ _
    split <;> decide
  · exact later

theorem handledatareceive_later {allocated : Bool} {finstate : TcbState}
    (ran : before.tcpHandledatareceive packet allocated finstate = .ok after) (later : before.tcb.state ≠ .synreceived)
    (fin : finstate ≠ .synreceived) : after.tcb.state ≠ .synreceived := by
  obtain ⟨shouldack, queued, middle, queue, middle_eq, _, result⟩ := handledatareceive_cases ran
  have still : middle.tcb.state ≠ .synreceived := by
    rw [middle_eq]
    rcases taken_state queued packet finstate with state | state
    · rw [state]
      exact fin
    · rw [state, (queuereceivepacket_send queue).2]
      exact later
  rcases result with rfl | ⟨_, _, handled⟩
  · exact still
  · exact handleack_later handled still

theorem armTimewait_state (endpoint : Endpoint) : endpoint.armTimewait.tcb.state = endpoint.tcb.state := by
  unfold Endpoint.armTimewait
  split <;> rfl

/-- No packet leads back to a half-open connection. -/
theorem tcpPacket_later (ran : before.tcpPacket packet around = .ok after) (later : before.tcb.state ≠ .synreceived) :
    after.tcb.state ≠ .synreceived := by
  cases tcpPacket_step ran with
  | reset | connected | left | crossed => exact TcbState.noConfusion
  | answered same _ =>
    rw [same]
    exact later
  | repeated state => exact absurd state later
  | accepted state _ _ => exact absurd state later
  | data _ handled => exact handledatareceive_later handled later (by decide)
  | acked _ _ handled => exact handleack_later handled later
  | closing _ moved handled =>
    rw [armTimewait_state]
    rcases moved with ⟨rfl, rfl⟩ | ⟨rfl, _, rfl⟩
    · exact handledatareceive_later handled later (by decide)
    · exact handledatareceive_later handled TcbState.noConfusion (by decide)
  | closed _ handled =>
    rw [armTimewait_state]
    exact handledatareceive_later handled later (by decide)

/-- A packet that does not reset a half-open connection leaves it as it is or completes it. -/
theorem tcpPacket_halfOpen (state : before.tcb.state = .synreceived)
    (kept : (seqinrange packet.header.seq (packet.header.seq + 1) before.tcb.rcvnext
      (before.tcb.rcvnext + before.tcb.rcvwindow) && hasFlag packet.header.control controlRst) = false)
    (there : around.parentClosed = false) : ∃ after, before.tcpPacket packet around = .ok after ∧
      (after.tcb.state = .synreceived ∧ after.tcb.currentrto = before.tcb.currentrto ∨
        after.tcb.state = .estabilished) := by
  simp only [Endpoint.tcpPacket, kept, Bool.false_and, Bool.false_eq_true, if_false, state, there]
  split
  · exact ⟨_, rfl, .inl ⟨state, rfl⟩⟩
  · split
    · exact ⟨_, rfl, .inr rfl⟩
    · exact ⟨_, rfl, .inl ⟨state, rfl⟩⟩

/-- The timer of a half-open connection never gets to its limit, since its interval is zero. -/
theorem tcpTimeout_halfOpen (state : before.tcb.state = .synreceived) (zero : before.tcb.currentrto = 0) :
    ∃ after, before.tcpTimeout elapsedms packet around = .ok after ∧ after.tcb.state = .synreceived ∧
      after.tcb.currentrto = 0 := by
  have here : before.tcb.state ≠ .closed ∧ before.tcb.state ≠ .abort := by
    rw [state]
    decide
  have some_time : ¬ (before.tcb.currentrto = rtoMaxSec ∨ before.tcb.state = .timewait) := by
    rw [zero, state]
    decide
  have due : elapsedms / 1000 ≥ before.tcb.currentrto := by
    rw [zero]
    exact Nat.zero_le _
  rw [Endpoint.tcpTimeout, if_pos here]
  refine ⟨_, rfl, ?_⟩
  simp only [Endpoint.tcpHandletimeout, if_neg some_time, if_pos due]
  exact ⟨state, by rw [zero]⟩

theorem tcpTimeout_later (ran : before.tcpTimeout elapsedms packet around = .ok after)
    (later : before.tcb.state ≠ .synreceived) : after.tcb.state ≠ .synreceived := by
  unfold Endpoint.tcpTimeout at ran
  split at ran
  · cases ran
    fun_cases Endpoint.tcpHandletimeout before elapsedms with
    | case1 => exact TcbState.noConfusion
    | _ => exact later
  · exact tcpPacket_later ran later

end States

/-- Every slot of the backlog is free, reserved by a half-open connection, or taken by a complete one. -/
structure Listening.Conserved (size : Nat) (listening : Listening) : Prop where
  room : listening.size = size
  sum : listening.tcb.backlogfree + listening.halfOpen + listening.tcb.backlog.length = size
  state : listening.tcb.state = .listen
  calm : listening.tcb.reset = false
  untimed : ∀ child ∈ listening.children, child.halfOpen = true → child.endpoint.tcb.currentrto = 0

variable {listening : Listening} {size : Nat}

theorem addChild_halfOpen (locked : Bool) (state : endpoint.tcb.state = .synreceived) :
    (listening.addChild endpoint locked).halfOpen = listening.halfOpen + 1 := by
  have counted : Child.halfOpen ⟨endpoint, locked⟩ = true := decide_eq_true state
  rw [Listening.halfOpen, Listening.addChild, List.countP_append, List.countP_singleton, if_pos counted,
    Listening.halfOpen]

theorem openConnection_conserved {key : Connkey} {around : SynSurroundings} (conserved : listening.Conserved size)
    (stored : around.stored = true) (sent : listening.tcb.backlogfree = 0 ∨ around.sent = true) :
    (listening.openConnection key header around).Conserved size := by
  unfold Listening.openConnection
  simp only [stored]
  split
  · exact conserved
  split
  · exact conserved
  split
  · exact conserved
  rw [if_neg (by decide)]
  split
  · exact conserved
  next some_free =>
    have answered := sent.resolve_left some_free
    rw [answered, if_neg (by decide)]
    have sum := conserved.sum
    constructor
    case room => exact conserved.room
    case sum =>
      rw [addChild_halfOpen false rfl]
      show listening.tcb.backlogfree - 1 + (listening.halfOpen + 1) + listening.tcb.backlog.length = size
      omega
    case state => exact conserved.state
    case calm => exact conserved.calm
    case untimed =>
      intro child member
      rcases List.mem_append.mp member with old | new
      · exact conserved.untimed child old
      · rw [List.mem_singleton.mp new]
        exact fun _ => rfl

/-- The backlog is neither written when it is full nor read when it is empty. -/
def ListenFault.Spared (fault : ListenFault) : Prop := fault ≠ .backlogWrite ∧ fault ≠ .backlogRead

/-- A task changes the count by the child that it handles. -/
theorem settle_halfOpen (endpoint : Endpoint) (found : listening.children[id]? = some child) :
    (listening.settle id child endpoint).halfOpen + (if child.halfOpen then 1 else 0) =
      listening.halfOpen + if Child.halfOpen ⟨endpoint, child.locked⟩ then 1 else 0 := by
  obtain ⟨within, here⟩ := List.getElem?_eq_some_iff.mp found
  have changed : (listening.settle id child endpoint).halfOpen =
      listening.halfOpen - (if child.halfOpen then 1 else 0) +
        if Child.halfOpen ⟨endpoint, child.locked⟩ then 1 else 0 := by
    rw [Listening.halfOpen, Listening.settle, List.countP_set within, here]
    rfl
  have counted : (if child.halfOpen then 1 else 0) ≤ listening.halfOpen := by
    split
    · next half => exact List.countP_pos_iff.mpr ⟨child, List.mem_of_getElem? found, half⟩
    · exact Nat.zero_le _
  omega

section

variable (conserved : listening.Conserved size)
include conserved

theorem settle_conserved (untimed : endpoint.tcb.state = .synreceived → endpoint.tcb.currentrto = 0)
    (same : (listening.settle id child endpoint).halfOpen = listening.halfOpen) :
    (listening.settle id child endpoint).Conserved size where
  room := conserved.room
  sum := by
    rw [same]
    exact conserved.sum
  state := conserved.state
  calm := conserved.calm
  untimed other member half := by
    rcases List.mem_or_eq_of_mem_set member with old | rfl
    · exact conserved.untimed other old half
    · exact untimed (of_decide_eq_true half)

/-- A task keeps a half-open connection half-open or completes it, and another one is not opened again. -/
theorem task_conserved {run : Endpoint → Except Assertion Endpoint}
    (half : ∀ child, listening.children[id]? = some child → child.endpoint.tcb.state = .synreceived →
      child.endpoint.tcb.currentrto = 0 → ∃ after, run child.endpoint = .ok after ∧
        (after.tcb.state = .synreceived ∧ after.tcb.currentrto = 0 ∨ after.tcb.state = .estabilished))
    (later : ∀ before after, run before = .ok after → before.tcb.state ≠ .synreceived → after.tcb.state ≠ .synreceived) :
    Yields ListenFault.Spared (listening.task id run) (Listening.Conserved size) := by
  have spared : ∀ fault, fault ≠ .backlogWrite → fault ≠ .backlogRead → ListenFault.Spared fault :=
    fun _ one two => ⟨one, two⟩
  unfold Listening.task
  split
  · exact spared _ (by decide) (by decide)
  next child found =>
    split
    · exact spared _ (by decide) (by decide)
    cases open_eq : child.halfOpen with
    | true =>
      have state : child.state = .synreceived := of_decide_eq_true open_eq
      have zero := conserved.untimed child (List.mem_of_getElem? found) open_eq
      obtain ⟨after, ran, outcome⟩ := half child found state zero
      have counted := settle_halfOpen after found
      rw [open_eq, if_pos rfl] at counted
      rw [ran]
      rcases outcome with ⟨still, zero⟩ | complete
      · simp only [still, state, true_and, if_neg (show TcbState.synreceived ≠ .estabilished by decide)]
        have still_open : Child.halfOpen ⟨after, child.locked⟩ = true := decide_eq_true still
        rw [still_open, if_pos rfl] at counted
        exact settle_conserved conserved (fun _ => zero) (by omega)
      · simp only [state, complete, and_self, if_true]
        have completed : Child.halfOpen ⟨after, child.locked⟩ = false :=
          decide_eq_false (by rw [Child.state, complete]; decide)
        rw [completed, if_neg (by decide)] at counted
        have sum := conserved.sum
        have room : (listening.settle id child after).tcb.backlog.length < (listening.settle id child after).size := by
          show listening.tcb.backlog.length < listening.size
          rw [conserved.room]
          omega
        rw [Listening.enqueue, if_pos room]
        constructor
        case room => exact conserved.room
        case sum =>
          show listening.tcb.backlogfree + (listening.settle id child after).halfOpen +
            (listening.tcb.backlog ++ [id]).length = size
          rw [List.length_append, List.length_singleton]
          omega
        case state => exact conserved.state
        case calm => exact conserved.calm
        case untimed =>
          intro other member other_half
          rcases List.mem_or_eq_of_mem_set member with old | rfl
          · exact conserved.untimed other old other_half
          · cases complete.symm.trans (of_decide_eq_true other_half)
    | false =>
      have state : child.state ≠ .synreceived := of_decide_eq_false open_eq
      cases ran : run child.endpoint with
      | error failed => exact spared _ ListenFault.noConfusion ListenFault.noConfusion
      | ok after =>
        have still := later child.endpoint after ran state
        have counted := settle_halfOpen after found
        have not_open : Child.halfOpen ⟨after, child.locked⟩ = false := decide_eq_false still
        rw [open_eq, not_open] at counted
        simp only [state, false_and, if_false]
        exact settle_conserved conserved (fun again => absurd again still) (by simpa using counted)

theorem takeBacklog_conserved (some_entry : listening.tcb.backlog ≠ []) :
    Yields ListenFault.Spared listening.takeBacklog (Listening.Conserved size) := by
  unfold Listening.takeBacklog
  split
  · next empty => exact absurd empty some_entry
  · next id rest entries =>
    have sum := conserved.sum
    rw [entries, List.length_cons] at sum
    refine ⟨conserved.room, ?_, conserved.state, conserved.calm, conserved.untimed⟩
    show listening.tcb.backlogfree + 1 + listening.halfOpen + rest.length = size
    omega

/-- The wait for a connection ends only when there is one. -/
theorem polled_entry (polled : listening.polled = true) : listening.tcb.backlog ≠ [] := by
  simp only [Listening.polled, internalpoll, conserved.state, conserved.calm] at polled
  simpa using polled

theorem step_conserved {event : ListenEvent} (steady : Unbroken listening event) :
    Yields ListenFault.Spared (listening.step event) (Listening.Conserved size) := by
  have there : decide (listening.tcb.state = .closed) = false := by
    rw [conserved.state]
    rfl
  cases event with
  | syn key packet around =>
    rw [Listening.step, Listening.listenPacket, if_pos conserved.state]
    exact openConnection_conserved conserved steady.1 steady.2
  | packet id packet allocated newsendmss =>
    rw [Listening.step]
    apply task_conserved conserved
    · intro child found state zero
      obtain ⟨after, ran, outcome⟩ := tcpPacket_halfOpen state (steady child found (decide_eq_true state))
        (show Surroundings.parentClosed ⟨allocated, newsendmss, listening.tcb.state = .closed⟩ = false from there)
      refine ⟨after, ran, outcome.imp_left ?_⟩
      rintro ⟨still, rto⟩
      exact ⟨still, rto.trans zero⟩
    · intro before after ran later
      exact tcpPacket_later ran later
  | timeout id elapsedms stale allocated newsendmss =>
    rw [Listening.step]
    apply task_conserved conserved
    · intro child found state zero
      obtain ⟨after, ran, still⟩ := tcpTimeout_halfOpen state zero
      exact ⟨after, ran, .inl still⟩
    · intro before after ran later
      exact tcpTimeout_later ran later
  | accept nonblocking =>
    rw [Listening.step, Listening.tcpAccept, if_neg (not_not_intro conserved.state)]
    split
    · next polled => exact takeBacklog_conserved conserved (polled_entry conserved polled)
    · split
      · exact conserved
      · exact ⟨conserved.room, conserved.sum, conserved.state, conserved.calm, conserved.untimed⟩
  | resumeAccept =>
    rw [Listening.step, Listening.resumeAccept]
    split
    · exact ⟨by decide, by decide⟩
    · split
      · next polled =>
        have entry : listening.tcb.backlog ≠ [] := polled_entry conserved polled
        exact takeBacklog_conserved
          ⟨conserved.room, conserved.sum, conserved.state, conserved.calm, conserved.untimed⟩ entry
      · exact conserved

end

theorem listen_conserved (size : Nat) : (listen size).Conserved size where
  room := rfl
  sum := rfl
  state := rfl
  calm := rfl
  untimed _ member := by cases member

/-- In a run without such failures each slot is free, reserved or taken, and the backlog has room for each complete
connection. -/
theorem backlog_conserved (reached : Reaches Listening.step Unbroken (listen size) listening) :
    listening.tcb.backlogfree + listening.halfOpen + listening.tcb.backlog.length = size ∧
      ∀ event, Unbroken listening event →
        listening.step event ≠ .error .backlogWrite ∧ listening.step event ≠ .error .backlogRead := by
  have conserved : listening.Conserved size := by
    apply reached.keeps (Listening.Conserved size)
    · intro state event next conserved steady moved
      exact (step_conserved conserved steady).of_ok moved
    · exact listen_conserved size
  refine ⟨conserved.sum, ?_⟩
  intro event steady
  have yields := step_conserved conserved steady
  constructor
  · intro failed
    exact (yields.of_error failed).1 rfl
  · intro failed
    exact (yields.of_error failed).2 rfl

def askPacket (control : Control) (seq ack : Seq) : Packet :=
  ⟨⟨5000, 80, seq, ack, 0x50, control, 65535, 0⟩, List.replicate 20 0⟩

/-- A peer asks for a connection, and everything is there to open it. -/
def ask : ListenEvent := .syn ⟨9, 5000, 80⟩ (askPacket controlSyn 7 0) ⟨1500, 1, 536, 100, true, true, true⟩

/-- One connection is half-open. -/
def asked : Listening where
  size := 1
  listener := ⟨{ allocatetcb with state := .listen, backlogfree := 0, retransmitpacketlen := 24 }, [], 0⟩
  children := [⟨Endpoint.sendSynack 0 ⟨9, 5000, 80⟩ (askPacket controlSyn 7 0).header 100 1500 536, false⟩]
  conntable := [(⟨9, 5000, 80⟩, 0)]
  waiting := 0

theorem asked_reached {allowed : Listening → ListenEvent → Prop} (may : allowed (listen 1) ask) :
    Reaches Listening.step allowed (listen 1) asked := by
  have start : Reaches Listening.step allowed (listen 1) (listen 1) := .refl
  exact start.next may rfl

theorem asked_conserves : asked.tcb.backlogfree + asked.halfOpen + asked.tcb.backlog.length = 1 :=
  (backlog_conserved (asked_reached ⟨rfl, .inr rfl⟩)).1

/-- A peer that resets its half-open connection leaves a slot that is neither free nor reserved nor taken. -/
theorem reset_loses_slot : ∃ listening, Reaches Listening.step (fun _ _ => True) (listen 1) listening ∧
      listening.tcb.backlogfree = 0 ∧ listening.halfOpen = 0 ∧ listening.tcb.backlog = [] := by
  have reset : asked.step (.packet 0 (askPacket controlRst 8 0) true 536) = .ok (asked.settle 0 asked.children[0]
      asked.children[0].endpoint.tcpReset) := by decide +kernel
  refine ⟨_, (asked_reached trivial).next trivial reset, rfl, ?_, rfl⟩
  decide +kernel

end Astral.Net
