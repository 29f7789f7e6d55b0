import Astral.Construction.Localsocket
import Astral.Proof.SocketRing

namespace Astral.Localsocket

open Function Io Astral.Library

variable {ctrl : Option (List Ctrl)} {data : List UInt8} {buffers : Buffers}

/-- An access within the array goes on. -/
theorem checkIndex_then {A : Type} {size index : Nat} (inside : index < size) (next : Unit → Except Fault A) :
    (checkIndex size index >>= next) = next () := by
  rw [checkIndex, if_pos inside]
  rfl

/-- A call ends within the arrays, in a good state if it returns. -/
def InBounds {A : Type} (result : Except Fault A) (good : A → Prop) : Prop := Yields (· ≠ .outside) result good

section Backlog

variable {server : Listener}

/-- The counters have not passed the end of the backlog. -/
structure Listener.Within (server : Listener) : Prop where
  ordered : server.backlogcurrentread ≤ server.backlogcurrentwrite
  below : server.backlogcurrentwrite ≤ server.backlogsize

/-- There are no more connections over the life of the listener than the backlog has entries. -/
def Listener.Few (server : Listener) : ListenerEvent → Prop
  | .connect _ => server.backlogcurrentwrite < server.backlogsize
  | _ => True

theorem Listener.Within.connect (within : server.Within) {pair : Nat}
    (few : server.backlogcurrentwrite < server.backlogsize) : InBounds (server.connect pair) Listener.Within := by
  have ordered := within.ordered
  have space : server.backlogcurrentwrite < server.backlogcurrentread + server.backlogsize := by omega
  simp only [Listener.connect, Listener.pushbacklog, if_pos space, checkIndex_then few]
  exact ⟨Nat.le_succ_of_le ordered, few⟩

theorem Listener.Within.acceptLoop (within : server.Within) (remaining : Nat) :
    InBounds (Listener.acceptLoop remaining server) Listener.Within := by
  induction remaining generalizing server with
  | zero => simp [Listener.acceptLoop, InBounds, Yields]
  | succ remaining ih =>
    have ordered := within.ordered
    have below := within.below
    simp only [Listener.acceptLoop]
    split
    · next some_waiting =>
      have waiting : server.backlogcurrentread < server.backlogcurrentwrite := by omega
      simp only [Listener.popbacklog, if_pos waiting, checkIndex_then (Nat.lt_of_lt_of_le waiting below)]
      have popped : Listener.Within { server with
          backlog := update server.backlog server.backlogcurrentread none
          backlogcurrentread := server.backlogcurrentread + 1 } := ⟨waiting, below⟩
      simp only [bind, Except.bind, pure, Except.pure]
      split
      · exact ih popped
      · exact popped
    · simp [InBounds, Yields]

theorem Listener.step_within (within : server.Within) {event : ListenerEvent} (few : server.Few event) :
    InBounds (server.step event) Listener.Within := by
  cases event with
  | connect pair => exact within.connect few
  | accept => exact within.acceptLoop _
  | close pair => exact ⟨within.ordered, within.below⟩

end Backlog

section Barriers

variable {channel : Channel}

/-- No section after the last one has bytes, and the current section is at most the one after it. -/
structure Channel.Within (channel : Channel) : Prop where
  below : channel.barrierwrite ≤ 14
  close : channel.barriercurrent ≤ channel.barrierwrite + 1
  clear : ∀ slot, channel.barrierwrite < slot → slot < barrierSize → channel.bytesremaining slot = 0

/-- There are at most 14 control blocks over the life of the channel. -/
def Channel.Few (channel : Channel) : ChannelEvent → Prop
  | .send _ _ (some blocks) => channel.barrierwrite + blocks.length ≤ 14
  | _ => True

section

variable (within : channel.Within)
include within

theorem Channel.Within.addBarrier (few : channel.barrierwrite + 1 ≤ 14) (fdcount datasent : Nat) :
    InBounds (channel.addBarrier fdcount datasent) fun next =>
      next.Within ∧ next.barrierwrite = channel.barrierwrite + 1 := by
  have close := within.close
  have slot : (channel.barrierwrite + 1) % barrierSize = channel.barrierwrite + 1 :=
    Nat.mod_eq_of_lt (Nat.lt_of_le_of_lt few (by decide))
  unfold Channel.addBarrier
  split
  · refine ⟨⟨few, by simp only; omega, ?_⟩, rfl⟩
    intro other above inside
    simp only [slot]
    rw [update_of_ne (by simp only at above; omega)]
    exact within.clear other (by simp only at above; omega) inside
  · simp [InBounds, Yields]

theorem Channel.Within.sendFiles (few : channel.barrierwrite + 1 ≤ 14) (fds : List (Option Nat)) (datasent : Nat) :
    InBounds (channel.sendFiles fds datasent) fun result =>
      result.2.Within ∧ result.2.barrierwrite ≤ channel.barrierwrite + 1 := by
  unfold Channel.sendFiles
  split
  · exact ⟨within, Nat.le_succ _⟩
  · split
    · exact ⟨within, Nat.le_succ _⟩
    · next files _ =>
      have stored : Channel.Within { channel with fds := channel.fds ++ files } :=
        ⟨within.below, within.close, within.clear⟩
      apply (stored.addBarrier few fds.length datasent).bind
      intro next result
      exact ⟨result.1, result.2.le⟩

theorem Channel.Within.sendBlocks (datasent remaining : Nat) (blocks : List Ctrl)
    (few : channel.barrierwrite + remaining ≤ 14) :
    InBounds (Channel.sendBlocks datasent remaining blocks channel) fun result => result.2.Within := by
  induction remaining generalizing blocks channel with
  | zero => simpa [Channel.sendBlocks, InBounds, Yields] using within
  | succ remaining ih =>
    cases blocks with
    | nil => simpa [Channel.sendBlocks, InBounds, Yields] using within
    | cons ctrl rest =>
      simp only [Channel.sendBlocks]
      split
      · split
        · apply (within.sendFiles (by omega) ctrl.fds datasent).bind
          intro ⟨error, next⟩ ⟨next_within, next_write⟩
          split
          · exact next_within
          · exact ih next_within rest (by omega)
        · exact ih within rest (by omega)
      · exact ih within (ctrl :: rest) (by omega)

theorem Channel.Within.sendctrl (datasent : Nat) (few : ∀ blocks ∈ ctrl, channel.barrierwrite + blocks.length ≤ 14) :
    InBounds (channel.sendctrl ctrl datasent) fun result => result.2.Within := by
  have below := within.below
  cases ctrl with
  | none =>
    have inside : channel.barrierwrite < barrierSize := Nat.lt_of_le_of_lt below (by decide)
    simp only [Channel.sendctrl, checkIndex_then inside]
    refine ⟨below, within.close, ?_⟩
    intro slot above slot_inside
    have different : slot ≠ channel.barrierwrite := Nat.ne_of_gt above
    simp only [update_of_ne different]
    exact within.clear slot above slot_inside
  | some blocks => exact within.sendBlocks datasent blocks.length blocks (few blocks rfl)

theorem Channel.Within.store (ringbuffer : List UInt8) : Channel.Within { channel with ringbuffer } :=
  ⟨within.below, within.close, within.clear⟩

theorem Channel.Within.send (few : channel.Few (.send buffers data ctrl)) :
    InBounds (channel.step (.send buffers data ctrl)) Channel.Within := by
  have few_blocks : ∀ blocks ∈ ctrl, channel.barrierwrite + blocks.length ≤ 14 := by
    intro blocks given
    cases given
    exact few
  apply Yields.map
  fun_cases Channel.localsockSend channel buffers data ctrl with
  | case3 _ progress => exact within.store progress.side
  | case4 _ progress =>
    apply ((within.store progress.side).sendctrl progress.done few_blocks).bind
    intro result result_within
    exact result_within
  | _ => simp [Yields]

end

/-- Two channels whose sections are at the same place and have the same bytes. -/
structure Channel.SameBarriers (before after : Channel) : Prop where
  current : after.barriercurrent = before.barriercurrent
  write : after.barrierwrite = before.barrierwrite
  bytes : after.bytesremaining = before.bytesremaining

theorem Channel.SameBarriers.within {after : Channel} (same : channel.SameBarriers after) (within : channel.Within) :
    after.Within where
  below := same.write ▸ within.below
  close := by
    rw [same.current, same.write]
    exact within.close
  clear := by
    rw [same.write, same.bytes]
    exact within.clear

section

variable (within : channel.Within)
include within

theorem Channel.Within.current : channel.barriercurrent < barrierSize := by
  have below := within.below
  have close := within.close
  have size : barrierSize = 16 := rfl
  omega

omit within in
theorem insertFiles_inBounds (count slots : Nat) (fds : List Nat) :
    InBounds (insertFiles count slots fds) fun _ => True := by
  induction count generalizing slots fds with
  | zero => trivial
  | succ count ih =>
    cases fds with
    | nil => simp [insertFiles, InBounds, Yields]
    | cons file fds =>
      cases slots with
      | zero => trivial
      | succ slots =>
        apply (ih slots fds).bind
        intro _ _
        trivial

theorem Channel.Within.discard : InBounds channel.discard fun result => channel.SameBarriers result.2 := by
  simp only [Channel.discard, checkIndex_then within.current]
  split
  · exact ⟨rfl, rfl, rfl⟩
  · simp [InBounds, Yields]

theorem Channel.Within.takeFiles (ctrllen slots : Nat) :
    InBounds (channel.takeFiles ctrllen slots) fun result => channel.SameBarriers result.2 := by
  simp only [Channel.takeFiles, checkIndex_then within.current]
  generalize min (min (subWord ctrllen sockctrlSize / 4) channel.fds.length) _ = actualcount
  apply (insertFiles_inBounds actualcount slots channel.fds).bind
  intro _ _
  exact ⟨rfl, rfl, rfl⟩

theorem Channel.Within.recvctrl (ctrllen : Option Nat) (slots : Nat) :
    InBounds (channel.recvctrl ctrllen slots) fun result => result.2.2.Within := by
  cases ctrllen with
  | none =>
    apply within.discard.bind
    intro result same
    exact same.within within
  | some ctrllen =>
    apply (within.takeFiles ctrllen slots).bind
    intro taken same
    have taken_within := same.within within
    apply taken_within.discard.bind
    intro result result_same
    exact result_same.within taken_within

/-- A receive steps on only from a section that has bytes, so that it is not past the last one. -/
theorem Channel.Within.stepBarrier (recvcount : Nat) :
    InBounds (channel.stepBarrier recvcount) fun result => result.2.Within := by
  have slot : channel.barriercurrent % barrierSize = channel.barriercurrent := Nat.mod_eq_of_lt within.current
  simp only [Channel.stepBarrier, slot, checkIndex_then within.current]
  split
  · next some_bytes =>
    have not_past : channel.barriercurrent ≤ channel.barrierwrite := by
      by_contra past
      exact some_bytes (within.clear _ (by omega) within.current)
    split
    · simp [InBounds, Yields]
    · refine ⟨within.below, ?_, ?_⟩
      · simp only
        split <;> omega
      · intro other above inside
        have different : other ≠ channel.barriercurrent := Nat.ne_of_gt (Nat.lt_of_le_of_lt not_past above)
        simp only [update_of_ne different]
        exact within.clear other above inside
  · exact within

theorem Channel.Within.recv (request : Request) : InBounds (channel.step (.recv request)) Channel.Within := by
  apply Yields.map
  unfold Channel.localsockRecv
  split
  · simp [Yields]
  · apply (within.recvctrl request.ctrllen request.slots).bind
    intro ⟨files, truncated, socket⟩ socket_within
    apply (Channel.Within.stepBarrier socket_within (min request.count socket.ringbuffer.length)).bind
    intro ⟨recvcount, stepped⟩ stepped_within
    simp only
    split
    · simp [Yields]
    · split
      · exact stepped_within
      · split
        · exact stepped_within.store _
        · simp [Yields]

theorem Channel.step_within {event : ChannelEvent} (few : channel.Few event) :
    InBounds (channel.step event) Channel.Within := by
  cases event with
  | send buffers data ctrl => exact within.send few
  | recv request => exact within.recv request

end

end Barriers

/-- With at most as many connections as the backlog has entries and at most 14 control blocks, no access is out of
bounds. -/
theorem local_indices_in_range {backlogsize : Nat} {server : Listener} {channel : Channel}
    (server_reached : Reaches Listener.step Listener.Few (Listener.listen backlogsize) server)
    (channel_reached : Reaches Channel.step Channel.Few Channel.fresh channel) :
    (∀ event, server.Few event → server.step event ≠ .error .outside) ∧
      ∀ event, channel.Few event → channel.step event ≠ .error .outside := by
  constructor
  · intro event few failed
    have within : server.Within := by
      apply server_reached.keeps Listener.Within
      · intro state event next within few moved
        exact (Listener.step_within within few).of_ok moved
      · exact ⟨le_refl _, Nat.zero_le _⟩
    exact (Listener.step_within within few).of_error failed rfl
  · intro event few failed
    have within : channel.Within := by
      apply channel_reached.keeps Channel.Within
      · intro state event next within few moved
        exact (Channel.step_within within few).of_ok moved
      · exact ⟨Nat.zero_le _, Nat.zero_le _, fun _ _ _ => rfl⟩
    exact (Channel.step_within within few).of_error failed rfl

/-- One entry names one byte. -/
def oneByte : Buffers := ⟨iovecIteratorInit [⟨0x1000, 1⟩], 1⟩

/-- The first connection to a backlog of one entry and the first send on a channel are in range. -/
theorem first_connection_in_range :
    (∃ server, (Listener.listen 1).step (.connect 1) = .ok server ∧ server.step .accept ≠ .error .outside) ∧
      Channel.fresh.step (.send oneByte [0] none) ≠ .error .outside := by
  have begins : Reaches Listener.step Listener.Few (Listener.listen 1) (Listener.listen 1) := .refl
  have connected := begins.next (show Listener.Few _ (.connect 1) from Nat.zero_lt_one) rfl
  have opened : Reaches Channel.step Channel.Few Channel.fresh Channel.fresh := .refl
  obtain ⟨server_inside, channel_inside⟩ := local_indices_in_range connected opened
  exact ⟨⟨_, rfl, server_inside .accept trivial⟩, channel_inside (.send oneByte [0] none) trivial⟩

theorem mapM_some (files : List Nat) : (files.map some).mapM id = some files := by
  induction files with
  | nil => rfl
  | cons file rest ih =>
    rw [List.map_cons, List.mapM_cons, ih]
    rfl

/-- The entries take this many bytes, which can all be accessed. -/
def Buffers.Ready (buffers : Buffers) (count : Nat) : Prop :=
  buffers.iterator.Ready count ∧ count ≤ buffers.accessible

/-- A send that fits in the buffer puts all of its data there. -/
theorem send_fits {channel : Channel} (nonempty : data ≠ []) (ready : buffers.Ready data.length)
    (fits : channel.ringbuffer.length + data.length ≤ socketBuffer) (ctrl : Option (List Ctrl)) :
    channel.localsockSend buffers data ctrl = (do
      let (error, peer) ← { channel with ringbuffer := channel.ringbuffer ++ data }.sendctrl ctrl data.length
      pure (data.length, error, peer)) := by
  have positive := List.length_pos_iff.mpr nonempty
  have not_full : channel.ringbuffer.length ≠ socketBuffer := by omega
  obtain ⟨final, ran, side, done, calm⟩ := ready.1.write nonempty ready.2 fits
    (show buffers.iterator.iovec.length < buffers.fuel by rw [Buffers.fuel]; omega)
  simp only [Channel.localsockSend, if_neg not_full, ran, calm, side, done, if_pos positive, Bool.false_eq_true, if_false]

/-- A control block opens a section when there is room for its files and for the section. -/
theorem sendctrl_block (peer : Channel) (files : List Nat) (datasent : Nat)
    (files_fit : peer.fds.length + files.length ≤ fileCount)
    (section_free : peer.barrierwrite ≠ peer.barriercurrent + barrierSize) :
    peer.sendctrl (some [Conversation.block files]) datasent = .ok (none, { peer with
      fds := peer.fds ++ files
      barrierwrite := peer.barrierwrite + 1
      filesremaining := update peer.filesremaining ((peer.barrierwrite + 1) % barrierSize) files.length
      bytesremaining := update peer.bytesremaining ((peer.barrierwrite + 1) % barrierSize) (toInt datasent) }) := by
  have enough : ¬ files.length > fileCount - peer.fds.length := by omega
  change Channel.sendBlocks datasent 1 [Conversation.block files] peer = _
  rw [Channel.sendBlocks]
  simp only [Conversation.block, if_true, Channel.sendFiles, List.length_map, if_neg enough, mapM_some,
    Channel.addBarrier, if_pos section_free]
  rfl

/-- A backlog of one entry takes no second connection after the first one was accepted. Sixteen sends with control data
leave no section for one without. -/
theorem second_connection_overflows :
    (do let server ← (Listener.listen 1).step (.connect 1)
        let server ← server.step .accept
        server.step (.connect 2)) = Except.error Fault.outside ∧
    ((List.replicate 16 (ChannelEvent.send oneByte [0] (some [Conversation.block [7]])) ++
      [ChannelEvent.send oneByte [0] none]).foldlM Channel.step Channel.fresh) = Except.error Fault.outside :=
  ⟨rfl, rfl⟩

end Astral.Localsocket
